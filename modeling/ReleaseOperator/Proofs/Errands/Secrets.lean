import ReleaseOperator.Proofs.Errands.Deeds

/-!
# Where the password goes

An errand for a chart may be given credentials. Two errands whose credentials have different
passwords make the same calls and come to the same end for as long as they are answered alike,
except for what the program is given to read. It is given something to read by one command at most,
the one that registers the repository: that command comes first, no other is run when it fails, and
none at all is given the password for a chart that is not fetched from a repository.
-/

namespace ReleaseOperator.Helm

open Program

variable {α β : Type} {client : Client} {ds ds' es es' : List Deed}

/-! ### Programs that differ in what is read -/

/-- A call as it looks without what the program can read, though not without that it can. -/
def ShellCall.seen : ShellCall → ShellCall
  | .run i deadline => .run { i with stdin := i.stdin.map fun _ => "" } deadline
  | c => c

/-- A deed as it looks so. -/
def Deed.seen : Deed → Deed
  | ⟨.run i deadline, ending⟩ => ⟨.run { i with stdin := i.stdin.map fun _ => "" } deadline, ending⟩
  | d => d

/-- Calls that look the same are answered the same, as far as two errands go. -/
def AnsweredAlike (ds ds' : List Deed) : Prop :=
  ∀ (n : Nat) (d d' : Deed), ds[n]? = some d → ds'[n]? = some d' →
    d.call.seen = d'.call.seen → d.seen = d'.seen

theorem seen_run {i i' : Invocation} {deadline : Duration} (ending : Ending)
    (h : (ShellCall.run i deadline).seen = (ShellCall.run i' deadline).seen) :
    Deed.seen ⟨.run i deadline, ending⟩ = Deed.seen ⟨.run i' deadline, ending⟩ := by
  injection h with hi
  exact congrArg (fun j => (⟨.run j deadline, ending⟩ : Deed)) hi

theorem eq_of_seen {q : ShellCall} {r r' : q.Answer}
    (h : Deed.seen ⟨q, r⟩ = Deed.seen ⟨q, r'⟩) : r = r' := by
  cases q with
  | run i deadline => exact eq_of_heq (Deed.mk.inj h).2
  | _ => exact eq_of_heq (Deed.mk.inj h).2

theorem map_seen_concat {d d' : Deed} (hds : ds.map Deed.seen = ds'.map Deed.seen)
    (hd : d.seen = d'.seen) : (ds ++ [d]).map Deed.seen = (ds' ++ [d']).map Deed.seen := by
  rw [List.map_append, List.map_append, hds, List.map_singleton, List.map_singleton, hd]

/-- What a command can read is no part of its arguments. -/
theorem map_args_commands (ds : List Deed) :
    (commands ds).map Invocation.args = (commands (ds.map Deed.seen)).map Invocation.args := by
  induction ds with
  | nil => rfl
  | cons d ds ih =>
      obtain ⟨q, a⟩ := d
      cases q with
      | run i deadline => exact congrArg (i.args :: ·) ih
      | _ => exact ih

/-- Two programs that ask the same, but for what a command can read, and that go on alike whatever
they are answered. -/
inductive Akin : Shell α → Shell α → Prop
  | done (a : α) : Akin (.done a) (.done a)
  | ask (q : ShellCall) {next next' : q.Answer → Shell α} (h : ∀ r, Akin (next r) (next' r)) :
      Akin (.ask q next) (.ask q next')
  | run (i i' : Invocation) (deadline : Duration) {next next' : Ending → Shell α}
      (hseen : (ShellCall.run i deadline).seen = (ShellCall.run i' deadline).seen)
      (h : ∀ ending, Akin (next ending) (next' ending)) :
      Akin (.ask (.run i deadline) next) (.ask (.run i' deadline) next')

theorem runs_ask_iff {q : ShellCall} {next : q.Answer → Shell α} {o : α} :
    Runs Deed.recording (.ask q next) ds o es ↔
      ∃ a, Runs Deed.recording (next a) (ds ++ [⟨q, a⟩]) o es := by
  constructor
  · rintro (_ | ⟨hanswer, hrest⟩)
    exact ⟨_, hanswer ▸ hrest⟩
  · rintro ⟨a, hrest⟩
    exact .ask rfl hrest

theorem runs_done_iff {a o : α} :
    Runs Deed.recording (.done a) ds o es ↔ o = a ∧ es = ds := by
  constructor
  · rintro ⟨⟩
    exact ⟨rfl, rfl⟩
  · rintro ⟨rfl, rfl⟩
    exact .done _ _

/-- The first deed of a run that goes on from some others comes right behind them. -/
theorem getElem?_of_runs {p : Shell α} {o : α} {d : Deed}
    (h : Runs Deed.recording p (ds ++ [d]) o es) : es[ds.length]? = some d := by
  obtain ⟨rest, rfl⟩ := always_iff_runs.1 (always_remembers p (ds ++ [d])) o es h
  rw [List.append_assoc, List.singleton_append, List.getElem?_append_right (Nat.le_refl _),
    Nat.sub_self, List.getElem?_cons_zero]

namespace Akin

variable {p p' : Shell α} {o o' : α}

theorem refl (p : Shell α) : Akin p p := by
  induction p with
  | done a => exact .done a
  | ask q next ih => exact .ask q ih

theorem bind {f f' : α → Shell β} (h : Akin p p') (hf : ∀ a, Akin (f a) (f' a)) :
    Akin (p.bind f) (p'.bind f') := by
  induction h with
  | done a => exact hf a
  | ask q _ ih => exact .ask q ih
  | run i i' deadline hseen _ ih => exact .run i i' deadline hseen ih

/-- Whatever the one does, the other does something that looks the same, for some answers. -/
theorem exists_runs (h : Akin p p') (hrun : Runs Deed.recording p ds o es)
    (hds : ds.map Deed.seen = ds'.map Deed.seen) :
    ∃ es', Runs Deed.recording p' ds' o es' ∧ es.map Deed.seen = es'.map Deed.seen := by
  induction h generalizing ds ds' with
  | done a =>
      obtain ⟨rfl, rfl⟩ := runs_done_iff.1 hrun
      exact ⟨ds', .done _ _, hds⟩
  | ask q _ ih =>
      obtain ⟨r, hrest⟩ := runs_ask_iff.1 hrun
      obtain ⟨es', hes', heq⟩ := ih r hrest (map_seen_concat hds rfl)
      exact ⟨es', .ask rfl hes', heq⟩
  | run i i' deadline hseen _ ih =>
      obtain ⟨ending, hrest⟩ := runs_ask_iff.1 hrun
      obtain ⟨es', hes', heq⟩ := ih ending hrest (map_seen_concat hds (seen_run ending hseen))
      exact ⟨es', .ask rfl hes', heq⟩

/-- Answered alike, both do what looks the same, and come to the same end. -/
theorem eq_of_answeredAlike (h : Akin p p') (hrun : Runs Deed.recording p ds o es)
    (hrun' : Runs Deed.recording p' ds' o' es') (hds : ds.map Deed.seen = ds'.map Deed.seen)
    (hanswers : AnsweredAlike es es') : es.map Deed.seen = es'.map Deed.seen ∧ o = o' := by
  have hlength : ds.length = ds'.length := by
    simpa only [List.length_map] using congrArg List.length hds
  induction h generalizing ds ds' with
  | done a =>
      obtain ⟨rfl, rfl⟩ := runs_done_iff.1 hrun
      obtain ⟨rfl, rfl⟩ := runs_done_iff.1 hrun'
      exact ⟨hds, rfl⟩
  | ask q _ ih =>
      obtain ⟨r, hrest⟩ := runs_ask_iff.1 hrun
      obtain ⟨r', hrest'⟩ := runs_ask_iff.1 hrun'
      have hnext' := getElem?_of_runs hrest'
      rw [← hlength] at hnext'
      obtain rfl := eq_of_seen (hanswers _ _ _ (getElem?_of_runs hrest) hnext' rfl)
      exact ih r hrest hrest' (map_seen_concat hds rfl)
        (by rw [List.length_append, List.length_append, hlength])
  | run i i' deadline hseen _ ih =>
      obtain ⟨ending, hrest⟩ := runs_ask_iff.1 hrun
      obtain ⟨ending', hrest'⟩ := runs_ask_iff.1 hrun'
      have hnext' := getElem?_of_runs hrest'
      rw [← hlength] at hnext'
      have hsame := hanswers _ _ _ (getElem?_of_runs hrest) hnext' hseen
      obtain rfl := eq_of_seen ((seen_run ending hseen).symm.trans hsame)
      exact ih ending hrest hrest' (map_seen_concat hds hsame)
        (by rw [List.length_append, List.length_append, hlength]; rfl)

end Akin

/-! ### Errands for a chart -/

theorem akin_held {use use' : String → Errand α} (h : ∀ path, Akin (use path).run (use' path).run)
    (made : Except String String) : Akin (Errand.held use made) (Errand.held use' made) := by
  cases made with
  | error detail => exact .done _
  | ok path => exact (h path).bind fun r => .refl _

theorem akin_withFile {content : String} {use use' : String → Errand α}
    (h : ∀ path, Akin (use path).run (use' path).run) :
    Akin (Errand.withFile content use).run (Errand.withFile content use').run := by
  rw [Errand.run_withFile, Errand.run_withFile]
  exact .ask _ (akin_held h)

theorem akin_withDirectory {use use' : String → Errand α}
    (h : ∀ path, Akin (use path).run (use' path).run) :
    Akin (Errand.withDirectory use).run (Errand.withDirectory use').run := by
  rw [Errand.run_withDirectory, Errand.run_withDirectory]
  exact .ask _ (akin_held h)

namespace Client

variable {release : Release} {c c' : Credentials} {command : List String}
  {use : Option PrivateRepository → Errand String}

/-- A repository is registered alike for credentials of one user. -/
theorem akin_withRepository (h : c.username = c'.username) :
    Akin (client.withRepository release (some c) use).run
      (client.withRepository release (some c') use).run := by
  cases hfetched : release.isFetched with
  | false =>
      rw [withRepository_of_not_isFetched hfetched, withRepository_of_not_isFetched hfetched]
      exact .refl _
  | true =>
      rw [withRepository_of_isFetched hfetched, withRepository_of_isFetched hfetched]
      refine akin_withFile fun config => akin_withDirectory fun cache => ?_
      rw [Errand.run_bind, Errand.run_bind, h]
      refine Akin.bind ?_ fun r => .refl _
      rw [run_run, run_run]
      exact .run _ _ _ rfl fun ending => .refl _

theorem akin_reading {read : String → Except HelmError α} (h : c.username = c'.username) :
    Akin (reading (client.withRepository release (some c) use) read).run
      (reading (client.withRepository release (some c') use) read).run :=
  (akin_withRepository h).bind fun _ => .refl _

/-- At most one command, of some sort and with nothing to read. -/
def Unread (command : List String) (is : List Invocation) : Prop :=
  is = [] ∨ ∃ i, is = [i] ∧ i.stdin = none ∧ command <+: i.args

/-- What an errand for the chart of a release does with the credentials that it is given. -/
structure Discreet (client : Client) (release : Release) (command : List String)
    (errand : Option Credentials → Shell α) : Prop where
  /-- The password makes no difference but to what the program can read. -/
  alike : ∀ c c' : Credentials, c.username = c'.username → ∀ o ds o' ds',
    Runs Deed.recording (errand (some c)) [] o ds →
    Runs Deed.recording (errand (some c')) [] o' ds' → AnsweredAlike ds ds' →
    (commands ds).map Invocation.args = (commands ds').map Invocation.args ∧
      ds.map Deed.seen = ds'.map Deed.seen ∧ o = o'
  /-- Any run with one password can be had with another. -/
  twin : ∀ c c' : Credentials, c.username = c'.username → ∀ o ds,
    Runs Deed.recording (errand (some c)) [] o ds →
    ∃ ds', Runs Deed.recording (errand (some c')) [] o ds' ∧
      ds.map Deed.seen = ds'.map Deed.seen
  /-- For a chart that is not fetched, credentials are as good as none. -/
  needless : release.isFetched = false → ∀ c, errand (some c) = errand none
  /-- Without any, the program is given nothing to read. -/
  anonymous : Always Deed.recording (errand none) [] fun _ ds => Unread command (commands ds)
  /-- For a chart that is fetched, the first command registers the repository and is given the
  password to read, and when it fails no other is run. -/
  login : release.isFetched = true → ∀ c, Always Deed.recording (errand (some c)) [] fun _ ds =>
    commands ds = [] ∨ ∃ config cache ending rest,
      commands ds = client.login release c config cache :: rest ∧ Unread command rest ∧
        ⟨.run (client.login release c config cache) client.deadline, ending⟩ ∈ ds ∧
        ∀ e, client.verdict "repo-add" ending = .error e → rest = []

/-- Where a repository has to be registered, either that is not even tried, or it is the only
command, and there is something to use just when it succeeds. -/
theorem Registration.tried_or_not {opening closing : List Deed}
    {out : Except HelmError (Option PrivateRepository)} (hfetched : release.isFetched = true)
    (h : client.Registration release (some c) opening out closing) :
    commands closing = [] ∧
      (commands opening = [] ∧ (∃ e, out = .error e) ∨
        ∃ config cache ending, commands opening = [client.login release c config cache] ∧
          ⟨.run (client.login release c config cache) client.deadline, ending⟩ ∈ opening ∧
          out = (client.verdict "repo-add" ending).map fun _ =>
            some (registrationOf release config cache)) := by
  cases h with
  | needless _ hneedless => exact absurd (hneedless.symm.trans hfetched) Bool.false_ne_true
  | withoutFile => exact ⟨rfl, Or.inl ⟨rfl, _, rfl⟩⟩
  | withoutDirectory => exact ⟨rfl, Or.inl ⟨rfl, _, rfl⟩⟩
  | tried _ _ config cache ending =>
      refine ⟨rfl, Or.inr ⟨config, cache, ending, rfl, ?_, rfl⟩⟩
      exact List.mem_cons_of_mem _ (List.mem_cons_of_mem _ List.mem_cons_self)

/-- An errand is discreet when what it does with the repository is: it runs one command at most,
without anything to read. -/
theorem discreet_reading {read : String → Except HelmError α}
    (huse : ∀ registered ds, Always Deed.recording (use registered).run ds fun _ ds' =>
      ∃ is, commands ds' = commands ds ++ is ∧ Unread command is) :
    client.Discreet release command fun credentials =>
      (reading (client.withRepository release credentials use) read).run where
  alike c c' hname o ds o' ds' hrun hrun' hanswers := by
    obtain ⟨hseen, heq⟩ := (akin_reading hname).eq_of_answeredAlike hrun hrun' rfl hanswers
    rw [map_args_commands ds, map_args_commands ds', hseen]
    exact ⟨rfl, rfl, heq⟩
  twin c c' hname o ds hrun := (akin_reading hname).exists_runs hrun rfl
  needless hfetched c := by
    rw [withRepository_of_not_isFetched hfetched]
    rfl
  anonymous := by
    refine always_reading.2 ((huse none []).mono fun r ds' hds => ?_)
    obtain ⟨is, his, hunread⟩ := hds
    exact his ▸ hunread
  login hfetched c := by
    refine always_reading.2 ?_
    refine client.frames_withRepository release (some c) _ _ _ (fun opening e closing h => ?_)
      fun opening registered closing h => ?_
    · obtain ⟨hclosing, ⟨hopening, -⟩ | ⟨config, cache, ending, hopening, hmem, -⟩⟩ :=
        h.tried_or_not hfetched
      · exact Or.inl (by simp [hopening, hclosing])
      · refine Or.inr ⟨config, cache, ending, [], by simp [hopening, hclosing], Or.inl rfl, ?_,
          fun _ _ => rfl⟩
        simp [hmem]
    · obtain ⟨hclosing, ⟨-, e, hnone⟩ | ⟨config, cache, ending, hopening, hmem, hout⟩⟩ :=
        h.tried_or_not hfetched
      · exact absurd hnone (by simp)
      · have hkept := always_remembers (use registered).run ([] ++ opening)
        refine ((huse registered ([] ++ opening)).and hkept).mono fun r ds' hds => ?_
        obtain ⟨⟨is, his, hunread⟩, hstarts⟩ := hds
        refine Or.inr ⟨config, cache, ending, is, by simp [his, hopening, hclosing], hunread, ?_,
          fun e he => ?_⟩
        · exact List.mem_append_left _ (hstarts.subset hmem)
        · rw [he] at hout
          exact absurd hout (by simp [Except.map])

/-- The password of a repository goes to the program that registers it, and nowhere else: this is
so when a release is installed or upgraded, and when its chart is asked for its version. -/
theorem discreet (client : Client) :
    (∀ request : ReleaseRequest,
      client.Discreet request.release ["upgrade", "--install"] fun credentials =>
        (client.upgradeOrInstall { request with credentials }).run) ∧
      ∀ release : Release, client.Discreet release ["show", "chart"] fun credentials =>
        (client.chartVersion release credentials).run := by
  constructor
  · intro request
    change client.Discreet request.release _ fun credentials =>
      (reading (client.withRepository request.release credentials fun registered =>
        Errand.withFiles request.documents fun files =>
          client.run "upgrade" (Arguments.upgrade request registered files) none)
        (Output.record (Output.applied? request.release))).run
    refine discreet_reading fun registered ds => ?_
    refine frames_withFiles _ _ _ _ (fun opening e closing h => ?_) fun opening files closing h => ?_
    · obtain ⟨hopening, hclosing⟩ := h.commands_eq_nil
      exact ⟨[], by simp [hopening, hclosing], Or.inl rfl⟩
    · obtain ⟨hopening, hclosing⟩ := h.commands_eq_nil
      refine always_run.2 fun ending => ⟨[client.command (Arguments.upgrade request registered files)
        none], by simp [hopening, hclosing], Or.inr ⟨_, rfl, rfl, ?_⟩⟩
      exact List.IsPrefix.trans ⟨_, rfl⟩ (client.args_command _ none)
  · intro release
    refine discreet_reading fun registered ds => ?_
    refine always_run.2 fun ending => ⟨[client.command (Arguments.showChart release registered)
      none], by simp, Or.inr ⟨_, rfl, rfl, ?_⟩⟩
    exact List.IsPrefix.trans ⟨_, rfl⟩ (client.args_command _ none)

end Client

end ReleaseOperator.Helm
