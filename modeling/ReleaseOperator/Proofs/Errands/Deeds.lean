import ReleaseOperator.Helm.Client
import ReleaseOperator.Proofs.Behaviour

/-!
# What an errand did

An errand of the client is a program of calls to the machine. Its deeds are the calls that it made,
each with the answer that it got, in order. Whatever is put up for a use, a file, a directory or a
registered repository, the deeds are those that put it up, those of the use, and those that take it
down again, so the deeds of an errand are put together like the errand itself.
-/

namespace ReleaseOperator

/-- Whether the chart of a release is fetched from a repository at an address of its own. -/
def Release.isFetched (release : Release) : Bool :=
  release.chart.path.isEmpty && !release.repository.uri.isEmpty

namespace Helm

open Program

/-- A call to the machine, with the answer to it. -/
structure Deed where
  call : ShellCall
  answer : call.Answer

/-- The command of a call that runs the program. -/
def ShellCall.invocation? : ShellCall → Option Invocation
  | .run i _ => some i
  | _ => none

/-- The commands that were run, in order. -/
def commands (ds : List Deed) : List Invocation :=
  ds.filterMap fun d => d.call.invocation?

@[simp] theorem commands_append (ds ds' : List Deed) :
    commands (ds ++ ds') = commands ds ++ commands ds' :=
  List.filterMap_append

/-- Any answers, with all that was done so far kept in order. -/
def Deed.recording : Behaviour ShellCall ShellCall.Answer (List Deed) where
  may ds c a ds' := ds' = ds ++ [⟨c, a⟩]
  answers ds c := by
    cases c with
    | makeFile content => exact ⟨.ok "", _, rfl⟩
    | makeDirectory => exact ⟨.ok "", _, rfl⟩
    | discard path => exact ⟨(), _, rfl⟩
    | run i deadline => exact ⟨.late, _, rfl⟩
    | count c => exact ⟨(), _, rfl⟩

/-- The word under which the end of a run is counted. -/
def Ending.word : Ending → String
  | .broken _ => "error"
  | .late => "timeout"
  | .exited code _ _ => if code ≠ 0 then "error" else "success"

/-- What the end of a run comes to: an output, or a failure. -/
def Client.verdict (client : Client) (label : String) : Ending → Except HelmError String
  | .broken detail => .error (.io detail)
  | .late => .error (.timedOut label client.deadline)
  | .exited code stdout stderr =>
    if code ≠ 0 then .error (.commandFailed label (Text.trim (Text.Utf8.decodeMarked stderr)))
    else
      match Text.Utf8.decode? stdout with
      | some output => .ok output
      | none => .error (.parse "invalid utf-8 sequence")

/-- The command that the client runs for some arguments. -/
def Client.command (client : Client) (args : List String) (stdin : Option String) : Invocation :=
  ⟨Arguments.inContext client.context args, stdin⟩

theorem Client.args_command (client : Client) (args : List String) (stdin : Option String) :
    args <+: (client.command args stdin).args := by
  unfold command Arguments.inContext
  split
  · exact List.prefix_append _ _
  · exact List.prefix_rfl

/-- The deeds of a command that was run and counted under a label. -/
def Client.ran (client : Client) (label : String) (i : Invocation) (ending : Ending) : List Deed :=
  [⟨.run i client.deadline, ending⟩, ⟨.count (.helmOperation label ending.word), ()⟩]

@[simp] theorem Client.commands_ran (client : Client) (label : String) (i : Invocation)
    (ending : Ending) : commands (client.ran label i ending) = [i] := rfl

variable {α β : Type} {client : Client} {ds : List Deed}

/-! ### Errands as programs -/

theorem Client.run_run (client : Client) (label : String) (args : List String)
    (stdin : Option String) :
    (client.run label args stdin).run =
      .ask (.run (client.command args stdin) client.deadline) fun ending =>
        .ask (.count (.helmOperation label ending.word)) fun _ =>
          .done (client.verdict label ending) := by
  change Program.ask _ _ = _
  congr 1
  funext ending
  cases ending with
  | broken detail => rfl
  | late => rfl
  | exited code stdout stderr =>
      cases code with
      | succ n => rfl
      | zero =>
          change Program.ask _ _ = _
          congr 1
          funext u
          rw [verdict, if_neg fun h => h rfl]
          cases Text.Utf8.decode? stdout with
          | none => rfl
          | some output => rfl

namespace Errand

/-- What goes on with something that is put up for a use, if it is: it is taken down behind it. -/
def held (use : String → Errand α) : Except String String → Shell (Except HelmError α)
  | .ok path => (use path).run.bind fun r => .ask (.discard path) fun _ => .done r
  | .error detail => .done (.error (.io detail))

theorem run_withFile (content : String) (use : String → Errand α) :
    (withFile content use).run = .ask (.makeFile content) (held use) := by
  change Program.ask _ _ = _
  congr 1
  funext made
  cases made with
  | ok path => rfl
  | error detail => rfl

theorem run_withDirectory (use : String → Errand α) :
    (withDirectory use).run = .ask .makeDirectory (held use) := by
  change Program.ask _ _ = _
  congr 1
  funext made
  cases made with
  | ok path => rfl
  | error detail => rfl

/-- An errand behind another is not run when the other fails. -/
theorem run_bind (errand : Errand α) (next : α → Errand β) :
    (errand >>= next).run = errand.run.bind fun r =>
      match r with
      | .ok a => (next a).run
      | .error e => .done (.error e) := by
  change Program.bind _ _ = _
  congr 1
  funext r
  cases r with
  | ok a => rfl
  | error e => rfl

end Errand

/-! ### The deeds of single calls -/

theorem always_ask_recording {q : ShellCall} {next : q.Answer → Shell α}
    {post : α → List Deed → Prop} :
    Always Deed.recording (.ask q next) ds post ↔
      ∀ a, Always Deed.recording (next a) (ds ++ [⟨q, a⟩]) post :=
  ⟨fun h a => h a _ rfl, fun h a _ hds => hds ▸ h a⟩

theorem Client.always_run {label : String} {args : List String} {stdin : Option String}
    {post : Except HelmError String → List Deed → Prop} :
    Always Deed.recording (client.run label args stdin).run ds post ↔
      ∀ ending, post (client.verdict label ending)
        (ds ++ client.ran label (client.command args stdin) ending) := by
  rw [run_run, always_ask_recording]
  refine forall_congr' fun ending => ?_
  have hran : ds ++ client.ran label (client.command args stdin) ending =
      ds ++ [⟨.run (client.command args stdin) client.deadline, ending⟩] ++
        [⟨.count (.helmOperation label ending.word), ()⟩] :=
    (List.append_assoc ds [_] [_]).symm
  rw [always_ask_recording, hran]
  exact ⟨fun h => h (), fun h _ => h⟩

/-- What is read from an output is what is said of it. -/
theorem Client.always_reading {output : Errand String} {read : String → Except HelmError α}
    {post : Except HelmError α → List Deed → Prop} :
    Always Deed.recording (reading output read).run ds post ↔
      Always Deed.recording output.run ds fun r ds' => post (r.bind read) ds' := by
  change Always _ (output.run >>= fun r => Program.done (r.bind read)) ds post ↔ _
  rw [always_bind]
  exact Iff.rfl

/-- Nothing that was done is forgotten. -/
theorem always_remembers (p : Shell α) (ds : List Deed) :
    Always Deed.recording p ds fun _ ds' => ds <+: ds' := by
  induction p generalizing ds with
  | done a => exact List.prefix_rfl
  | ask q next ih =>
      refine always_ask_recording.2 fun a => (ih a _).mono fun _ _ h => ?_
      exact (List.prefix_append ds _).trans h

namespace Errand

variable {post : Except HelmError α → List Deed → Prop} {use : String → Errand α}

/-- What was put up is taken down behind its use, and where it could not be there is no use. -/
theorem always_held {deed : Except String String → Deed} :
    (∀ made, Always Deed.recording (held use made) (ds ++ [deed made]) post) ↔
      (∀ detail, post (.error (.io detail)) (ds ++ [deed (.error detail)])) ∧
        ∀ path, Always Deed.recording (use path).run (ds ++ [deed (.ok path)])
          fun r ds' => post r (ds' ++ [⟨.discard path, ()⟩]) := by
  have hused (path : String) : Always Deed.recording (held use (.ok path)) (ds ++ [deed (.ok path)])
        post ↔
      Always Deed.recording (use path).run (ds ++ [deed (.ok path)])
        fun r ds' => post r (ds' ++ [⟨.discard path, ()⟩]) := by
    rw [held, ← bind_eq, always_bind]
    exact always_congr fun r ds' => always_ask_recording.trans ⟨fun h => h (), fun h _ => h⟩
  constructor
  · exact fun h => ⟨fun detail => h (.error detail), fun path => (hused path).1 (h (.ok path))⟩
  · rintro ⟨hrefused, hmade⟩ (detail | path)
    · exact hrefused detail
    · exact (hused path).2 (hmade path)

theorem always_withFile {content : String} :
    Always Deed.recording (withFile content use).run ds post ↔
      (∀ detail, post (.error (.io detail)) (ds ++ [⟨.makeFile content, .error detail⟩])) ∧
        ∀ path, Always Deed.recording (use path).run (ds ++ [⟨.makeFile content, .ok path⟩])
          fun r ds' => post r (ds' ++ [⟨.discard path, ()⟩]) := by
  rw [run_withFile, always_ask_recording]
  exact always_held

theorem always_withDirectory :
    Always Deed.recording (withDirectory use).run ds post ↔
      (∀ detail, post (.error (.io detail)) (ds ++ [⟨.makeDirectory, .error detail⟩])) ∧
        ∀ path, Always Deed.recording (use path).run (ds ++ [⟨.makeDirectory, .ok path⟩])
          fun r ds' => post r (ds' ++ [⟨.discard path, ()⟩]) := by
  rw [run_withDirectory, always_ask_recording]
  exact always_held

end Errand

/-! ### What stands around a use -/

/-- The deeds before a use, what is handed over to it or why there is no use, and the deeds
after it. -/
abbrev Frame (α : Type) := List Deed → Except HelmError α → List Deed → Prop

/-- Around each use there stand the deeds of a frame. -/
def Frames (frame : Frame α) (around : (α → Errand β) → Errand β) : Prop :=
  ∀ (use : α → Errand β) (ds : List Deed) (post : Except HelmError β → List Deed → Prop),
    (∀ opening e closing, frame opening (.error e) closing →
      post (.error e) (ds ++ opening ++ closing)) →
    (∀ opening a closing, frame opening (.ok a) closing →
      Always Deed.recording (use a).run (ds ++ opening) fun r ds' => post r (ds' ++ closing)) →
    Always Deed.recording (around use).run ds post

/-- New files with some contents, handed over by their paths. -/
inductive Filing : List String → Frame (List String)
  | none : Filing [] [] (.ok []) []
  | refused (content : String) (rest : List String) (detail : String) :
      Filing (content :: rest) [⟨.makeFile content, .error detail⟩] (.error (.io detail)) []
  | made (content path : String) {rest : List String} {opening closing : List Deed}
      {paths : Except HelmError (List String)} (h : Filing rest opening paths closing) :
      Filing (content :: rest) (⟨.makeFile content, .ok path⟩ :: opening)
        (paths.map (path :: ·)) (closing ++ [⟨.discard path, ()⟩])

theorem Filing.commands_eq_nil {contents : List String} {paths : Except HelmError (List String)}
    {opening closing : List Deed} (h : Filing contents opening paths closing) :
    commands opening = [] ∧ commands closing = [] := by
  induction h with
  | none => exact ⟨rfl, rfl⟩
  | refused => exact ⟨rfl, rfl⟩
  | made content path _ ih =>
      refine ⟨ih.1, ?_⟩
      rw [commands_append, ih.2]
      rfl

theorem frames_withFiles (contents : List String) :
    Frames (Filing contents) (Errand.withFiles contents : (List String → Errand β) → Errand β) := by
  induction contents with
  | nil =>
      intro use ds post _ hok
      have h := hok _ _ _ .none
      rw [List.append_nil] at h
      exact h.mono fun r ds' hpost => List.append_nil ds' ▸ hpost
  | cons content rest ih =>
      intro use ds post herror hok
      refine Errand.always_withFile.2 ⟨fun detail => ?_, fun path => ?_⟩
      · have hpost := herror _ _ _ (.refused content rest detail)
        rwa [List.append_nil] at hpost
      · refine ih _ _ _ (fun opening e closing h => ?_) fun opening paths closing h => ?_
        · have hpost := herror _ _ _ (.made content path h)
          simpa only [List.append_assoc, List.cons_append, List.nil_append] using hpost
        · have huse := hok _ _ _ (.made content path h)
          simpa only [List.append_assoc, List.cons_append, List.nil_append] using huse

/-- The label and the files under which the repository of a release is registered. -/
def registrationOf (release : Release) (config cache : String) : PrivateRepository :=
  ⟨PrivateRepository.labelOf release.repository, config, cache⟩

/-- The command that registers the repository of a release. -/
def Client.login (client : Client) (release : Release) (c : Credentials) (config cache : String) :
    Invocation :=
  client.command (Arguments.repoAdd (registrationOf release config cache) release.repository.uri
    c.username) (some c.password)

/-- The repository of a release registered where it has to be. -/
inductive Client.Registration (client : Client) (release : Release) :
    Option Credentials → Frame (Option PrivateRepository)
  | anonymous : Registration client release none [] (.ok none) []
  | needless (c : Credentials) (h : release.isFetched = false) :
      Registration client release (some c) [] (.ok none) []
  | withoutFile (c : Credentials) (h : release.isFetched = true) (detail : String) :
      Registration client release (some c) [⟨.makeFile "", .error detail⟩]
        (.error (.io detail)) []
  | withoutDirectory (c : Credentials) (h : release.isFetched = true) (config detail : String) :
      Registration client release (some c)
        [⟨.makeFile "", .ok config⟩, ⟨.makeDirectory, .error detail⟩] (.error (.io detail))
        [⟨.discard config, ()⟩]
  | tried (c : Credentials) (h : release.isFetched = true) (config cache : String)
      (ending : Ending) :
      Registration client release (some c)
        (⟨.makeFile "", .ok config⟩ :: ⟨.makeDirectory, .ok cache⟩ ::
          client.ran "repo-add" (client.login release c config cache) ending)
        ((client.verdict "repo-add" ending).map fun _ => some (registrationOf release config cache))
        [⟨.discard cache, ()⟩, ⟨.discard config, ()⟩]

namespace Client

variable {release : Release} {c : Credentials} {use : Option PrivateRepository → Errand β}

theorem withRepository_of_not_isFetched (h : release.isFetched = false) :
    client.withRepository release (some c) use = use none := by
  refine if_pos ?_
  rw [Release.isFetched, Bool.and_eq_false_iff, Bool.not_eq_false'] at h
  rw [Bool.or_eq_true, Bool.not_eq_true']
  exact h

theorem withRepository_of_isFetched (h : release.isFetched = true) :
    client.withRepository release (some c) use =
      Errand.withFile "" fun config => Errand.withDirectory fun cache =>
        client.run "repo-add" (Arguments.repoAdd (registrationOf release config cache)
          release.repository.uri c.username) (some c.password) >>= fun _ =>
            use (some (registrationOf release config cache)) := by
  have hneeded : ¬(!release.chart.path.isEmpty || release.repository.uri.isEmpty) = true := by
    rw [Release.isFetched, Bool.and_eq_true, Bool.not_eq_true'] at h
    rw [h.1, h.2]
    exact Bool.false_ne_true
  refine (if_neg hneeded).trans (congrArg _ (funext fun config => congrArg _ (funext fun cache => ?_)))
  unfold Functor.discard
  rw [LawfulFunctor.map_const, Function.comp_apply, bind_map_left]
  rfl

theorem frames_withRepository (client : Client) (release : Release)
    (credentials : Option Credentials) :
    Frames (client.Registration release credentials)
      (client.withRepository release credentials :
        (Option PrivateRepository → Errand β) → Errand β) := by
  intro use ds post herror hok
  have hbare (h : client.Registration release credentials [] (.ok none) []) :
      Always Deed.recording (use none).run ds post := by
    have huse := hok _ _ _ h
    rw [List.append_nil] at huse
    exact huse.mono fun r ds' hpost => List.append_nil ds' ▸ hpost
  cases credentials with
  | none => exact hbare .anonymous
  | some c =>
      cases h : release.isFetched with
      | false =>
          rw [withRepository_of_not_isFetched h]
          exact hbare (.needless c h)
      | true =>
          rw [withRepository_of_isFetched h]
          refine Errand.always_withFile.2 ⟨fun detail => ?_, fun config => ?_⟩
          · have hpost := herror _ _ _ (.withoutFile c h detail)
            rwa [List.append_nil] at hpost
          refine Errand.always_withDirectory.2 ⟨fun detail => ?_, fun cache => ?_⟩
          · have hpost := herror _ _ _ (.withoutDirectory c h config detail)
            simpa only [List.append_assoc, List.cons_append, List.nil_append] using hpost
          rw [Errand.run_bind, ← bind_eq, always_bind, always_run]
          intro ending
          have htried : client.Registration release (some c) _ _ _ :=
            .tried c h config cache ending
          cases hverdict : client.verdict "repo-add" ending with
          | error e =>
              rw [hverdict] at htried
              have hpost := herror _ _ _ htried
              change post (.error e) _
              simpa only [login, List.append_assoc, List.cons_append, List.nil_append] using hpost
          | ok output =>
              rw [hverdict] at htried
              have huse := hok _ _ _ htried
              simpa only [login, List.append_assoc, List.cons_append, List.nil_append] using huse

end Client

end Helm

end ReleaseOperator
