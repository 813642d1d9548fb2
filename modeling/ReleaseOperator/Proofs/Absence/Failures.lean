import ReleaseOperator.Proofs.Absence.Driven
import ReleaseOperator.Proofs.Edits.Script
import ReleaseOperator.Proofs.Generations

/-!
# Failures that are taken for absence

A release is taken to be absent when a failure of the program says that something was not
found. Helm says so of a release, but other failures use these words too: of a plugin, of a
context, of a kind of object. While no failure uses them, every failure is told as one, and a
deletion gets no further than to its work, or to the wait behind it if it was there already.
-/

namespace ReleaseOperator

open InMemory Relation Program Helm

namespace Helm

/-- Every run of the program fails, with a text of some sort. -/
def Failing {T : Type} (client : Client) (b : Behaviour ShellCall ShellCall.Answer T)
    (tells : String → Prop) : Prop :=
  ∀ t args, client.FailsOn b t args tells

namespace Client

variable {T : Type} {b : Behaviour ShellCall ShellCall.Answer T} {t : T} {client : Client}
  {name ns text : String} {dryRun : Bool}

theorem refused_releaseInfo
    (hfails : client.FailsOn b t (Arguments.getJson "metadata" name ns)
      fun text => saysAbsent text = false) :
    Always b (client.releaseInfo name ns).run t fun a _ => Refused a := by
  refine always_releaseInfo_of_fails hfails fun text _ htext => ?_
  rw [htext]
  exact refused_commandFailed _ _

theorem absent_releaseInfo
    (hfails : client.FailsOn b t (Arguments.getJson "metadata" name ns)
      fun text => saysAbsent text = true) :
    Always b (client.releaseInfo name ns).run t fun a _ => a = .ok none := by
  refine always_releaseInfo_of_fails hfails fun text _ htext => ?_
  rw [htext]
  rfl

/-- The answer to what is known of a release, by the text of the failure. -/
theorem releaseInfo_of_fails (hfails : client.FailsOn b t (Arguments.getJson "metadata" name ns)
    fun told => told = text) :
    (Always b (client.releaseInfo name ns).run t (fun a _ => TellsFailure name ns a) ↔
        saysAbsent text = false) ∧
      (Always b (client.releaseInfo name ns).run t (fun a _ => TellsAbsence name ns a) ↔
        saysAbsent text = true) := by
  cases habsent : saysAbsent text with
  | false =>
      have hrefused := refused_releaseInfo (hfails.imp fun _ htold => htold ▸ habsent)
      refine ⟨iff_of_true (hrefused.mono fun _ _ => tellsFailure_of_refused) rfl,
        iff_of_false (fun h => ?_) Bool.false_ne_true⟩
      obtain ⟨a, _, _, ⟨e, rfl, _⟩, hnone⟩ := (hrefused.and h).exists
      cases hnone.1
  | true =>
      have hnone := absent_releaseInfo (hfails.imp fun _ htold => htold ▸ habsent)
      refine ⟨iff_of_false (fun h => ?_) (by decide), iff_of_true (hnone.mono ?_) rfl⟩
      · obtain ⟨a, _, _, rfl, ⟨e, he, _⟩, _⟩ := (hnone.and h).exists
        cases he
      · rintro a _ rfl
        exact tellsAbsence_none

/-- The answer to the removal of a release, by the text of the failure. -/
theorem uninstall_of_fails (hfails : client.FailsOn b t (Arguments.uninstall name ns dryRun)
    fun told => told = text) :
    (Always b (client.uninstall name ns dryRun).run t (fun a _ => Refused a) ↔
        saysAbsent text = false) ∧
      (Always b (client.uninstall name ns dryRun).run t (fun a _ => a = .ok ()) ↔
        saysAbsent text = true) := by
  have hanswer : Always b (client.uninstall name ns dryRun).run t fun a _ =>
      a = if saysAbsent text then .ok ()
        else .error (.commandFailed "uninstall" (Text.trim text)) := by
    refine always_uninstall_of_fails hfails ?_
    rintro _ _ rfl
    rfl
  cases habsent : saysAbsent text with
  | false =>
      rw [habsent] at hanswer
      refine ⟨iff_of_true (hanswer.mono ?_) rfl, iff_of_false (fun h => ?_) Bool.false_ne_true⟩
      · rintro a _ rfl
        exact refused_commandFailed _ _
      · obtain ⟨a, _, _, rfl, hok⟩ := (hanswer.and h).exists
        cases hok
  | true =>
      rw [habsent] at hanswer
      refine ⟨iff_of_false (fun h => ?_) (by decide), iff_of_true hanswer rfl⟩
      obtain ⟨a, _, _, rfl, ⟨e, he, _⟩⟩ := (hanswer.and h).exists
      cases he

end Client

end Helm

namespace Contest

/-- A deletion has got no further than to its work, or it is at the wait where it was before. -/
def Stuck (before st : Stage) : Prop :=
  st.rank ≤ 5 ∨ st = .awaitWork ∧ before = .awaitWork

/-- So has every deletion that is remembered of an object. -/
def Short (id : ObjectId) (m₀ m : Memory) : Prop :=
  ∀ g e, m.deletion.get? id g = some e →
    Stuck (((m₀.deletion.get? id g).map Entry.stage).getD .start) e.stage

/-- A deletion of a held resource is under way at a stage. -/
def Under {T : Type} (kind : Kind) (ns name : String) (id : ObjectId) (before st : Stage)
    (j : Job) (s : Contest × T) : Prop :=
  Held kind ns name id s.1 ∧ j.entry.stage = st ∧ Stuck before st

theorem stuck_self {st : Stage} (h : st.rank ≤ 6) : Stuck st st := by
  cases st <;> first
    | exact Or.inl (by decide)
    | exact Or.inr ⟨rfl, rfl⟩
    | exact absurd h (by decide)

theorem Stuck.refl {before st : Stage} (h : Stuck before st) : Stuck st st :=
  h.imp_right fun h => ⟨h.1, h.1⟩

theorem short_self {id : ObjectId} {m : Memory}
    (h : ∀ g e, m.deletion.get? id g = some e → e.stage.rank ≤ 6) : Short id m m := by
  intro g e he
  rw [he]
  exact stuck_self (h g e he)

theorem Stuck.trans {before st st' : Stage} (h : Stuck before st) (h' : Stuck st st') :
    Stuck before st' := by
  rcases h' with hrank | ⟨rfl, rfl⟩
  · exact Or.inl hrank
  · exact h

/-- An entry that is asked for is a fresh one or one that is remembered. -/
theorem Short.ensure {id : ObjectId} {m₀ m : Memory} (h : Short id m₀ m) (g : Int) :
    Stuck (((m₀.deletion.get? id g).map Entry.stage).getD .start)
      (m.deletion.ensure id g .start).1.stage := by
  rw [Tracker.ensure_fst]
  cases he : m.deletion.get? id g with
  | none => exact Or.inl (Nat.zero_le 5)
  | some e => exact h g e he

theorem Short.record {id : ObjectId} {m₀ m : Memory} {g : Int} {e : Entry} (h : Short id m₀ m)
    (he : Stuck (((m₀.deletion.get? id g).map Entry.stage).getD .start) e.stage) :
    Short id m₀ { m with deletion := (m.deletion.ensure id g .start).2.record id g e } := by
  intro g' e' he'
  by_cases hg : g' = g
  · subst hg
    rw [Tracker.get?_record_self he']
    exact he
  · rw [Tracker.get?_record_of_ne hg] at he'
    exact h g' e' (Tracker.get?_of_get?_ensure hg he')

variable {T : Type} {client : Client} {b : Behaviour ShellCall ShellCall.Answer T} {kind : Kind}
  {ns name : String} {id : ObjectId} {setup : Setup} {j : Job} {st : Contest × T}

section Driven

variable (hfailing : Failing client b fun text => saysAbsent text = false)
  (hwet : setup.dryRun = false)

include hfailing hwet

/-- The work of a deletion cannot be passed while Helm fails. -/
theorem requeue_uninstall : AlwaysFrom (driven kind ns name client b) (Work.uninstall setup) j st
    fun o _ _ => o.requeue = true := by
  rw [Work.always_uninstall, hwet, if_neg Bool.false_ne_true]
  rintro a st' ⟨_, hrun⟩
  obtain ⟨e, rfl, _⟩ := always_iff_runs.1 (Client.refused_releaseInfo (hfailing _ _)) _ _ hrun
  exact Pass.always_shortDelayWith fun _ _ _ => rfl

/-- Nor can the wait behind it. -/
theorem requeue_isGone : AlwaysFrom (driven kind ns name client b) (Work.isGone setup) j st
    fun no _ _ => no.2.requeue = true := by
  unfold Work.isGone
  rw [hwet, if_neg Bool.false_ne_true, alwaysFrom_bind, alwaysFrom_get, alwaysFrom_bind,
    Work.always_ask, Pass.always_helm]
  rintro a st' ⟨_, hrun⟩
  obtain ⟨e, rfl, _⟩ := always_iff_runs.1 (Client.refused_releaseInfo (hfailing _ _)) _ _ hrun
  dsimp only
  rw [Work.always_ask, Pass.unanswered, always_bind]
  exact Pass.always_shortDelayWith fun _ _ _ => rfl

omit hfailing hwet in
/-- Work that writes no resource as a whole leaves the resource held, and the stage. -/
theorem Held.always_step {α : Type} {work : Work α} (h : Held kind ns name id st.1)
    (hsparing : Work.Sparing work) (hstill : Work.LeavesStage (driven kind ns name client b) work) :
    AlwaysFrom (driven kind ns name client b) work j st fun _ j' st' =>
      Held kind ns name id st'.1 ∧ j'.entry.stage = j.entry.stage :=
  (h.alwaysFrom hsparing).and (hstill j st)

/-- From the work or before it, or from the wait, a deletion gets no further and asks to come
back. -/
theorem Held.perform (h : Held kind ns name id st.1) (hstage : Stuck j.entry.stage j.entry.stage) :
    AlwaysFrom (driven kind ns name client b) (Work.perform setup .delete) j st fun o j' st' =>
      o.requeue = true ∧ Held kind ns name id st'.1 ∧ Stuck j.entry.stage j'.entry.stage := by
  have hstill := Worker.still_forAction (b := driven kind ns name client b) setup .delete
  have henter : ∀ {x : Stage} {j' : Job} {st' : Contest × T}, Held kind ns name id st'.1 →
      x.next.rank ≤ 5 → AlwaysFrom (driven kind ns name client b) (Work.enter .delete x.next) j' st'
        fun _ j'' st'' => Held kind ns name id st''.1 ∧ j''.entry.stage = x.next ∧
          Stuck j.entry.stage x.next := by
    intro x j' st' h' hrank
    rw [Work.always_enter]
    exact fun _ _ hmay => ⟨h'.of_may rfl hmay, rfl, Or.inl hrank⟩
  rw [Work.always_perform]
  have hat : Under kind ns name id j.entry.stage j.entry.stage j st := ⟨h, rfl, hstage⟩
  refine Worker.always_run_of_steps (Worker.action_forAction setup .delete) ?start ?isNeeded
    ?isDone ?step ?finish hat
  case start => exact fun j' st' h' => henter h'.1 (by decide)
  case isNeeded => exact fun j' st' h' => henter h'.1 (by decide)
  case isDone =>
    rintro j' st' ⟨h', hj', hshort⟩
    refine ((requeue_isGone hfailing hwet).and
      (h'.always_step (Work.sparing_isGone setup) hstill.isDone)).mono ?_
    rintro no j'' st'' ⟨hrequeue, h'', hsame⟩
    rw [if_pos (by rw [hrequeue, Bool.or_true]), Worker.Onward, if_pos hrequeue]
    exact ⟨hrequeue, h'', by rwa [hsame, hj']⟩
  case step =>
    rintro x work hmem j' st' ⟨h', hj', hshort⟩
    have hrank : x.rank ≤ 5 := by
      rcases hshort with hrank | ⟨rfl, _⟩
      · exact hrank
      · simp [Worker.steps] at hmem
    have hkept := h'.always_step (j := j') (Work.sparing_step hmem hrank) (hstill.steps _ _ hmem)
    have hstops : x = .work → AlwaysFrom (driven kind ns name client b) work j' st'
        fun o _ _ => o.requeue = true := by
      rintro rfl
      have hwork : work = (Worker.forAction setup .delete).work := by
        simpa [Worker.steps] using hmem
      rw [hwork]
      exact requeue_uninstall hfailing hwet
    by_cases hwork : x = .work
    · refine ((hstops hwork).and hkept).mono ?_
      rintro o j'' st'' ⟨hrequeue, h'', hsame⟩
      rw [Worker.Onward, if_pos hrequeue]
      exact ⟨hrequeue, h'', by rwa [hsame, hj']⟩
    · refine hkept.mono ?_
      rintro o j'' st'' ⟨h'', hsame⟩
      unfold Worker.Onward
      split
      · rename_i hrequeue
        exact ⟨hrequeue, h'', by rwa [hsame, hj']⟩
      · refine henter h'' ?_
        cases x <;> first | decide | exact absurd rfl hwork | exact absurd hrank (by decide)
  case finish =>
    rintro j' st' ⟨_, _, hrank | ⟨hfalse, _⟩⟩
    · exact absurd hrank (by decide)
    · cases hfalse

/-- A pass over a resource that is to be deleted leaves it held, and its deletion short of the
end of its wait. -/
theorem Held.reconcile {m₀ m : Memory} (h : Held kind ns name id st.1) (hshort : Short id m₀ m) :
    AlwaysFrom (driven kind ns name client b) (reconcile setup kind ns name) m st
      fun _ m' st' => Held kind ns name id st'.1 ∧ Short id m₀ m' := by
  rw [always_reconcile]
  rintro a st' hmay
  have h' : Held kind ns name id st'.1 := h.of_may rfl hmay
  obtain ⟨⟨store, hans, _⟩, _⟩ := hmay
  rcases a with e | found
  · refine (h'.always (Pass.quiet_shortDelayWith _).sparing).mono ?_
    exact fun _ _ h'' => ⟨h'', hshort⟩
  · obtain ⟨r, hr, hdeleting, hheld, hid⟩ := h.stored
    obtain rfl : found = some r := (stored_of_answered hans).symm.trans hr
    dsimp only
    split
    · exact ⟨h', hshort⟩
    · rw [Reconcile.always_found, if_pos hdeleting, Reconcile.always_clear, if_pos hheld, hid]
      dsimp only
      rw [Work.always_clear]
      have hentry := hshort.ensure r.generation
      refine (h'.perform hfailing hwet (j := .start setup r _) hentry.refl).mono ?_
      rintro o j st'' ⟨hrequeue, h'', hstage⟩
      rw [if_pos hrequeue]
      exact ⟨h'', hshort.record (hentry.trans hstage)⟩

end Driven

/-! ### Histories -/

/-- Passes on which Helm is reached through the client, with users who edit the resource during
and between them, and restarts. -/
inductive Ailing (client : Client) (b : Behaviour ShellCall ShellCall.Answer T) (setup : Setup)
    (kind : Kind) (ns name : String) (m : Memory) (st : Contest × T) : Memory → Contest × T → Prop
  | start : Ailing client b setup kind ns name m st m st
  | pass {m' m'' : Memory} {st' st'' : Contest × T} {result : Except PassError Outcome}
      (before : Ailing client b setup kind ns name m st m' st')
      (run : Runs (driven kind ns name client b) ((ReleaseOperator.reconcile setup kind ns name).run
        m') st' (result, m'') st'') : Ailing client b setup kind ns name m st m'' st''
  | edit {m' : Memory} {s s' : Contest} {t : T}
      (before : Ailing client b setup kind ns name m st m' (s, t)) (edit : Edit ns name s s') :
      Ailing client b setup kind ns name m st m' (s', t)
  | restart {m' : Memory} {st' : Contest × T}
      (before : Ailing client b setup kind ns name m st m' st') :
      Ailing client b setup kind ns name m st .empty st'

/-- By induction on the passes: the resource is held, and its deletion gets no further. -/
theorem Ailing.held {m m' : Memory} {st' : Contest × T}
    (hfailing : Failing client b fun text => saysAbsent text = false) (hwet : setup.dryRun = false)
    (h : Ailing client b setup kind ns name m st m' st') (hheld : Held kind ns name id st.1)
    (hshort : Short id m m) : Held kind ns name id st'.1 ∧ Short id m m' := by
  induction h with
  | start => exact ⟨hheld, hshort⟩
  | pass _ run ih =>
      exact always_iff_runs.1 (ih.1.reconcile hfailing hwet ih.2) _ _ run
  | edit _ hedit ih => exact ⟨ih.1.edit hedit, ih.2⟩
  | restart _ ih => exact ⟨ih.1, fun _ _ he => by cases he⟩

end Contest

/-- A failure of the program is told as a failure exactly when its text does not say that
something was not found; it is told as the absence of the release otherwise, whatever was not
found. While no failure says so, a resource that is to be deleted keeps its finalizer and its
deletion gets no further than to its work, or stays at the wait where it was, through passes,
edits and restarts. -/
theorem failures_taken_for_absence_iff {T : Type} (client : Client)
    (b : Behaviour ShellCall ShellCall.Answer T) :
    (∀ t name ns text, (client.FailsOn b t (Arguments.getJson "metadata" name ns)
        fun told => told = text) →
      (Always b (client.releaseInfo name ns).run t (fun a _ => TellsFailure name ns a) ↔
          saysAbsent text = false) ∧
        (Always b (client.releaseInfo name ns).run t (fun a _ => TellsAbsence name ns a) ↔
          saysAbsent text = true)) ∧
    (∀ t name ns dryRun text, (client.FailsOn b t (Arguments.uninstall name ns dryRun)
        fun told => told = text) →
      (Always b (client.uninstall name ns dryRun).run t (fun a _ => Refused a) ↔
          saysAbsent text = false) ∧
        (Always b (client.uninstall name ns dryRun).run t (fun a _ => a = .ok ()) ↔
          saysAbsent text = true)) ∧
    ((Failing client b fun told => saysAbsent told = false) → ∀ setup : Setup,
      setup.dryRun = false → ∀ kind ns name id (m : Memory) (st : Contest × T),
        Contest.Held kind ns name id st.1 →
        (∀ g e, m.deletion.get? id g = some e → e.stage.rank ≤ 6) → ∀ m' st',
          Contest.Ailing client b setup kind ns name m st m' st' →
            Contest.Held kind ns name id st'.1 ∧ Contest.Short id m m') := by
  refine ⟨fun t name ns text => Client.releaseInfo_of_fails,
    fun t name ns dryRun text => Client.uninstall_of_fails, ?_⟩
  intro hfailing setup hwet kind ns name id m st hheld hstage m' st' hailing
  exact hailing.held hfailing hwet hheld (Contest.short_self hstage)

/-! ### A plugin that is missing -/

/-- A machine on which every run of the program fails with a text. -/
def Helm.breaking (text : String) : (c : ShellCall) → StateM Unit c.Answer
  | .makeFile _ => pure (.ok "/tmp/file")
  | .makeDirectory => pure (.ok "/tmp/directory")
  | .discard _ => pure ()
  | .run _ _ => pure (.exited 1 [] (text.toList.map fun c => c.toNat.toUInt8))
  | .count _ => pure ()

/-- It does nothing else. -/
def Helm.broken (text : String) : Behaviour ShellCall ShellCall.Answer Unit where
  may t c a t' := (a, t') = breaking text c t
  answers _ _ := ⟨_, _, rfl⟩

theorem Helm.failing_broken {text : String} (h : Text.Utf8.decodeMarked
    (text.toList.map fun c => c.toNat.toUInt8) = text) (client : Client) :
    Failing client (broken text) (· = text) := by
  rintro t args ending t' hmay
  exact ⟨1, [], _, congrArg Prod.fst hmay, by decide, h⟩

namespace Contest

/-- The store keeps to its rules, Helm is reached through the client, and the rest goes well. -/
def through (kind : Kind) (client : Client) (shell : (c : ShellCall) → StateM Unit c.Answer) :
    (c : Call) → StateM (Contest × Unit) c.Answer
  | .helm c => fun st =>
    let (a, t) := (client.answer c).run shell st.2
    (a, (⟨st.1.store, .asked (.helm c) a :: st.1.story⟩, t))
  | c => fun st =>
    let (a, store) := wellAnswered kind none st.1.store c
    (a, (⟨store, .asked c a :: st.1.story⟩, st.2))

theorem may_through (kind : Kind) (ns name : String) (client : Client) (text : String)
    (st : Contest × Unit) (c : Call) :
    (driven kind ns name client (broken text)).may st c
      (through kind client (breaking text) c st).1
      (through kind client (breaking text) c st).2 := by
  cases c with
  | helm c => exact ⟨⟨st.1.store, rfl, .refl⟩, runs_run (fun _ _ => rfl) _ _⟩
  | _ => exact ⟨⟨_, answered_wellAnswered kind none st.1.store _, .refl⟩, rfl⟩

/-- The module `web`, which is to be deleted. -/
def leaving : Resource :=
  { trialModule with metadata := { trialModule.metadata with deletionTime := some ⟨0⟩ } }

/-- A pass over it, computed, on which every run of the program fails with a text. -/
def brokenPass (text : String) : (Except PassError Outcome × Memory) × (Contest × Unit) :=
  ((ReleaseOperator.reconcile trialSetup .module "default" "web").run .empty).run
    (through .module (.usual none) (breaking text)) (⟨trialStore leaving, []⟩, ())

theorem runs_brokenPass (text : String) :
    Runs (driven .module "default" "web" (.usual none) (broken text))
      ((ReleaseOperator.reconcile trialSetup .module "default" "web").run .empty)
      (⟨trialStore leaving, []⟩, ()) ((brokenPass text).1.1, (brokenPass text).1.2)
      (brokenPass text).2 := by
  rw [Prod.eta]
  unfold brokenPass
  exact runs_run (may_through .module "default" "web" (.usual none) text) _ _

theorem ailing_brokenPass (text : String) :
    Ailing (.usual none) (broken text) trialSetup .module "default" "web" .empty
      (⟨trialStore leaving, []⟩, ()) (brokenPass text).1.2 (brokenPass text).2 :=
  .pass .start (runs_brokenPass text)

theorem held_leaving :
    Held .module "default" "web" (.ofResource leaving) ⟨trialStore leaving, []⟩ :=
  ⟨keyed_trialStore rfl rfl, leaving, rfl, rfl, by decide, rfl⟩

end Contest

/-- What a cluster that cannot be reached for want of a plugin makes Helm say. -/
def pluginText : String :=
  "Error: getting credentials: exec: executable gke-gcloud-auth-plugin not found"

/-- What Helm says when the removal of a release takes too long. -/
def timeoutText : String := "Error: timed out waiting for the condition"

/-- The plugin is not found, so the release is taken to be absent, and the module loses its
finalizer and is gone, with its release left behind. -/
theorem failures_taken_for_absence_plugin :
    Failing (.usual none) (broken pluginText) (· = pluginText) ∧
      saysReleaseAbsent pluginText = false ∧
      Always (broken pluginText) ((Client.usual none).releaseInfo "web" "default").run ()
        (fun a _ => TellsAbsence "web" "default" a) ∧
      Always (broken pluginText) ((Client.usual none).uninstall "web" "default" false).run ()
        (fun a _ => a = .ok ()) ∧
      Contest.Held .module "default" "web" (.ofResource Contest.leaving)
        ⟨trialStore Contest.leaving, []⟩ ∧
      Contest.Ailing (.usual none) (broken pluginText) trialSetup .module "default" "web" .empty
        (⟨trialStore Contest.leaving, []⟩, ()) (Contest.brokenPass pluginText).1.2
        (Contest.brokenPass pluginText).2 ∧
      (Contest.brokenPass pluginText).2.1.store.get? "default" "web" = none := by
  have hfailing : Failing (.usual none) (broken pluginText) (· = pluginText) :=
    failing_broken (by decide +kernel) _
  have habsent : saysAbsent pluginText = true := by decide +kernel
  refine ⟨hfailing, by decide +kernel, (Client.releaseInfo_of_fails (hfailing _ _)).2.2 habsent,
    (Client.uninstall_of_fails (hfailing _ _)).2.2 habsent, Contest.held_leaving,
    Contest.ailing_brokenPass _, ?_⟩
  have hgone : ((Contest.brokenPass pluginText).2.1.store.get? "default" "web").isNone = true := by
    decide +kernel
  exact Option.isNone_iff_eq_none.1 hgone

/-- A removal that takes too long is a failure, and the module keeps its finalizer. -/
theorem failures_taken_for_absence_timeout :
    Failing (.usual none) (broken timeoutText) (· = timeoutText) ∧
      saysAbsent timeoutText = false ∧
      Always (broken timeoutText) ((Client.usual none).releaseInfo "web" "default").run ()
        (fun a _ => TellsFailure "web" "default" a) ∧
      Always (broken timeoutText) ((Client.usual none).uninstall "web" "default" false).run ()
        (fun a _ => Refused a) ∧
      Contest.Held .module "default" "web" (.ofResource Contest.leaving)
        (Contest.brokenPass timeoutText).2.1 ∧
      Contest.Short (.ofResource Contest.leaving) .empty (Contest.brokenPass timeoutText).1.2 := by
  have hfailing : Failing (.usual none) (broken timeoutText) (· = timeoutText) :=
    failing_broken (by decide +kernel) _
  have habsent : saysAbsent timeoutText = false := by decide +kernel
  obtain ⟨hinfo, hremoval, hstuck⟩ :=
    failures_taken_for_absence_iff (.usual none) (broken timeoutText)
  obtain ⟨hheld, hshort⟩ := hstuck (fun t args => (hfailing t args).imp fun _ h => h ▸ habsent)
    trialSetup rfl .module "default" "web" _ .empty (⟨trialStore Contest.leaving, []⟩, ())
    Contest.held_leaving (fun _ _ he => by cases he) _ _ (Contest.ailing_brokenPass timeoutText)
  exact ⟨hfailing, habsent, (hinfo _ _ _ _ (hfailing _ _)).1.2 habsent,
    (hremoval _ _ _ _ _ (hfailing _ _)).1.2 habsent, hheld, hshort⟩

end ReleaseOperator
