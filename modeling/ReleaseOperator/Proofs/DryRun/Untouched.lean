import ReleaseOperator.Proofs.Generations
import ReleaseOperator.Proofs.Pinning.Course

/-!
# Dry runs leave releases alone

Whether a run is a dry one is tested where a release is applied, where one is removed and
where the end of the work is awaited. Here it is shown that these tests suffice. Anything may
be answered, so that the resources, their edits, the values and all failures are covered at
once: whatever a dry pass asks is modest, and the wait for the work, which no question can
prolong, is left in the moment it is entered.
-/

namespace ReleaseOperator

open Program

variable {setup : Setup} {action : Action} {α : Type} {j : Job} {e : Entry} {es : Story}
  {m : Memory}

/-! ### What dry work asks -/

namespace Work

/-- In a dry run the values are looked up, and nothing is done with them. -/
theorem modest_applyRelease (hdry : setup.dryRun = true) (failure : Reason) :
    Modest (applyRelease setup failure) := by
  refine (asksOnly_about fun j => (Pass.quiet_jobValues setup j).modest).bind ?_
  rintro (e | documents)
  · exact (oblivious_fail _ _).modest
  · dsimp only
    rw [if_pos hdry]
    exact (asksOnly_modify _).bind fun _ => asksOnly_pure _

theorem modest_install (hdry : setup.dryRun = true) : Modest (install setup) := by
  unfold install
  rw [if_pos hdry]
  exact modest_applyRelease hdry _

theorem modest_uninstall (hdry : setup.dryRun = true) : Modest (uninstall setup) := by
  unfold uninstall
  rw [if_pos hdry]
  exact asksOnly_pure _

/-- Without the work every step is modest in any case. -/
theorem modest_dryStep (hdry : setup.dryRun = true) {st : Stage} {work : Work Outcome}
    (hmem : (st, work) ∈ (Worker.forAction setup action).steps) : Modest work := by
  by_cases hst : st = .work
  · subst hst
    have hwork : work = (Worker.forAction setup action).work := by
      simpa [Worker.steps] using hmem
    rw [hwork]
    cases action with
    | install => exact modest_install hdry
    | update => exact modest_applyRelease hdry _
    | upgrade => exact modest_applyRelease hdry _
    | delete => exact modest_uninstall hdry
  · exact (oblivious_step hmem hst).modest

/-- In a dry run the work is done as soon as it is waited for. -/
theorem isDone_of_dryRun (hdry : setup.dryRun = true) (action : Action) :
    (Worker.forAction setup action).isDone = pure (true, .done) := by
  have hready : isReady setup = pure (true, .done) := by
    funext j
    change (Job.isReady setup j >>= fun a => pure (a, j)) = pure ((true, .done), j)
    rw [Job.isReady, if_pos hdry]
    rfl
  have hgone : isGone setup = pure (true, .done) := by
    rw [isGone, if_pos hdry]
  cases action with
  | delete => exact hgone
  | install => exact hready
  | update => exact hready
  | upgrade => exact hready

end Work

/-! ### The story of dry passes -/

/-- Helm is told to change a release, whether or not it does so. -/
def Event.touches : Event → Bool
  | .asked (.helm (.upgradeOrInstall _)) _ => true
  | .asked (.helm (.uninstall _ _ _)) _ => true
  | _ => false

theorem Event.touches_of_isModest {c : Call} (h : c.isModest = true) (a : c.Answer) :
    (asked c a).touches = false := by
  rcases c with _ | _ | (_ | _ | _ | _ | _ | _) | _ | _ | _ | _ <;>
    first | rfl | exact absurd h Bool.false_ne_true

namespace Story

/-- The machine is never held back: when it has entered the wait for the work, the next thing
that happens is that it enters the stage behind it. -/
def NeverHeld (es : Story) : Prop :=
  ∀ (newer older : Story) (x : Event) (a : Action), es = newer ++ x :: older →
    x.entered? = some (.awaitWork, a) →
    ∃ (rest : Story) (y : Event), newer = rest ++ [y] ∧ y.entered? = some (.announcePostWork, a)

/-- No release was touched, and the machine was never held back. -/
structure Undisturbed (es : Story) : Prop where
  spared : ∀ x ∈ es, x.touches = false
  moving : es.NeverHeld

/-- The machine has just entered the wait for the work. -/
def Awaits (a : Action) (es : Story) : Prop :=
  ∃ (u : Unit) (past : Story), Undisturbed past ∧
    es = .asked (.count (.transition Stage.awaitWork.label a.workName)) u :: past

theorem neverHeld_nil : NeverHeld [] := by
  intro newer older x a h
  exact absurd h.symm (by simp)

theorem undisturbed_empty : Undisturbed [] :=
  ⟨fun _ h => absurd h List.not_mem_nil, neverHeld_nil⟩

variable {x y : Event} {a : Action} {st : Stage}

/-- Nothing but the entering of the wait needs an answer. -/
theorem NeverHeld.cons (h : NeverHeld es) (hx : ∀ a, x.entered? ≠ some (.awaitWork, a)) :
    NeverHeld (x :: es) := by
  intro newer older y a heq hy
  rcases List.cons_eq_append_iff.1 heq with ⟨rfl, hcons⟩ | ⟨newer', rfl, hes⟩
  · obtain ⟨rfl, -⟩ := List.cons.inj hcons
    exact absurd hy (hx a)
  · obtain ⟨rest, z, rfl, hz⟩ := h newer' older y a hes hy
    exact ⟨x :: rest, z, rfl, hz⟩

theorem NeverHeld.passed (h : NeverHeld es) (hx : x.entered? = some (.awaitWork, a))
    (hy : y.entered? = some (.announcePostWork, a)) : NeverHeld (y :: x :: es) := by
  intro newer older z b heq hz
  rcases List.cons_eq_append_iff.1 heq with ⟨rfl, hcons⟩ | ⟨newer', rfl, hes⟩
  · obtain ⟨rfl, -⟩ := List.cons.inj hcons
    rw [hy] at hz
    cases hz
  rcases List.cons_eq_append_iff.1 hes with ⟨rfl, hcons⟩ | ⟨newer'', rfl, hes'⟩
  · obtain ⟨rfl, -⟩ := List.cons.inj hcons
    rw [hx] at hz
    obtain rfl : a = b := congrArg Prod.snd (Option.some.inj hz)
    exact ⟨[], y, rfl, hy⟩
  · obtain ⟨rest, w, rfl, hw⟩ := h newer'' older z b hes' hz
    exact ⟨y :: x :: rest, w, rfl, hw⟩

theorem Undisturbed.cons (h : Undisturbed es) (htouch : x.touches = false)
    (hx : ∀ a, x.entered? ≠ some (.awaitWork, a)) : Undisturbed (x :: es) := by
  refine ⟨?_, h.moving.cons hx⟩
  rintro y (_ | ⟨_, hy⟩)
  · exact htouch
  · exact h.spared y hy

theorem Undisturbed.modest (h : Undisturbed es) {c : Call} (hc : c.isModest = true) (b : c.Answer) :
    Undisturbed (.asked c b :: es) := by
  refine h.cons (Event.touches_of_isModest hc b) fun a heq => ?_
  rw [Event.entered?_of_isPlain (Call.isPlain_of_isModest hc)] at heq
  cases heq

theorem Undisturbed.enter (h : Undisturbed es) (hst : st ≠ .awaitWork) (a : Action) (u : Unit) :
    Undisturbed (.asked (.count (.transition st.label a.workName)) u :: es) := by
  refine h.cons rfl fun b heq => ?_
  rw [Event.entered?_transition] at heq
  exact hst (congrArg Prod.fst (Option.some.inj heq))

theorem Awaits.leave (h : Awaits a es) (u : Unit) :
    Undisturbed
      (.asked (.count (.transition Stage.announcePostWork.label a.workName)) u :: es) := by
  obtain ⟨v, past, hpast, rfl⟩ := h
  refine ⟨?_, hpast.moving.passed (Event.entered?_transition _ _ _)
    (Event.entered?_transition _ _ _)⟩
  rintro y (_ | ⟨_, _ | ⟨_, hy⟩⟩)
  · rfl
  · rfl
  · exact hpast.spared y hy

theorem Undisturbed.always (h : Undisturbed es) {p : Pass α} (hp : Pass.Modest p) :
    Always Conduct.unruled p es fun _ es' => Undisturbed es' := by
  refine hp.always ?_ h
  rintro es c b _ hc rfl h'
  exact h'.modest hc b

end Story

/-! ### Dry passes -/

namespace DryRun

open Story

/-- A dry run at a stage. It is at the wait for the work only in the moment of entering. -/
def At (a : Action) (st : Stage) (j : Job) (es : Story) : Prop :=
  j.entry.stage = st ∧ if st = .awaitWork then Awaits a es else Undisturbed es

/-- What is left of a dry run that has stopped. -/
def Halted (e : Entry) (es : Story) : Prop := e.stage ≠ .awaitWork ∧ Undisturbed es

variable {st : Stage}

theorem at_of_ne (hst : st ≠ .awaitWork) (hstage : j.entry.stage = st) (h : Undisturbed es) :
    At action st j es :=
  ⟨hstage, by rw [if_neg hst]; exact h⟩

theorem At.undisturbed (h : At action st j es) (hst : st ≠ .awaitWork) : Undisturbed es := by
  have h' := h.2
  rwa [if_neg hst] at h'

theorem At.halted (h : At action st j es) (hst : st ≠ .awaitWork) : Halted j.entry es :=
  ⟨h.1 ▸ hst, h.undisturbed hst⟩

/-- The stage after another one is entered. -/
theorem At.enter (h : At action st j es) (hst : st ≠ .finish) :
    AlwaysFrom Conduct.unruled (Work.enter action st.next) j es fun _ => At action st.next := by
  rw [Work.always_enter]
  rintro u _ rfl
  refine ⟨rfl, ?_⟩
  by_cases hawait : st = .awaitWork
  · subst hawait
    have hawaits : Awaits action es := h.2
    exact hawaits.leave u
  have hes := h.undisturbed hawait
  split
  · rename_i hnext
    rw [hnext]
    exact ⟨u, es, hes, rfl⟩
  · rename_i hnext
    exact hes.enter hnext action u

theorem At.onward (h : At action st j es) (hst : st ≠ .finish) (hawait : st ≠ .awaitWork)
    (o : Outcome) :
    Worker.Onward Conduct.unruled action st (At action) (fun _ j es => Halted j.entry es)
      o j es := by
  unfold Worker.Onward
  split
  · exact h.halted hawait
  · exact h.enter hst

/-- Modest work that leaves the stage of the entry alone. -/
theorem At.always_work (h : At action st j es) (hawait : st ≠ .awaitWork) {work : Work α}
    (hmodest : Work.Modest work)
    (hstill : AlwaysFrom Conduct.unruled work j es fun _ j' _ => j'.entry.stage = j.entry.stage) :
    AlwaysFrom Conduct.unruled work j es fun _ => At action st := by
  refine (Always.and hstill ((h.undisturbed hawait).always (hmodest j))).mono ?_
  rintro ⟨_, j'⟩ es' ⟨hstage, hes'⟩
  exact at_of_ne hawait (hstage.trans h.1) hes'

/-- Whatever is answered, an action that is performed without effect touches no release and
does not stop at the wait. -/
theorem always_perform (hdry : setup.dryRun = true) (action : Action)
    (h : Halted j.entry es) :
    AlwaysFrom Conduct.unruled (Work.perform setup action) j es fun _ j' es' =>
      Halted j'.entry es' := by
  have hstill := Worker.still_forAction (b := Conduct.unruled) setup action
  rw [Work.always_perform]
  refine Worker.always_run_of_steps (Worker.action_forAction setup action)
    (fun _ _ h' => At.onward h' (by decide) (by decide) .done) ?_ ?_ ?_
    (fun _ _ h' => h'.halted (by decide)) (at_of_ne h.1 rfl h.2)
  · intro j es h
    refine (h.always_work (by decide) (Work.oblivious_isNeeded setup action).modest
      (hstill.isNeeded j es)).mono ?_
    intro no j' es' h'
    split
    · exact h'.onward (by decide) (by decide) no.2
    · rw [Work.always_enter]
      rintro u _ rfl
      have hstage : Stage.finish ≠ .awaitWork := by decide
      exact ⟨hstage, (h'.undisturbed (by decide)).enter hstage action u⟩
  · intro j es h
    rw [Work.isDone_of_dryRun hdry]
    exact At.enter h (by decide)
  · intro st work hmem j es h
    have hst : st ≠ .finish ∧ st ≠ .awaitWork := by
      constructor
      · rintro rfl
        simp [Worker.steps] at hmem
      · rintro rfl
        simp [Worker.steps] at hmem
    exact (h.always_work hst.2 (Work.modest_dryStep hdry hmem)
      (hstill.steps st work hmem j es)).mono fun o _ _ h' => h'.onward hst.1 hst.2 o

theorem always_runPinned (hdry : setup.dryRun = true) (h : Halted j.entry es) :
    AlwaysFrom Conduct.unruled (Work.runPinned setup) j es fun _ j' es' =>
      Halted j'.entry es' := by
  rw [Work.always_runPinned]
  split
  · exact always_perform hdry _ h
  · refine (h.2.always (Pass.quiet_chooseAction j).modest).mono ?_
    rintro (o | a) es' hes'
    · exact ⟨h.1, hes'⟩
    · exact always_perform hdry a ⟨h.1, hes'⟩

theorem always_live (hdry : setup.dryRun = true) (h : Halted j.entry es) :
    AlwaysFrom Conduct.unruled (Work.live setup) j es fun _ j' es' => Halted j'.entry es' := by
  rw [Work.always_live]
  split
  · rw [Work.always_valuesChanged]
    split
    · exact h
    · refine (h.2.always (Pass.quiet_valuesDigest setup j).modest).mono ?_
      rintro (f | desired) es₁ h₁
      · exact (h₁.always (Pass.quiet_shortDelayWith _).modest).mono fun _ _ h₂ => ⟨h.1, h₂⟩
      · refine (h₁.always (Pass.quiet_appliedDigest setup j desired).modest).mono ?_
        rintro (o | applied) es₂ h₂
        · exact ⟨h.1, h₂⟩
        · dsimp only
          split
          · exact ⟨h.1, h₂⟩
          · exact ⟨h.1, h₂⟩
          · refine always_runPinned hdry ⟨?_, h₂⟩
            change Stage.start ≠ .awaitWork
            decide
  · exact always_runPinned hdry h

theorem always_clear (hdry : setup.dryRun = true) (h : Halted j.entry es) :
    AlwaysFrom Conduct.unruled (Work.clear setup) j es fun _ j' es' => Halted j'.entry es' := by
  rw [Work.always_clear]
  refine (always_perform hdry .delete h).mono ?_
  intro o j' es₁ h₁
  split
  · exact h₁
  · refine (h₁.2.always (Pass.oblivious_removeFinalizer j'.resource).modest).mono ?_
    intro or es₂ h₂
    split
    · exact ⟨h₁.1, h₂⟩
    · exact ⟨h₁.1, h₂⟩

end DryRun

/-! ### What is remembered -/

/-- What is true of each entry that a tracker keeps. -/
def Tracker.Each (p : Entry → Prop) (t : Tracker) : Prop := ∀ kv ∈ t.entries, p kv.2

namespace Tracker.Each

variable {p : Entry → Prop} {t : Tracker} {id : ObjectId} {g : Int}

theorem dropUnder (h : t.Each p) (start : String) : (t.dropUnder start).Each p :=
  fun kv hkv => h kv (List.mem_filter.1 hkv).1

theorem ensure (h : t.Each p) (id : ObjectId) (hfresh : p (.fresh g .start)) :
    p (t.ensure id g .start).1 ∧ (t.ensure id g .start).2.Each p := by
  unfold Tracker.ensure
  split
  · rename_i e he
    exact ⟨h _ (mem_of_lookup he), h⟩
  · split
    · exact ⟨hfresh, h⟩
    · refine ⟨hfresh, ?_⟩
      rintro kv (_ | ⟨_, hkv⟩)
      · exact hfresh
      · exact h.dropUnder _ kv hkv

theorem record (h : t.Each p) (he : p e) : (t.record id g e).Each p := by
  intro kv hkv
  obtain ⟨kv', hkv', rfl⟩ := List.mem_map.1 hkv
  split
  · exact he
  · exact h kv' hkv'

end Tracker.Each

/-- No machine that is remembered, for the living or for those being deleted, waits for its
work. -/
structure Memory.Unwaiting (m : Memory) : Prop where
  lifecycle : m.lifecycle.Each fun e => e.stage ≠ .awaitWork
  deletion : m.deletion.Each fun e => e.stage ≠ .awaitWork

theorem Memory.unwaiting_empty : Memory.empty.Unwaiting :=
  ⟨fun _ h => absurd h List.not_mem_nil, fun _ h => absurd h List.not_mem_nil⟩

theorem Memory.Unwaiting.dropped (h : m.Unwaiting) (start : String) :
    (m.onBoth fun t => t.dropUnder start).Unwaiting :=
  ⟨h.lifecycle.dropUnder start, h.deletion.dropUnder start⟩

namespace DryRun

open Story

/-- A dry pass over any resource. -/
theorem always_reconcile (hdry : setup.dryRun = true) (kind : Kind) (ns name : String)
    (hm : m.Unwaiting) (h : Undisturbed es) :
    AlwaysFrom Conduct.unruled (reconcile setup kind ns name) m es fun _ m' es' =>
      Undisturbed es' ∧ m'.Unwaiting := by
  have hfresh : ∀ generation : Int, (Entry.fresh generation .start).stage ≠ .awaitWork := by
    intro generation
    change Stage.start ≠ .awaitWork
    decide
  have hlive : ∀ r es₁, Undisturbed es₁ →
      AlwaysFrom Conduct.unruled (Reconcile.live setup r) m es₁ fun _ m' es' =>
        Undisturbed es' ∧ m'.Unwaiting := by
    intro r es₁ h₁
    rw [Reconcile.always_live]
    obtain ⟨hentry, hkept⟩ := hm.lifecycle.ensure (.ofResource r) (hfresh r.generation)
    refine (always_live (j := .start setup r _) hdry ⟨hentry, h₁⟩).mono ?_
    rintro o j es₂ ⟨hstage, h₂⟩
    exact ⟨h₂, hkept.record hstage, hm.deletion⟩
  have hclear : ∀ r es₁, Undisturbed es₁ →
      AlwaysFrom Conduct.unruled (Reconcile.clear setup r) m es₁ fun _ m' es' =>
        Undisturbed es' ∧ m'.Unwaiting := by
    intro r es₁ h₁
    rw [Reconcile.always_clear]
    split
    · obtain ⟨hentry, hkept⟩ := hm.deletion.ensure (.ofResource r) (hfresh r.generation)
      refine (always_clear (j := .start setup r _) hdry ⟨hentry, h₁⟩).mono ?_
      rintro ⟨forget, o⟩ j es₂ ⟨hstage, h₂⟩
      have hrecorded : Memory.Unwaiting { m with
          deletion := (m.deletion.ensure (.ofResource r) r.generation .start).2.record
            (.ofResource r) r.generation j.entry } :=
        ⟨hm.lifecycle, hkept.record hstage⟩
      cases forget with
      | false => exact ⟨h₂, hrecorded⟩
      | true => exact ⟨h₂, hrecorded.dropped _⟩
    · exact ⟨h₁, hm.dropped _⟩
  rw [ReleaseOperator.always_reconcile]
  rintro (f | _ | r) _ rfl
  · exact ((h.modest rfl _).always (Pass.quiet_shortDelayWith _).modest).mono
      fun _ _ h₁ => ⟨h₁, hm⟩
  · exact ⟨h.modest rfl _, hm.dropped _⟩
  have hread := h.modest (c := .store (.get kind ns name)) rfl (.ok (some r))
  dsimp only
  split
  · exact ⟨hread, hm⟩
  rw [Reconcile.always_found]
  split
  · exact hclear r _ hread
  split
  · exact ⟨hread, hm⟩
  rw [Pass.always_ensureFinalizer]
  split
  · exact hlive r _ hread
  refine (hread.always ((Pass.oblivious_persistResource _).modest)).mono ?_
  intro or es₁ h₁
  split
  · exact ⟨h₁, hm⟩
  · exact (h₁.always Pass.quiet_shortDelay.modest).mono fun _ _ h₂ => ⟨h₂, hm⟩

end DryRun

/-- Dry passes over any resources of any classes, the story of them and the memory that they
leave. In them anything may be answered, users edit in between, and the operator may be started
again at any time. -/
inductive Rehearsed : Story → Memory → Prop
  | started : Rehearsed [] .empty
  | pass {past es : Story} {m m' : Memory} {setup : Setup} {kind : Kind} {ns name : String}
      {result : Except PassError Outcome} (h : Rehearsed past m) (dry : setup.dryRun = true)
      (run : Runs Conduct.unruled ((reconcile setup kind ns name).run m) past (result, m') es) :
      Rehearsed es m'
  | edit {past : Story} {m : Memory} (h : Rehearsed past m) : Rehearsed (.edited :: past) m
  | restart {past : Story} {m : Memory} (h : Rehearsed past m) : Rehearsed past .empty

/-- By induction on the passes. -/
theorem Rehearsed.undisturbed {past : Story} (h : Rehearsed past m) :
    past.Undisturbed ∧ m.Unwaiting := by
  induction h with
  | started => exact ⟨Story.undisturbed_empty, Memory.unwaiting_empty⟩
  | pass _ hdry run ih =>
      exact always_iff_runs.1 (DryRun.always_reconcile hdry _ _ _ ih.2 ih.1) _ _ run
  | edit _ ih => exact ⟨ih.1.cons rfl fun _ => by simp [Event.entered?], ih.2⟩
  | restart _ ih => exact ⟨ih.1, Memory.unwaiting_empty⟩

/-- Whatever is answered in dry passes, and whatever happens in between, Helm is never told to
install, upgrade or remove a release, the machine goes on in the moment it has entered the wait
for the work, and no machine is left there. -/
theorem dry_runs_touch_no_release {past : Story} (h : Rehearsed past m) :
    (∀ x ∈ past, x.touches = false) ∧ past.NeverHeld ∧
      (∀ kv ∈ m.lifecycle.entries, kv.2.stage ≠ .awaitWork) ∧
      ∀ kv ∈ m.deletion.entries, kv.2.stage ≠ .awaitWork := by
  obtain ⟨hundisturbed, hunwaiting⟩ := h.undisturbed
  exact ⟨hundisturbed.spared, hundisturbed.moving, hunwaiting.lifecycle, hunwaiting.deletion⟩

/-! ### A module rehearsed and deleted -/

/-- The operator of the trials, told to do nothing to releases. -/
def drySetup : Setup := { trialSetup with dryRun := true }

/-- The module `web` once a user has had it deleted. -/
def doomedModule : Resource :=
  { trialModule with metadata := { trialModule.metadata with deletionTime := some ⟨0⟩ } }

/-- Answers about the module `web` as it stands, with what was asked kept. -/
def rehearsing (r : Resource) (c : Call) : StateM Story c.Answer := fun es =>
  let answer : c.Answer := match c with
    | .store (.get _ _ _) => .ok (some r)
    | .store (.updateStatus w) => .ok w
    | .store (.update w) => .ok w
    | c => (Contest.wellAnswered .module none .empty c).1
  (answer, .asked c answer :: es)

/-- A dry pass over the module `web`, computed. -/
def rehearsedPass (r : Resource) (m : Memory) (past : Story) :
    (Except PassError Outcome × Memory) × Story :=
  ((reconcile drySetup .module "default" "web").run m).run (rehearsing r) past

theorem Rehearsed.computed {past : Story} (h : Rehearsed past m) (r : Resource) :
    Rehearsed (rehearsedPass r m past).2 (rehearsedPass r m past).1.2 :=
  h.pass rfl (runs_run (fun _ _ => rfl) _ _)

/-- The story of an installation, a new start, an edit and the deletion. -/
def rehearsal : Story :=
  (rehearsedPass doomedModule .empty (.edited :: (rehearsedPass trialModule .empty []).2)).2

/-- Both machines wait for their work, the one of the installation and that of the deletion,
and both go on at once. -/
theorem dry_runs_touch_no_release_rehearsal :
    Rehearsed rehearsal .empty ∧
    (rehearsal.entered.filter fun y => y.1 = .awaitWork) =
      [(.awaitWork, .install), (.awaitWork, .delete)] ∧
    (∀ x ∈ rehearsal, x.touches = false) ∧ rehearsal.NeverHeld := by
  have h : Rehearsed rehearsal .empty :=
    .restart (.computed (.restart (.edit (.computed .started trialModule))) doomedModule)
  obtain ⟨htouches, hheld, -⟩ := dry_runs_touch_no_release h
  exact ⟨h, by decide +kernel, htouches, hheld⟩

end ReleaseOperator
