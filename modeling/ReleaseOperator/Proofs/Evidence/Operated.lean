import ReleaseOperator.Proofs.Edits.Script
import ReleaseOperator.Proofs.Evidence.Passes
import ReleaseOperator.Proofs.Evidence.Releases

/-!
# What operator and users make of a resource

Passes over a resource, one at a time and each with whatever failures, and between them users
who edit its specification or ask for its deletion, and restarts after which nothing is
remembered. Every call that changes something was made where its guard held.
-/

namespace ReleaseOperator.Contest

open InMemory Relation Program

/-- What operator and users can make of a store: a past before the last start of the operator,
what is remembered since then, and the store with its story since then. Finalizers are taken
off by the operator only, and foreign ones by whoever put them on. -/
inductive Operated (kind : Kind) (ns name : String) : Story → Memory → Contest → Prop
  | start {store : Store} (keyed : store.Keyed kind) : Operated kind ns name [] .empty ⟨store, []⟩
  | edit {past : Story} {m : Memory} {s t : Contest} (before : Operated kind ns name past m s)
      (edit : Edit ns name s t) : Operated kind ns name past m t
  | delete {past : Story} {m : Memory} {s : Contest} (before : Operated kind ns name past m s)
      (now : Instant) : Operated kind ns name past m ⟨s.store.markDeleted ns name now, s.story⟩
  | release {past : Story} {m : Memory} {s : Contest} (before : Operated kind ns name past m s)
      (free : ∀ o, s.store.get? ns name = some o → o.isDeleting = true ∧ o.hasFinalizer = false) :
      Operated kind ns name past m
        ⟨{ s.store with objects := s.store.objects.erase (ns, name) }, s.story⟩
  | pass {past : Story} {m : Memory} {s t : Contest} {setup : Setup}
      {result : Except PassError Outcome × Memory} (before : Operated kind ns name past m s)
      (wet : setup.dryRun = false)
      (run : Runs (uninterrupted kind) ((reconcile setup kind ns name).run m)
        ⟨s.store, .began :: s.story⟩ result t) :
      Operated kind ns name past result.2 t
  | restart {past : Story} {m : Memory} {s : Contest} (before : Operated kind ns name past m s) :
      Operated kind ns name (s.story ++ past) .empty ⟨s.store, []⟩

variable {setup : Setup} {kind : Kind} {ns name : String} {past : Story} {m : Memory}
  {s t : Contest} {o : Resource} {c : Call} {a : c.Answer} {es : Story}

/-- An edit begins a new generation and leaves the finalizers alone. -/
theorem Edit.follows (h : Edit ns name s t) (hkeyed : s.store.Keyed kind)
    (ho : t.store.get? ns name = some o) :
    ∃ old, s.store.get? ns name = some old ∧ Follows s t old o ∧
      o.hasFinalizer = old.hasFinalizer := by
  obtain ⟨old, spec, store, hold, hkind, hspec, hedit, rfl⟩ := h
  obtain rfl := Option.some.inj ((Store.edit_ok hkeyed hold hkind hspec hedit).1.symm.trans ho)
  refine ⟨old, hold, ⟨rfl, id, Int.le_of_lt (Int.lt_succ old.generation), fun he => ?_⟩, ?_⟩
  · have hgen : old.generation + 1 = old.generation := he
    omega
  · have hsame : (old.finalizers.contains spec.kind.finalizer) = old.hasFinalizer := by
      rw [hkind]
      rfl
    exact hsame

/-- A deletion that is asked for changes nothing else. -/
theorem follows_markDeleted {now : Instant}
    (ho : (s.store.markDeleted ns name now).get? ns name = some o) :
    ∃ old, s.store.get? ns name = some old ∧
      Follows s ⟨s.store.markDeleted ns name now, s.story⟩ old o ∧
      o.hasFinalizer = old.hasFinalizer := by
  unfold Store.markDeleted at ho
  dsimp only at ho
  split at ho
  · exact ⟨o, ho, ⟨rfl, id, Int.le_refl _, fun _ => ⟨rfl, [], rfl, by simp⟩⟩, rfl⟩
  · rename_i old hold
    split at ho
    · exact absurd ((Table.get?_erase_self (t := s.store.objects)).symm.trans ho) (by simp)
    · obtain rfl := Option.some.inj (Table.get?_put_self.symm.trans ho)
      exact ⟨old, hold, ⟨rfl, fun _ => rfl, Int.le_refl _, fun _ => ⟨rfl, [], rfl, by simp⟩⟩, rfl⟩

/-- Whatever operator and users have done, the entries in memory have what they rest on. -/
theorem Operated.sound (h : Operated kind ns name past m s) : Sound kind ns name m s := by
  induction h with
  | start keyed => exact sound_empty keyed
  | edit before hedit ih =>
      obtain ⟨_, _, _, _, _, _, _, hkeyed, _⟩ := hedit.stored ih.keyed
      refine ih.carry hkeyed fun o ho => ?_
      obtain ⟨old, hold, hfollows, _⟩ := hedit.follows ih.keyed ho
      exact ⟨old, hold, hfollows⟩
  | delete before now ih =>
      refine ih.carry (ih.keyed.markDeleted ns name now) fun o ho => ?_
      obtain ⟨old, hold, hfollows, _⟩ := follows_markDeleted ho
      exact ⟨old, hold, hfollows⟩
  | release before free ih =>
      refine ih.carry (ih.keyed.erase _) fun o ho => ?_
      exact absurd (Table.get?_erase_self.symm.trans ho) (by simp)
  | pass before wet run ih => exact (always_iff_runs.1 (ih.pass wet) _ _ run).sound
  | restart before ih => exact sound_empty ih.keyed

theorem Operated.edits (h : Operated kind ns name past m s)
    (hedits : ReflTransGen (Edit ns name) s t) : Operated kind ns name past m t := by
  induction hedits with
  | refl => exact h
  | tail _ hedit ih => exact ih.edit hedit

/-- What a pass over the resource leaves. -/
theorem Operated.passed (h : Operated kind ns name past m s) (wet : setup.dryRun = false)
    {result : Except PassError Outcome × Memory}
    (run : Runs (uninterrupted kind) ((reconcile setup kind ns name).run m)
      ⟨s.store, .began :: s.story⟩ result t) :
    Passed kind ns name ⟨s.store, .began :: s.story⟩ result.2 t :=
  always_iff_runs.1 (h.sound.pass wet) _ _ run

theorem suffix_of_suffix_began (h : (.asked c a :: es) <:+ .began :: s.story) :
    (.asked c a :: es) <:+ s.story := by
  rcases List.suffix_cons_iff.1 h with heq | h
  · exact absurd heq (by simp)
  · exact h

/-- Every call was made where its guard held. -/
theorem Operated.guarded (h : Operated kind ns name past m s)
    (hsuffix : (.asked c a :: es) <:+ s.story) :
    ∃ store, Guard kind ns name ⟨store, es⟩ c := by
  induction h with
  | start keyed => exact absurd (List.suffix_nil.1 hsuffix) (List.cons_ne_nil _ _)
  | edit before hedit ih =>
      obtain ⟨_, _, _, _, _, _, _, rfl⟩ := hedit
      rcases List.suffix_cons_iff.1 hsuffix with heq | hsuffix
      · exact absurd heq (by simp)
      · exact ih hsuffix
  | delete before now ih => exact ih hsuffix
  | release before free ih => exact ih hsuffix
  | pass before wet run ih =>
      rcases guard_of_suffix (before.passed wet run).path hsuffix with hsuffix | hguard
      · exact ih (suffix_of_suffix_began hsuffix)
      · exact hguard
  | restart before ih => exact absurd (List.suffix_nil.1 hsuffix) (List.cons_ne_nil _ _)

/-! ### Passes that can be computed -/

/-- The store keeps to its rules, and all else is answered from the story. -/
def attended (kind : Kind) (answer : Story → (c : Call) → c.Answer) :
    (c : Call) → StateM Contest c.Answer
  | .store c => fun s =>
    let as := wellAnswered kind none s.store (.store c)
    (as.1, ⟨as.2, .asked (.store c) as.1 :: s.story⟩)
  | c => fun s => (answer s.story c, ⟨s.store, .asked c (answer s.story c) :: s.story⟩)

theorem may_attended (kind : Kind) (answer : Story → (c : Call) → c.Answer) (s : Contest)
    (c : Call) :
    (uninterrupted kind).may s c (attended kind answer c s).1 (attended kind answer c s).2 := by
  cases c with
  | store c => exact ⟨_, answered_wellAnswered kind none s.store (.store c), rfl⟩
  | _ => exact ⟨s.store, rfl, rfl⟩

/-- The pass over a resource, computed. -/
def attendedPass (setup : Setup) (kind : Kind) (ns name : String)
    (answer : Story → (c : Call) → c.Answer) (m : Memory) (s : Contest) :
    (Except PassError Outcome × Memory) × Contest :=
  ((reconcile setup kind ns name).run m).run (attended kind answer) ⟨s.store, .began :: s.story⟩

theorem Operated.attended (h : Operated kind ns name past m s) (wet : setup.dryRun = false)
    (answer : Story → (c : Call) → c.Answer) :
    Operated kind ns name past (attendedPass setup kind ns name answer m s).1.2
      (attendedPass setup kind ns name answer m s).2 :=
  .pass h wet (runs_run (may_attended kind answer) _ _)

theorem exists_suffix_of_any {p : Event → Bool} {story : Story} (h : story.any p = true) :
    ∃ e es, (e :: es) <:+ story ∧ p e = true := by
  obtain ⟨e, hmem, hp⟩ := List.any_eq_true.1 h
  obtain ⟨before, after, rfl⟩ := List.append_of_mem hmem
  exact ⟨e, after, List.suffix_append _ _, hp⟩

/-!
## What a success that is recorded tells

A resource is only said to have its release when Helm and the cluster have said so after the
work for it: in the same run of the machine, for the same generation of the same object. It
makes no difference in how many passes the run went, what failed on the way and what users or
restarts did in between.
-/

variable {w : Resource} {reason : Reason}

/-- Whenever a status that ends in a success is written, the work of the same run had been
done before, and after that the release of the resource was reported as deployed at the
version asked for and its workloads were reported ready. -/
theorem success_after_readiness (h : Operated kind ns name past m s)
    {answer : Call.Answer (.store (.updateStatus w))}
    (hwrite : (.asked (.store (.updateStatus w)) answer :: es) <:+ s.story)
    (hreason : reason ∈ Reason.successes) (hends : endsIn w.conditions reason) :
    ∃ after e before, es = after ++ e :: before ∧ (∀ x ∈ after, Event.Keeps w.aim x) ∧
      e.Enters .awaitWork ∧ ReportedReady w.aim after := by
  obtain ⟨_, _, _, hguard⟩ := h.guarded hwrite
  exact hguard reason hreason hends

/-! ### An installation in two passes -/

/-- All goes well, but the class asks once to come back after the wait is over. -/
def hesitant (story : Story) : (c : Call) → c.Answer
  | .hook .postWork _ _ =>
    if story.any fun e => match e with
      | .asked (.hook .postWork _ _) _ => true
      | _ => false
    then .done else .after (Duration.ofSecs 1)
  | c => story.booked c

/-- The pass in which the release of the module `web` becomes ready. -/
def waitingPass : (Except PassError Outcome × Memory) × Contest :=
  attendedPass trialSetup .module "default" "web" hesitant .empty ⟨trialStore trialModule, []⟩

/-- The pass after that, in which the success is recorded. -/
def concludingPass : (Except PassError Outcome × Memory) × Contest :=
  attendedPass trialSetup .module "default" "web" hesitant waitingPass.1.2 waitingPass.2

theorem operated_concludingPass :
    Operated .module "default" "web" [] concludingPass.1.2 concludingPass.2 := by
  have hkeyed : (trialStore trialModule).Keyed .module := keyed_trialStore rfl rfl
  have hwet : trialSetup.dryRun = false := rfl
  have hwaiting : Operated .module "default" "web" [] waitingPass.1.2 waitingPass.2 := by
    unfold waitingPass
    exact (Operated.start hkeyed).attended hwet hesitant
  unfold concludingPass
  exact hwaiting.attended hwet hesitant

/-- Whether an event is a status written that ends in the success of an installation. -/
def isInstalled : Event → Bool
  | .asked (.store (.updateStatus w)) _ =>
    (Condition.latestReady? w.conditions).any fun c => c.reason = Reason.installSucceeded.name
  | _ => false

theorem exists_installed_concludingPass :
    ∃ w answer es, (.asked (.store (.updateStatus w)) answer :: es) <:+ concludingPass.2.story ∧
      endsIn w.conditions .installSucceeded := by
  have hany : concludingPass.2.story.any isInstalled = true := by decide +kernel
  obtain ⟨e, es, hsuffix, hinstalled⟩ := exists_suffix_of_any hany
  unfold isInstalled at hinstalled
  split at hinstalled
  · rename_i w answer
    obtain ⟨c, hc, hreason⟩ := (Option.any_eq_true _ _).1 hinstalled
    exact ⟨w, answer, es, hsuffix, c, hc, of_decide_eq_true hreason⟩
  · exact absurd hinstalled Bool.false_ne_true

/-- The hypotheses of `success_after_readiness` hold where the success is recorded in another
pass than the one in which the release became ready. -/
theorem success_after_readiness_concluded :
    Operated .module "default" "web" [] concludingPass.1.2 concludingPass.2 ∧
      waitingPass.2.story.any isInstalled = false ∧
      ∃ w answer es, (.asked (.store (.updateStatus w)) answer :: es) <:+ concludingPass.2.story ∧
        Reason.installSucceeded ∈ Reason.successes ∧
        endsIn w.conditions .installSucceeded ∧
        ∃ after e before, es = after ++ e :: before ∧ (∀ x ∈ after, Event.Keeps w.aim x) ∧
          e.Enters .awaitWork ∧ ReportedReady w.aim after := by
  refine ⟨operated_concludingPass, by decide +kernel, ?_⟩
  obtain ⟨w, answer, es, hsuffix, hends⟩ := exists_installed_concludingPass
  exact ⟨w, answer, es, hsuffix, by decide, hends,
    success_after_readiness operated_concludingPass hsuffix (by decide) hends⟩

end ReleaseOperator.Contest
