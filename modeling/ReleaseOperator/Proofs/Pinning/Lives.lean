import ReleaseOperator.Proofs.Generations
import ReleaseOperator.Proofs.Pinning.Stints

/-!
# The life of an entry

From the passes made since the operator was started one can tell those that worked on the entry
which is now kept under a key: the pass that brought it into the tracker and all later ones over
it. Each takes the entry up where the one before has left it, whatever else happened in between,
and so what a single pass does to an entry comes to what becomes of it in its whole life.
-/

namespace ReleaseOperator

open Program

/-- A pass that was made: its setup, the memory before and after it, and what was asked. -/
structure Visit where
  setup : Setup
  before : Memory
  after : Memory
  story : Story

/-- The passes made since the operator was started, the newest first, and the memory that they
left. They may be over any resources, anything may be answered in them, and anything may happen
in between. -/
inductive Visited : List Visit → Memory → Prop
  | started : Visited [] .empty
  | pass {visits : List Visit} {m m' : Memory} (h : Visited visits m) {setup : Setup} {kind : Kind}
      {ns name : String} {result : Except PassError Outcome} {story : Story}
      (run : Runs Conduct.unruled ((reconcile setup kind ns name).run m) [] (result, m') story) :
      Visited (⟨setup, m, m', story⟩ :: visits) m'

/-- A pass as the entry that it works on sees it. -/
structure Stint where
  setup : Setup
  resource : Resource
  before : Entry
  after : Entry
  story : Story

/-- Whether the work of a resource is done under an entry for the living. -/
def Resource.isTended (setup : Setup) (r : Resource) : Bool :=
  r.className = setup.className && !r.isDeleting && !r.isTerminal && r.hasFinalizer

namespace Visit

/-- The stint of the entry that is kept under a key. -/
def stint? (key : String) (v : Visit) : Option Stint :=
  match v.story.fetched?, v.after.lifecycle.find? key with
  | some r, some e =>
    if r.isTended v.setup ∧ (ObjectId.ofResource r).key r.generation = key then
      some ⟨v.setup, r, (v.before.lifecycle.find? key).getD (.fresh r.generation .start), e,
        v.story⟩
    else none
  | _, _ => none

end Visit

/-- The stints of the entry now kept under a key, the newest first. They go back to the pass that
found no entry there. -/
def stints (key : String) : List Visit → List Stint
  | [] => []
  | v :: visits =>
    (v.stint? key).toList ++
      if (v.before.lifecycle.find? key).isSome then stints key visits else []

namespace Entry

/-- A row of stints, the newest first, that has led to an entry: each one takes it up where the
one before left it, and the first one finds it new. -/
inductive Life : List Stint → Entry → Prop
  | born (x : Stint) (new : x.before = .fresh x.resource.generation .start) : Life [x] x.after
  | further {xs : List Stint} {e : Entry} (h : Life xs e) (x : Stint) (same : x.before = e) :
      Life (x :: xs) x.after

end Entry

variable {visits : List Visit} {setup : Setup} {kind : Kind} {ns name key : String}
  {m m' : Memory} {r : Resource} {e : Entry} {past story es : Story}

/-- After a pass the entry under a key is the one from before, or the pass has worked on it. -/
def Accounted (setup : Setup) (m : Memory) (past : Story) (key : String) (m' : Memory)
    (story : Story) : Prop :=
  ∀ e, m'.lifecycle.find? key = some e →
    (Visit.stint? key ⟨setup, m, m', story⟩ = none ∧ m.lifecycle.find? key = some e) ∨
      ∃ r, let before := (m.lifecycle.find? key).getD (.fresh r.generation .start)
        Visit.stint? key ⟨setup, m, m', story⟩ = some ⟨setup, r, before, e, story⟩ ∧
          before.Passed setup r past e story

theorem Visit.stint?_of_tended {r : Resource} (hfetched : story.fetched? = some r)
    (htended : r.isTended setup = true)
    (he : m'.lifecycle.find? ((ObjectId.ofResource r).key r.generation) = some e) :
    stint? ((ObjectId.ofResource r).key r.generation) ⟨setup, m, m', story⟩ =
      some ⟨setup, r, (m.lifecycle.get? (.ofResource r) r.generation).getD
        (.fresh r.generation .start), e, story⟩ := by
  unfold stint?
  rw [hfetched]
  dsimp only
  rw [he]
  exact if_pos ⟨htended, rfl⟩

/-- A pass that does not work on an entry takes it away. -/
theorem accounted_of_untended (hno : ∀ r, story.fetched? = some r → r.isTended setup = true →
      (ObjectId.ofResource r).key r.generation ≠ key)
    (hkept : ∀ e, m'.lifecycle.find? key = some e → m.lifecycle.find? key = some e) :
    Accounted setup m past key m' story := by
  intro e he
  refine Or.inl ⟨?_, hkept e he⟩
  unfold Visit.stint?
  cases hfetched : story.fetched? with
  | none => rfl
  | some r =>
      dsimp only
      rw [he]
      dsimp only
      rw [if_neg]
      rintro ⟨htended, hkey⟩
      exact hno r hfetched htended hkey

theorem find?_forget (h : (m.forget r).lifecycle.find? key = some e) :
    m.lifecycle.find? key = some e :=
  Tracker.find?_dropUnder h

/-- The pass over a resource that is being deleted keeps its progress elsewhere. -/
theorem Reconcile.always_clear_find? (setup : Setup) (r : Resource) (m : Memory) (es : Story) :
    AlwaysFrom Conduct.unruled (clear setup r) m es fun _ m' _ =>
      ∀ e, m'.lifecycle.find? key = some e → m.lifecycle.find? key = some e := by
  rw [always_clear]
  split
  · refine (Story.always (I := fun _ => True) (fun _ _ _ h => h) trivial _).mono ?_
    rintro ⟨⟨_ | _, o⟩, j⟩ _ _
    · exact fun e he => he
    · exact fun e he => find?_forget he
  · exact fun e he => find?_forget he

/-- A resource that is not tended gets no entry for the living. -/
theorem Reconcile.always_found_find? (hclass : r.className = setup.className)
    (huntended : r.isTended setup = false) (key : String) (m : Memory) (es : Story) :
    AlwaysFrom Conduct.unruled (found setup r) m es fun _ m' _ =>
      ∀ e, m'.lifecycle.find? key = some e → m.lifecycle.find? key = some e := by
  rw [always_found]
  split
  · exact always_clear_find? setup r m es
  rename_i hliving
  split
  · exact fun e he => he
  rename_i hgoesOn
  have hfinalizer : ¬ r.hasFinalizer = true := by
    intro hfinalizer
    simp [Resource.isTended, hclass, hliving, hgoesOn, hfinalizer] at huntended
  rw [Pass.always_ensureFinalizer, if_neg hfinalizer]
  refine (Story.always (I := fun _ => True) (fun _ _ _ h => h) trivial _).mono ?_
  rintro or es' _
  split
  · exact fun e he => he
  · exact (Story.always (I := fun _ => True) (fun _ _ _ h => h) trivial _).mono
      fun _ _ _ e he => he

theorem Reconcile.always_found_of_tended (htended : r.isTended setup = true)
    {post : Outcome → Memory → Story → Prop}
    (h : AlwaysFrom Conduct.unruled (live setup r) m es post) :
    AlwaysFrom Conduct.unruled (found setup r) m es post := by
  unfold Resource.isTended at htended
  rw [Bool.and_eq_true, Bool.and_eq_true, Bool.and_eq_true, Bool.not_eq_true',
    Bool.not_eq_true'] at htended
  obtain ⟨⟨⟨_, hliving⟩, hgoesOn⟩, hfinalizer⟩ := htended
  rw [always_found, hliving, hgoesOn, if_neg Bool.false_ne_true, if_neg Bool.false_ne_true,
    Pass.always_ensureFinalizer, if_pos hfinalizer]
  exact h

/-- A pass begins by reading the resource. -/
def Story.reading (kind : Kind) (ns name : String) (r : Resource) : Story :=
  [.asked (.store (.get kind ns name)) (.ok (some r))]

theorem Entry.Steady.resting (h : e.Steady past) (kind : Kind) (ns name : String) (r : Resource) :
    Story.Resting past e.stage (.reading kind ns name r) :=
  ⟨rfl, h.sparing.plain (c := .store (.get kind ns name)) rfl _⟩

/-- The pass over a resource that is tended works on the entry under the key of the resource,
and on no other one. -/
theorem Reconcile.always_live_accounted (htended : r.isTended setup = true)
    (hsteady : ∀ generation : Int,
      ((m.lifecycle.find? key).getD (.fresh generation .start)).Steady past) :
    AlwaysFrom Conduct.unruled (live setup r) m (.reading kind ns name r) fun _ m' story =>
      Accounted setup m past key m' story := by
  have hfetched : Story.fetched? (.reading kind ns name r) = some r := rfl
  rw [always_live]
  by_cases hkey : (ObjectId.ofResource r).key r.generation = key
  · subst hkey
    have hbefore := Tracker.ensure_fst m.lifecycle (.ofResource r) r.generation .start
    have hpassed := Entry.always_live setup r
      ((hsteady r.generation).resting kind ns name r) (hsteady r.generation)
    dsimp only
    rw [hbefore]
    refine (Always.and hpassed (Story.always_fetched hfetched _)).mono ?_
    rintro ⟨o, j⟩ story ⟨hpassed, hfetched⟩ e he
    obtain rfl := Tracker.get?_record_self he
    exact Or.inr ⟨r, Visit.stint?_of_tended hfetched htended he, hpassed⟩
  · refine (Story.always_fetched hfetched _).mono ?_
    rintro ⟨o, j⟩ story hfetched
    refine accounted_of_untended ?_ ?_
    · intro r' hr' _
      obtain rfl : r = r' := Option.some.inj (hfetched.symm.trans hr')
      exact hkey
    · intro e he
      rw [Tracker.find?_record_of_ne (Ne.symm hkey)] at he
      exact Tracker.find?_of_find?_ensure (Ne.symm hkey) he

/-- A pass over any resource. -/
theorem always_reconcile_accounted (setup : Setup) (kind : Kind) (ns name : String)
    (hsteady : ∀ generation : Int,
      ((m.lifecycle.find? key).getD (.fresh generation .start)).Steady past) :
    AlwaysFrom Conduct.unruled (reconcile setup kind ns name) m [] fun _ m' story =>
      Accounted setup m past key m' story := by
  rw [always_reconcile]
  rintro (f | _ | r) story rfl
  · refine Pass.always_shortDelayWith ?_
    rintro d _ ⟨n, rfl⟩
    exact accounted_of_untended (fun r hr => by cases hr) fun e he => he
  · exact accounted_of_untended (fun r hr => by cases hr) fun e he => Tracker.find?_dropUnder he
  have hfetched : Story.fetched? (.reading kind ns name r) = some r := rfl
  dsimp only
  split
  · rename_i hclass
    refine accounted_of_untended (fun r' hr' htended => ?_) fun e he => he
    obtain rfl : r = r' := Option.some.inj (hfetched.symm.trans hr')
    simp [Resource.isTended, hclass] at htended
  rename_i hclass
  cases htended : r.isTended setup with
  | true =>
      exact Reconcile.always_found_of_tended htended
        (Reconcile.always_live_accounted htended hsteady)
  | false =>
      have hfound := Reconcile.always_found_find? (Decidable.not_not.1 hclass) htended key m
        (.reading kind ns name r)
      refine (Always.and hfound (Story.always_fetched hfetched _)).mono ?_
      rintro ⟨o, m'⟩ story ⟨hkept, hfetched⟩
      refine accounted_of_untended (fun r' hr' htended' => ?_) hkept
      obtain rfl : r = r' := Option.some.inj (hfetched.symm.trans hr')
      rw [htended] at htended'
      cases htended'

/-! ### The whole life -/

/-- What every pass over an entry keeps to. -/
structure Stint.Orderly (x : Stint) : Prop where
  pinned : x.after.stage ≠ .start → ∃ a, x.after.action = some a
  moves : x.before.Moves x.setup x.resource x.after x.story

/-- A row of stints that has led to an entry: each of them keeps to the rules, and none of them,
nor all of them together, has applied a release too often. -/
structure Entry.Led (xs : List Stint) (e : Entry) : Prop where
  life : Entry.Life xs e
  orderly : ∀ x ∈ xs, x.Orderly
  steady : e.Steady (xs.flatMap Stint.story)

theorem Stint.orderly_of_passed {before : Entry} (h : before.Passed setup r past e story) :
    Stint.Orderly ⟨setup, r, before, e, story⟩ :=
  ⟨h.2.pinned, h.1⟩

theorem Entry.led_born (h : (fresh r.generation .start).Passed setup r [] e story) :
    Led [⟨setup, r, .fresh r.generation .start, e, story⟩] e := by
  refine ⟨.born _ rfl, ?_, ?_⟩
  · intro x hx
    rw [List.mem_singleton.1 hx]
    exact Stint.orderly_of_passed h
  · rw [List.flatMap_singleton, ← List.append_nil story]
    exact h.2

theorem Entry.Led.further {xs : List Stint} {before : Entry} (h : Led xs before)
    (hpassed : before.Passed setup r (xs.flatMap Stint.story) e story) :
    Led (⟨setup, r, before, e, story⟩ :: xs) e := by
  refine ⟨.further h.life _ rfl, ?_, hpassed.2⟩
  intro x hx
  rcases List.mem_cons.1 hx with rfl | hx
  · exact Stint.orderly_of_passed hpassed
  · exact h.orderly x hx

theorem stints_cons (v : Visit) (visits : List Visit) :
    stints key (v :: visits) = (v.stint? key).toList ++
      if (v.before.lifecycle.find? key).isSome then stints key visits else [] := rfl

/-- By induction on the passes made: a further one brings the entry in, or works on it, or
leaves it alone. -/
theorem Visited.led (h : Visited visits m) :
    ∀ e, m.lifecycle.find? key = some e → Entry.Led (stints key visits) e := by
  induction h with
  | started => exact fun e he => by cases he
  | @pass visits m m' h setup kind ns name result story run ih =>
      intro e he
      have hpass : ∀ {past : Story}, (∀ generation : Int,
          ((m.lifecycle.find? key).getD (.fresh generation .start)).Steady past) →
            Accounted setup m past key m' story :=
        fun hsteady => always_iff_runs.1 (always_reconcile_accounted setup kind ns name hsteady) _ _
          run
      rw [stints_cons]
      dsimp only
      cases hbefore : m.lifecycle.find? key with
      | none =>
          rw [hbefore] at hpass
          obtain ⟨_, hkept⟩ | ⟨r, hstint, hpassed⟩ := hpass Entry.steady_fresh e he
          · rw [hbefore] at hkept
            cases hkept
          · rw [hbefore] at hstint hpassed
            rw [hstint]
            exact Entry.led_born hpassed
      | some before =>
          rw [hbefore] at hpass
          have hled := ih before hbefore
          obtain ⟨hnone, hkept⟩ | ⟨r, hstint, hpassed⟩ := hpass (fun _ => hled.steady) e he
          · rw [hnone]
            obtain rfl : before = e := Option.some.inj (hbefore.symm.trans hkept)
            exact hled
          · rw [hbefore] at hstint hpassed
            rw [hstint]
            exact hled.further hpassed

/-- Of every entry that is kept, whatever the passes since the operator was started were
answered and whatever happened in between: each pass over it takes it up where the one before
has left it. Once the machine has left its first stage an action is pinned, and until the end
that action stays the same. The machine only goes up its stages, all of them under that action,
but for a finished one whose values have changed, which begins anew with an update. And between
two departures of the machine from its first stage a release is applied at most once. -/
theorem entries_pinned_and_applied_once (h : Visited visits m) (key : String) (e : Entry)
    (hkept : m.lifecycle.find? key = some e) :
    Entry.Life (stints key visits) e ∧ (∀ x ∈ stints key visits, x.Orderly) ∧
      Story.AppliesOnce ((stints key visits).flatMap Stint.story) := by
  have hled := h.led e hkept
  exact ⟨hled.life, hled.orderly, Story.appliesOnce_of_suffixes hled.steady.sparing.ever⟩

/-! ### An application that fails once -/

/-- Answers about the module `web` as it always was, whose release is not there yet. -/
def retried (works : Bool) : (c : Call) → c.Answer
  | .store (.get _ _ _) => .ok (some trialModule)
  | .store (.updateStatus r) => .ok r
  | .helm (.upgradeOrInstall request) =>
    if works then (Contest.wellAnswered .module none .empty (.helm (.upgradeOrInstall request))).1
    else .error (.timedOut "upgrade" 0)
  | c => (Contest.wellAnswered .module none .empty c).1

/-- The same, with what was asked kept. -/
def retelling (works : Bool) (c : Call) : StateM Story c.Answer := fun es =>
  (retried works c, .asked c (retried works c) :: es)

/-- A pass over the module `web`, computed. -/
def retriedPass (works : Bool) (m : Memory) : (Except PassError Outcome × Memory) × Story :=
  ((reconcile trialSetup .module "default" "web").run m).run (retelling works) []

theorem may_retelling (works : Bool) (es : Story) (c : Call) :
    Conduct.unruled.may es c (retelling works c es).1 (retelling works c es).2 :=
  rfl

theorem runs_retriedPass (works : Bool) (m : Memory) :
    Runs Conduct.unruled ((reconcile trialSetup .module "default" "web").run m) []
      (retriedPass works m).1 (retriedPass works m).2 :=
  runs_run (may_retelling works) _ _

/-- The memory after a pass in which the application fails, and after one in which it goes
well. -/
def failedMemory : Memory := (retriedPass false .empty).1.2

def retriedMemory : Memory := (retriedPass true failedMemory).1.2

/-- The two passes, the newest first. -/
def retriedVisits : List Visit :=
  [⟨trialSetup, failedMemory, retriedMemory, (retriedPass true failedMemory).2⟩,
    ⟨trialSetup, .empty, failedMemory, (retriedPass false .empty).2⟩]

theorem visited_retriedVisits : Visited retriedVisits retriedMemory :=
  .pass (.pass .started (runs_retriedPass false .empty)) (runs_retriedPass true failedMemory)

/-- Both passes work on one entry, and the second one applies its release. -/
theorem entries_pinned_and_applied_once_retried :
    Visited retriedVisits retriedMemory ∧ ∃ e,
      retriedMemory.lifecycle.get? (.ofResource trialModule) 1 = some e ∧
      e.stage = .awaitWork ∧ e.action = some .install ∧
      let xs := stints ((ObjectId.ofResource trialModule).key 1) retriedVisits
      (xs.flatMap Stint.story).countP Event.applies = 1 ∧
      Entry.Life xs e ∧ (∀ x ∈ xs, x.Orderly) ∧ Story.AppliesOnce (xs.flatMap Stint.story) := by
  have hend : (retriedMemory.lifecycle.get? (.ofResource trialModule) 1).map
      (fun e => (e.stage, e.action)) = some (.awaitWork, some .install) := by
    decide +kernel
  obtain ⟨e, he, heq⟩ := Option.map_eq_some_iff.1 hend
  obtain ⟨hstage, haction⟩ := Prod.mk.inj heq
  exact ⟨visited_retriedVisits, e, he, hstage, haction, by decide +kernel,
    entries_pinned_and_applied_once visited_retriedVisits _ e he⟩

end ReleaseOperator
