import ReleaseOperator.Proofs.Estate.Runs
import ReleaseOperator.Proofs.Generations

/-!
# One pass after the other

A pass over a module finds a situation: what is stored, and the entry that the memory
has for its generation. It leaves one that the next pass finds again, with the same entry
unless the generation is a new one or the entry is lost.
-/

namespace ReleaseOperator

open InMemory Program Situation

namespace Estate

variable {g : Ground} {trouble : Prop} {setup : Setup} {ns name : String} {x y z : Situation}
  {j : Job} {s s' : Estate} {m m' : Memory}

/-- What a pass over a module finds. -/
structure Views (setup : Setup) (ns name : String) (x : Situation) (m : Memory) (s : Estate) :
    Prop where
  keyed : s.store.Keyed .module
  stored : s.store.get? ns name = some x.resource
  release : s.releases.get? (x.resource.releaseKey setup) = x.release
  entry : x.entry = (m.lifecycle.ensure (.ofResource x.resource) x.resource.generation .start).1
  /-- No generation is remembered that is not there yet. -/
  above : ∀ gen, x.resource.generation < gen →
    m.lifecycle.get? (.ofResource x.resource) gen = none
  tended : x.Tended setup

/-- What a pass finds at first, when nothing is remembered. -/
theorem views_unknown (hacts : setup.dryRun = false) (hkeyed : s.store.Keyed .module)
    (hstored : s.store.get? ns name = some r) (hclass : r.className = setup.className)
    (hstays : r.isDeleting = false) (hgoesOn : r.isTerminal = false)
    (hunknown : ∀ gen, m.lifecycle.get? (.ofResource r) gen = none) :
    Views setup ns name ⟨r, s.releases.get? (r.releaseKey setup), .fresh r.generation .start⟩ m s :=
  ⟨hkeyed, hstored, rfl, by rw [Tracker.ensure_fst, hunknown]; rfl, fun gen _ => hunknown gen,
    hacts, (hkeyed ns name r hstored).1, hclass, hstays, hgoesOn, by simp [Entry.fresh]⟩

/-- A restart forgets the entry and nothing else. -/
theorem Views.restart (h : Views setup ns name x m s) :
    Views setup ns name ⟨x.resource, x.release, .fresh x.resource.generation .start⟩ .empty s := by
  have hviews := views_unknown (m := .empty) h.tended.acts h.keyed h.stored h.tended.className
    h.tended.stays h.tended.goesOn fun _ => rfl
  rw [h.release] at hviews
  exact hviews

theorem Views.unique (h : Views setup ns name x m s) (h' : Views setup ns name y m s) : x = y := by
  obtain ⟨r, release, e⟩ := x
  obtain ⟨r', release', e'⟩ := y
  obtain rfl : r = r' := Option.some.inj (h.stored.symm.trans h'.stored)
  obtain rfl : release = release' := h.release.symm.trans h'.release
  obtain rfl : e = e' := h.entry.trans h'.entry.symm
  rfl

/-- The object stays the same and its generation does not go back. -/
def Follows (r r' : Resource) : Prop :=
  r'.metadata.uid = r.metadata.uid ∧ r.generation ≤ r'.generation

theorem Follows.refl (r : Resource) : Follows r r := ⟨rfl, Int.le_refl _⟩

theorem Follows.trans {r r' r'' : Resource} (h : Follows r r') (h' : Follows r' r'') :
    Follows r r'' :=
  ⟨h'.1.trans h.1, Int.le_trans h.2 h'.2⟩

theorem follows_restated {r r' : Resource} (h : r.Restated r') : Follows r r' := by
  obtain ⟨n, status, rfl⟩ := h
  exact Follows.refl r

theorem follows_rewritten {r w r' : Resource} (h : r.Rewritten w r') : Follows r r' := by
  obtain ⟨n, gen, hle, rfl⟩ := h
  exact ⟨rfl, hle⟩

theorem follows_halt {a : Action} (h : Halt g setup trouble a x y) :
    Follows x.resource y.resource := by
  cases h with
  | hindered time _ => exact Follows.refl _
  | failed _ _ hnoted => exact follows_restated hnoted.restated
  | pin _ _ _ hwritten => exact follows_rewritten hwritten
  | wait _ _ => exact Follows.refl _

theorem follows_advance {a : Action} (h : Advance g setup a x y) :
    Follows x.resource y.resource := by
  cases h with
  | announce time _ hnoted => exact follows_restated hnoted.restated
  | conclude _ hconcluded => exact follows_restated hconcluded.restated
  | _ => exact Follows.refl _

theorem follows_course {a : Action} {requeue : Bool} (h : Course g setup trouble a x requeue y) :
    Follows x.resource y.resource := by
  induction h with
  | finish _ => exact Follows.refl _
  | halt hhalt => exact follows_halt hhalt
  | advance hadvance _ ih => exact (follows_advance hadvance).trans ih

theorem follows_live {requeue : Bool} (h : Live g setup trouble x requeue y) :
    Follows x.resource y.resource := by
  cases h with
  | changed _ _ _ _ hcourse => exact follows_course (x := x.rearmed _) hcourse
  | chosen _ _ _ hcourse => exact follows_course (x := { x with entry := x.entry.pin _ }) hcourse
  | kept _ _ hcourse => exact follows_course hcourse
  | _ => exact Follows.refl _

/-- What a pass leaves is what the next one finds, up to the entry. -/
theorem Views.next (h : Views setup ns name x m s) (hkeyed : s'.store.Keyed .module)
    (hstored : s'.store.get? ns name = some y.resource)
    (hrelease : s'.releases.get? (y.resource.releaseKey setup) = y.release)
    (htended : y.Tended setup) (hfollows : Follows x.resource y.resource)
    (hself : ∀ e, m'.lifecycle.get? (.ofResource x.resource) x.resource.generation = some e →
      e = y.entry)
    (hother : ∀ gen, gen ≠ x.resource.generation → ∀ e,
      m'.lifecycle.get? (.ofResource x.resource) gen = some e →
        m.lifecycle.get? (.ofResource x.resource) gen = some e) :
    ∃ z, Found y x.resource.generation z ∧ Views setup ns name z m' s' := by
  obtain ⟨hkind, hkey⟩ := h.keyed ns name _ h.stored
  obtain ⟨hkind', hkey'⟩ := hkeyed ns name _ hstored
  have hid : ObjectId.ofResource y.resource = .ofResource x.resource :=
    objectId_eq (hkind'.trans hkind.symm) (hkey'.trans hkey.symm) hfollows.1
  have hnone : ∀ gen, x.resource.generation < gen →
      m'.lifecycle.get? (.ofResource x.resource) gen = none := by
    intro gen hgen
    cases hget : m'.lifecycle.get? (.ofResource x.resource) gen with
    | none => rfl
    | some e =>
        have hold := hother gen (by omega) e hget
        rw [h.above gen hgen] at hold
        exact absurd hold (by simp)
  let e := (m'.lifecycle.ensure (.ofResource y.resource) y.resource.generation .start).1
  have he : e = (m'.lifecycle.get? (.ofResource x.resource) y.resource.generation).getD
      (.fresh y.resource.generation .start) := by
    rw [← hid]
    exact Tracker.ensure_fst _ _ _ _
  have hentry : e = y.entry ∧ y.resource.generation = x.resource.generation ∨
      e = .fresh y.resource.generation .start := by
    by_cases hgen : y.resource.generation = x.resource.generation
    · cases hget : m'.lifecycle.get? (.ofResource x.resource) x.resource.generation with
      | none =>
          rw [hgen, hget] at he
          rw [hgen]
          exact Or.inr he
      | some e' =>
          rw [hgen, hget] at he
          exact Or.inl ⟨he.trans (hself e' hget), hgen⟩
    · have hlt : x.resource.generation < y.resource.generation := by
        have hle := hfollows.2
        omega
      rw [hnone _ hlt] at he
      exact Or.inr he
  have haction : e.action ≠ some .delete := by
    rcases hentry with ⟨heq, _⟩ | heq
    · rw [heq]
      exact htended.action
    · rw [heq]
      exact fun hdelete => absurd hdelete (by simp [Entry.fresh])
  refine ⟨⟨y.resource, y.release, e⟩, ⟨rfl, rfl, hentry⟩, hkeyed, hstored, hrelease, rfl, ?_, ?_⟩
  · intro gen hgen
    have hle := hfollows.2
    have habove := hnone gen (Int.lt_of_le_of_lt hle hgen)
    rw [← hid] at habove
    exact habove
  · exact ⟨htended.acts, htended.kind, htended.className, htended.stays, htended.goesOn, haction⟩

/-- A pass that does not come to the work leaves the memory as it is. -/
theorem Views.next_same (h : Views setup ns name x m s) {r : Resource}
    (hkeyed : s'.store.Keyed .module) (hstored : s'.store.get? ns name = some r)
    (hrelease : s'.releases.get? (r.releaseKey setup) = x.release)
    (htended : Situation.Tended setup { x with resource := r }) (hfollows : Follows x.resource r) :
    ∃ z, Found { x with resource := r } x.resource.generation z ∧
      Views setup ns name z m s' := by
  refine h.next hkeyed hstored hrelease htended hfollows ?_ fun _ _ _ hget => hget
  intro e hget
  have hentry := h.entry
  rw [Tracker.ensure_fst, hget] at hentry
  exact hentry.symm

theorem Views.at (h : Views setup ns name x m s) :
    At setup ns name x (.start setup x.resource x.entry) s :=
  ⟨h.keyed, h.stored, h.release, rfl, h.tended⟩

/-- A pass that works on the module records the entry. -/
theorem Views.live (h : Views setup ns name x m s) :
    AlwaysFrom (conduct g trouble) (Reconcile.live setup x.resource) m s fun o m' s' =>
      (o.requeue = false → o = .done) ∧ ∃ y z, Live g setup trouble x o.requeue y ∧
        Found y x.resource.generation z ∧ Views setup ns name z m' s' := by
  rw [Reconcile.always_live]
  dsimp only
  rw [← h.entry]
  refine h.at.live.mono ?_
  rintro o j s' ⟨ho, y, hlive, hleft⟩
  have hfollows := follows_live hlive
  refine ⟨ho, y, ?_⟩
  let m' : Memory := ⟨(m.lifecycle.ensure (.ofResource x.resource) x.resource.generation
    .start).2.record (.ofResource x.resource) x.resource.generation j.entry, m.deletion⟩
  have hself : ∀ e, m'.lifecycle.get? (.ofResource x.resource) x.resource.generation = some e →
      e = y.entry := by
    intro e hget
    rw [← hleft.entry]
    exact Tracker.get?_record_self hget
  have hother : ∀ gen, gen ≠ x.resource.generation → ∀ e,
      m'.lifecycle.get? (.ofResource x.resource) gen = some e →
        m.lifecycle.get? (.ofResource x.resource) gen = some e := by
    intro gen hgen e hget
    rw [Tracker.get?_record_of_ne hgen] at hget
    exact Tracker.get?_of_get?_ensure hgen hget
  obtain ⟨z, hfound, hz⟩ :=
    h.next hleft.keyed hleft.stored hleft.release hleft.tended hfollows hself hother
  exact ⟨z, hlive, hfound, hz⟩

/-- A pass has gone through a module, and has left what the next pass finds. -/
def Passed (g : Ground) (setup : Setup) (ns name : String) (trouble : Prop) (x : Situation)
    (result : Except PassError Outcome) (m : Memory) (s : Estate) : Prop :=
  ∃ o y z, result = .ok o ∧ (o.requeue = false → o = .done) ∧
    Through g setup trouble x o.requeue y ∧ Found y x.resource.generation z ∧
    Views setup ns name z m s

theorem passed_requeue {o : Outcome} (ho : o.requeue = true)
    (hthrough : Through g setup trouble x true y) (hfound : Found y x.resource.generation z)
    (hz : Views setup ns name z m s) : Passed g setup ns name trouble x (.ok o) m s := by
  refine ⟨o, y, z, rfl, ?_, ?_, hfound, hz⟩
  · rw [ho]
    exact fun hno => absurd hno.symm Bool.false_ne_true
  · rw [ho]
    exact hthrough

theorem Views.hindered {o : Outcome} (h : Views setup ns name x m s) (ht : trouble)
    (ho : o.requeue = true) : Passed g setup ns name trouble x (.ok o) m s := by
  obtain ⟨z, hfound, hz⟩ := h.next_same h.keyed h.stored h.release h.tended (Follows.refl _)
  exact passed_requeue ho (.hindered ht) hfound hz

/-- With the finalizer on, a pass asks to come back. -/
theorem Views.hold {r : Resource} (h : Views setup ns name x m s)
    (hno : x.resource.hasFinalizer = false)
    (hwritten : x.resource.Rewritten x.resource.addFinalizer r)
    (hkeyed : s'.store.Keyed .module) (hstored : s'.store.get? ns name = some r)
    (hreleases : s'.releases = s.releases) :
    Always (conduct g trouble) Pass.shortDelay s' fun o =>
      Passed g setup ns name trouble x (.ok o) m := by
  have hr : x.resource.Alike r := (Resource.Rewritten.alike hwritten).1
  have hrelease : s'.releases.get? (r.releaseKey setup) = x.release := by
    rw [hreleases, hr.releaseKey]
    exact h.release
  obtain ⟨z, hfound, hz⟩ := h.next_same hkeyed hstored hrelease
    (tended_rewritten h.tended hwritten hr.kind hr.className) (follows_rewritten hwritten)
  refine always_delay.mono ?_
  rintro o s'' ⟨ho, rfl⟩
  exact passed_requeue ho (.hold hno hwritten) hfound hz

/-- A pass over a module goes through it, and leaves what the next pass finds. -/
theorem Views.reconcile (h : Views setup ns name x m s) :
    AlwaysFrom (conduct g trouble) (reconcile setup .module ns name) m s
      (Passed g setup ns name trouble x) := by
  rw [always_reconcile]
  rintro answer s₁ ⟨hreleases, hstore, hanswer⟩
  obtain rfl : s₁ = s := Estate.ext hstore hreleases
  rw [h.stored] at hanswer
  rcases hanswer with rfl | ⟨ht, e, rfl⟩
  · dsimp only
    rw [if_neg fun hne => hne h.tended.className, Reconcile.always_found, h.tended.stays,
      h.tended.goesOn, if_neg Bool.false_ne_true, if_neg Bool.false_ne_true,
      Pass.always_ensureFinalizer]
    cases hfinalizer : x.resource.hasFinalizer with
    | true =>
        rw [if_pos rfl]
        refine h.live.mono ?_
        rintro o m' s' ⟨ho, y, z, hlive, hfound, hz⟩
        exact ⟨o, y, z, rfl, ho, .live hfinalizer hlive, hfound, hz⟩
    | false =>
        rw [if_neg Bool.false_ne_true]
        obtain ⟨hkind, hkey⟩ := h.keyed ns name _ h.stored
        have hwkey : Store.keyOf x.resource.addFinalizer = (ns, name) :=
          x.resource.key_addFinalizer.trans hkey
        have hwkind : x.resource.addFinalizer.kind = .module :=
          x.resource.kind_addFinalizer.trans hkind
        have hwrev : x.resource.addFinalizer.metadata.resourceVersion =
            x.resource.metadata.resourceVersion := by
          unfold Resource.addFinalizer
          split
          · rfl
          · rfl
        refine (h.at.persistResource hwkind hwkey hwrev).mono ?_
        rintro ⟨o, r⟩ s' (⟨ho, ht, rfl⟩ | ⟨rfl, hwritten, hkeyed, hstored, hreleases'⟩)
        · dsimp only at ho ⊢
          rw [if_pos ho]
          exact h.hindered ht ho
        · exact h.hold hfinalizer hwritten hkeyed hstored hreleases'
  · refine (always_delayWith _).mono ?_
    rintro o s' ⟨ho, rfl⟩
    exact h.hindered ht ho

/-! ### Passes that stall -/

/-- A number of passes on which no release comes to be ready. -/
def stalledPasses (g : Ground) (setup : Setup) (ns name : String) :
    Nat → Memory × Estate → Memory × Estate
  | 0, ms => ms
  | n + 1, ms =>
    let (m, s) := stalledPasses g setup ns name n ms
    let (result, s') := ((ReleaseOperator.reconcile setup .module ns name).run m).run
      (answer g false) s
    (result.2, s')

theorem runs_stalledPasses (g : Ground) (setup : Setup) (ns name : String) (n : Nat)
    (ms : Memory × Estate) :
    ∃ result, Runs (conduct g True)
      ((ReleaseOperator.reconcile setup .module ns name).run (stalledPasses g setup ns name n ms).1)
      (stalledPasses g setup ns name n ms).2
      (result, (stalledPasses g setup ns name (n + 1) ms).1)
      (stalledPasses g setup ns name (n + 1) ms).2 :=
  ⟨_, runs_run (answered_answer g (Or.inr trivial)) _ _⟩

end Estate

end ReleaseOperator
