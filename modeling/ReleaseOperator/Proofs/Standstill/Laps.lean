import ReleaseOperator.Proofs.Generations
import ReleaseOperator.Proofs.Standstill.Runs
import ReleaseOperator.Proofs.Pinning.Lives

/-!
# A stuck resource stops writing

A pass over a resource may end at the stage of its machine at which it began, with the work of
that stage failing, or not done yet. As long as that goes on with the same replies, only the
first pass that gets to the work may write; all later ones leave the store as it is. So the
events that writes lead to cannot keep such a resource going round.
-/

namespace ReleaseOperator

/-!
## What a pass does where it is stuck

A pass passes a resource over, puts the finalizer on it, or does the work that is due under the
entry of the resource. Only the last one goes through a stage, so it is the only one that may
have something to record; the finalizer is put on once.
-/

open InMemory Program

/-! ### Slots -/

/-- Where the entry of a resource is kept: in the tracker for those that live or for those that
are being deleted, and for which generation of which object. -/
structure Slot where
  deleting : Bool
  id : ObjectId
  generation : Int
  deriving DecidableEq

namespace Memory

/-- The entry in a slot. -/
def slot? (m : Memory) (x : Slot) : Option Entry :=
  (if x.deleting then m.deletion else m.lifecycle).get? x.id x.generation

/-- The entry that a pass takes up, a new one if there is none. -/
def taken (m : Memory) (x : Slot) : Entry :=
  (m.slot? x).getD (.fresh x.generation .start)

theorem taken_of_slot? {m : Memory} {x : Slot} {e : Entry} (h : m.slot? x = some e) :
    m.taken x = e := by
  rw [taken, h]
  rfl

end Memory

namespace Resource

/-- The slot of the entry of a resource. -/
def slot (r : Resource) : Slot := ⟨r.isDeleting, .ofResource r, r.generation⟩

/-- Whether the work of a resource is done here, and now. -/
def isServed (setup : Setup) (r : Resource) : Bool :=
  r.className = setup.className && r.hasFinalizer && (r.isDeleting || !r.isTerminal)

/-- Whether the work of a resource would be done here, had it its finalizer. -/
def awaitsFinalizer (setup : Setup) (r : Resource) : Bool :=
  r.className = setup.className && !r.hasFinalizer && !r.isDeleting && !r.isTerminal

variable {setup : Setup} {r r' : Resource}

/-- Another status does not take the finalizer away. -/
theorem Restated.awaitsFinalizer (h : r.Restated r') (hserved : r.isServed setup = true) :
    r'.awaitsFinalizer setup = false := by
  obtain ⟨n, status, rfl⟩ := h
  simp only [isServed, Bool.and_eq_true] at hserved
  have hfinalizer : Resource.hasFinalizer
      ⟨{ r.metadata with resourceVersion := n }, r.spec, status⟩ = true := hserved.1.2
  simp [Resource.awaitsFinalizer, hfinalizer]

/-- A resource that got its finalizer is served. -/
theorem isServed_merged_addFinalizer (h : r.awaitsFinalizer setup = true) (s : Store) :
    (s.merged r r.addFinalizer).isServed setup = true := by
  simp only [awaitsFinalizer, Bool.and_eq_true, Bool.not_eq_true', decide_eq_true_eq] at h
  obtain ⟨⟨⟨hclass, hbare⟩, hlives⟩, hgoesOn⟩ := h
  have hadd : r.addFinalizer = r.setFinalizers (r.finalizers ++ [r.kind.finalizer]) :=
    if_neg (by rw [hbare]; exact Bool.false_ne_true)
  have hfinalizer : (s.merged r r.addFinalizer).hasFinalizer = true := by
    rw [hadd]
    simp [Store.merged, Resource.hasFinalizer, Resource.finalizers, Resource.kind,
      Store.withRevision, Store.withGeneration, copyStatus, setFinalizers]
  have hsame : (s.merged r r.addFinalizer).className = r.className ∧
      (s.merged r r.addFinalizer).isTerminal = r.isTerminal := by
    rw [hadd]
    exact ⟨rfl, rfl⟩
  simp [isServed, hfinalizer, hsame.1, hsame.2, hclass, hgoesOn]

end Resource

/-! ### Passes -/

section Passes

variable {replies : Replies} {kind : Kind} {ns name : String} {setup : Setup} {m : Memory}
  {r : Resource} {s : Dialogue} {post : Memory → Dialogue → Prop}

/-- A pass reads the resource that is stored. -/
theorem always_reconcile_of_stored (hr : s.store.get? ns name = some r)
    (hother : r.className ≠ setup.className → post m s)
    (hfound : r.className = setup.className →
      AlwaysFrom (Dialogue.conduct replies) (Reconcile.found setup r) m s fun _ => post) :
    AlwaysFrom (Dialogue.conduct replies) (reconcile setup kind ns name) m s fun _ => post := by
  rw [always_reconcile]
  rintro a ⟨store, asked⟩ ⟨⟨hsame, hanswer⟩, hasked⟩
  obtain rfl : store = s.store := hsame
  obtain rfl : asked = s.asked := hasked
  obtain rfl : a = .ok (s.store.get? ns name) := hanswer.resolve_right fun h => h.1
  rw [hr]
  dsimp only
  split
  · rename_i hclass
    exact hother hclass
  · rename_i hclass
    exact hfound (Decidable.not_not.1 hclass)

/-- A resource that is not to be worked on is passed over. -/
theorem always_reconcile_idle (hr : s.store.get? ns name = some r)
    (hserved : r.isServed setup = false) (hawaits : r.awaitsFinalizer setup = false) :
    AlwaysFrom (Dialogue.conduct replies) (reconcile setup kind ns name) m s fun _ _ t =>
      t.store = s.store := by
  refine always_reconcile_of_stored hr (fun _ => rfl) fun hclass => ?_
  rw [Reconcile.always_found]
  simp only [Resource.isServed, Resource.awaitsFinalizer, hclass, decide_true, Bool.true_and]
    at hserved hawaits
  cases hdeleting : r.isDeleting with
  | true =>
      rw [if_pos rfl, Reconcile.always_clear]
      have hbare : r.hasFinalizer = false := by simpa [hdeleting] using hserved
      rw [hbare, if_neg Bool.false_ne_true]
  | false =>
      rw [if_neg Bool.false_ne_true]
      have hterminal : r.isTerminal = true := by
        rw [hdeleting] at hserved hawaits
        revert hserved hawaits
        cases r.isTerminal <;> cases r.hasFinalizer <;> decide
      rw [hterminal, if_pos rfl]

/-- A resource that lacks its finalizer gets it, and nothing else. -/
theorem always_reconcile_awaiting (hkeyed : s.store.Keyed kind)
    (hr : s.store.get? ns name = some r) (hawaits : r.awaitsFinalizer setup = true) :
    AlwaysFrom (Dialogue.conduct replies) (reconcile setup kind ns name) m s fun _ m' t =>
      m' = m ∧ t.store.get? ns name = some (s.store.merged r r.addFinalizer) := by
  simp only [Resource.awaitsFinalizer, Bool.and_eq_true, Bool.not_eq_true', decide_eq_true_eq]
    at hawaits
  obtain ⟨⟨⟨hclass, hbare⟩, hlives⟩, hgoesOn⟩ := hawaits
  refine always_reconcile_of_stored hr (fun hother => absurd hclass hother) fun _ => ?_
  rw [Reconcile.always_found, hlives, if_neg Bool.false_ne_true, hgoesOn,
    if_neg Bool.false_ne_true, Pass.always_ensureFinalizer, hbare, if_neg Bool.false_ne_true]
  obtain ⟨hkind, hkey⟩ := hkeyed ns name r hr
  have hrev : r.addFinalizer.metadata.resourceVersion = r.metadata.resourceVersion := by
    rw [Resource.addFinalizer, hbare]
    rfl
  refine (Dialogue.always_persistResource hkeyed hr (r.kind_addFinalizer.trans hkind)
    (r.key_addFinalizer.trans hkey) hrev).mono ?_
  rintro ⟨o, new⟩ t ⟨rfl, _, rfl, hget⟩
  have hstored : t.store.get? ns name = some (s.store.merged r r.addFinalizer) := by
    refine hget.resolve_right fun hgone => ?_
    have hdeleting : (s.store.merged r r.addFinalizer).isDeleting = r.isDeleting := rfl
    rw [hdeleting, hlives] at hgone
    exact Bool.false_ne_true hgone.2.1
  change Always (Dialogue.conduct replies) Pass.shortDelay t _
  exact (Dialogue.always_quiet Pass.quiet_shortDelay).mono fun _ _ hsame =>
    ⟨rfl, hsame ▸ hstored⟩

/-- The entry of a resource that is served is taken up, and kept as its work leaves it, if it is
kept at all. -/
theorem always_reconcile_served (hr : s.store.get? ns name = some r)
    (hserved : r.isServed setup = true)
    (hwork : AlwaysFrom (Dialogue.conduct replies) (Work.tend setup r.isDeleting)
      (.start setup r (m.taken r.slot)) s fun _ j t =>
        ∀ m', (∀ e, m'.slot? r.slot = some e → e = j.entry) → post m' t) :
    AlwaysFrom (Dialogue.conduct replies) (reconcile setup kind ns name) m s fun _ => post := by
  simp only [Resource.isServed, Bool.and_eq_true, decide_eq_true_eq] at hserved
  obtain ⟨⟨hclass, hfinalizer⟩, hgoesOn⟩ := hserved
  refine always_reconcile_of_stored hr (fun hother => absurd hclass hother) fun _ => ?_
  have htaken : m.taken r.slot = ((if r.isDeleting then m.deletion else m.lifecycle).ensure
      (.ofResource r) r.generation .start).1 := by
    rw [Tracker.ensure_fst]
    rfl
  rw [htaken] at hwork
  rw [Reconcile.always_found]
  cases hdeleting : r.isDeleting with
  | true =>
      rw [hdeleting, if_pos rfl] at hwork
      rw [if_pos rfl, Reconcile.always_clear, hfinalizer, if_pos rfl]
      have hclear := (alwaysFrom_map (Work.clear setup) Prod.snd _).1 hwork
      refine hclear.mono ?_
      rintro ⟨forget, o⟩ j t hpost
      refine hpost _ fun e he => ?_
      rw [Memory.slot?, show r.slot.deleting = true from hdeleting, if_pos rfl] at he
      cases forget with
      | true => exact Tracker.get?_record_self (Tracker.find?_dropUnder he)
      | false => exact Tracker.get?_record_self he
  | false =>
      rw [hdeleting, Bool.false_or, Bool.not_eq_true'] at hgoesOn
      rw [hdeleting, if_neg Bool.false_ne_true] at hwork
      rw [if_neg Bool.false_ne_true, hgoesOn, if_neg Bool.false_ne_true,
        Pass.always_ensureFinalizer, if_pos hfinalizer]
      dsimp only
      rw [Reconcile.always_live]
      have hlive : AlwaysFrom _ (Work.live setup) _ s _ := hwork
      refine hlive.mono ?_
      intro o j t hpost
      refine hpost _ fun e he => ?_
      rw [Memory.slot?, show r.slot.deleting = false from hdeleting, if_neg Bool.false_ne_true]
        at he
      exact Tracker.get?_record_self he

end Passes

/-! ## Laps -/

/-- A pass over a resource that begins and ends with the entry in a slot at a stage, from what is
remembered and stored before it to what is afterwards. -/
structure Lap (replies : Replies) (setup : Setup) (kind : Kind) (ns name : String) (x : Slot)
    (st : Stage) (v w : Memory × Store) : Prop where
  keyed : v.2.Keyed kind
  begins : ∃ r, v.2.get? ns name = some r ∧ r.slot = x
  begun : (v.1.taken x).stage = st
  run : ∃ result asked, Runs (Dialogue.conduct replies) ((reconcile setup kind ns name).run v.1)
    ⟨v.2, []⟩ (result, w.1) ⟨w.2, asked⟩
  ended : ∃ e, w.1.slot? x = some e ∧ e.stage = st

/-- What may happen between two passes over a resource: neither the resource nor the entry in the
slot is touched. -/
structure Besides (ns name : String) (x : Slot) (w v : Memory × Store) : Prop where
  stored : v.2.get? ns name = w.2.get? ns name
  entry : v.1.slot? x = w.1.slot? x

variable {replies : Replies} {setup : Setup} {kind : Kind} {ns name : String} {x : Slot}
  {st : Stage} {v w v' w' : Memory × Store} {r r' : Resource} {a : Action}

namespace Lap

/-- What holds after every pass holds after a lap. -/
theorem of_always (h : Lap replies setup kind ns name x st v w) {post : Memory → Dialogue → Prop}
    (hpass : AlwaysFrom (Dialogue.conduct replies) (reconcile setup kind ns name) v.1 ⟨v.2, []⟩
      fun _ => post) : ∃ asked, post w.1 ⟨w.2, asked⟩ := by
  obtain ⟨result, asked, hrun⟩ := h.run
  exact ⟨asked, always_iff_runs.1 hpass _ _ hrun⟩

theorem slot_eq (h : Lap replies setup kind ns name x st v w) (hr : v.2.get? ns name = some r) :
    r.slot = x := by
  obtain ⟨r', hr', hslot⟩ := h.begins
  obtain rfl := Option.some.inj (hr.symm.trans hr')
  exact hslot

theorem store_idle (h : Lap replies setup kind ns name x st v w)
    (hr : v.2.get? ns name = some r) (hserved : r.isServed setup = false)
    (hawaits : r.awaitsFinalizer setup = false) : w.2 = v.2 :=
  (h.of_always (always_reconcile_idle (s := ⟨v.2, []⟩) hr hserved hawaits)).elim
    fun _ hsame => hsame

theorem awaiting (h : Lap replies setup kind ns name x st v w) (hr : v.2.get? ns name = some r)
    (hawaits : r.awaitsFinalizer setup = true) :
    w.1 = v.1 ∧ w.2.get? ns name = some (v.2.merged r r.addFinalizer) :=
  (h.of_always (always_reconcile_awaiting (s := ⟨v.2, []⟩) h.keyed hr hawaits)).elim
    fun _ hpost => hpost

/-- A lap over a resource that is served is its work, from the stage to the stage. -/
theorem of_tend (h : Lap replies setup kind ns name x st v w) (hr : v.2.get? ns name = some r)
    (hserved : r.isServed setup = true) (post : Entry → Dialogue → Prop)
    (hwork : AlwaysFrom (Dialogue.conduct replies) (Work.tend setup x.deleting)
      (.start setup r (v.1.taken x)) ⟨v.2, []⟩ fun _ j t => j.entry.stage = st → post j.entry t) :
    ∃ e asked, w.1.slot? x = some e ∧ e.stage = st ∧ post e ⟨w.2, asked⟩ := by
  obtain rfl := h.slot_eq hr
  obtain ⟨e, he, hst⟩ := h.ended
  have hpass : AlwaysFrom (Dialogue.conduct replies) (reconcile setup kind ns name) v.1 ⟨v.2, []⟩
      fun _ m' t => ∀ e, m'.slot? r.slot = some e → e.stage = st → post e t := by
    refine always_reconcile_served hr hserved (hwork.mono ?_)
    intro _ j t hstopped m' hkept e he hst
    obtain rfl := hkept e he
    exact hstopped hst
  obtain ⟨asked, hpost⟩ := h.of_always hpass
  exact ⟨e, asked, he, hst, hpost e he hst⟩

/-- At the first stage nothing is written. -/
theorem store_start (h : Lap replies setup kind ns name x .start v w)
    (hr : v.2.get? ns name = some r) (hserved : r.isServed setup = true) : w.2 = v.2 := by
  have hwork : AlwaysFrom (Dialogue.conduct replies) (Work.tend setup x.deleting)
      (.start setup r (v.1.taken x)) ⟨v.2, []⟩ fun _ j t =>
        j.entry.stage = .start → t.store = v.2 :=
    Work.always_tend_start setup x.deleting h.begun _
  obtain ⟨_, _, _, _, hsame⟩ := h.of_tend hr hserved (fun _ t => t.store = v.2) hwork
  exact hsame

/-- The entry keeps its action, and the resource is but restated. -/
theorem leaves (h : Lap replies setup kind ns name x st v w) (hnames : replies.NamesVersions)
    (hst : st ≠ .finish) (hr : v.2.get? ns name = some r) (hserved : r.isServed setup = true)
    (hdue : Work.due? x.deleting (v.1.taken x) = some a) :
    ∃ e, w.1.slot? x = some e ∧ e.stage = st ∧ Work.due? x.deleting e = some a ∧
      ∀ new, w.2.get? ns name = some new → new.slot = x → r.Restated new := by
  have hwork : AlwaysFrom (Dialogue.conduct replies) (Work.tend setup x.deleting)
      (.start setup r (v.1.taken x)) ⟨v.2, []⟩ fun _ j t => j.entry.stage = st →
        Work.Leaves kind ns name r (v.1.taken x).action j.entry t :=
    Work.always_tend_leaves hnames hdue hst h.begun h.keyed hr
  obtain ⟨e, _, he, hstage, hleaves⟩ := h.of_tend hr hserved _ hwork
  refine ⟨e, he, hstage, ?_, fun new hnew hslot => hleaves.restated new hnew ?_⟩
  · rw [← hdue, Work.due?, Work.due?, hleaves.action]
  · exact (congrArg Slot.generation hslot).trans (congrArg Slot.generation (h.slot_eq hr)).symm

/-- The second of two laps in which the work is done writes nothing. -/
theorem store_again (first : Lap replies setup kind ns name x st v w)
    (between : Besides ns name x w v') (second : Lap replies setup kind ns name x st v' w')
    (hnames : replies.NamesVersions) (hst : st ≠ .finish) (hr : v.2.get? ns name = some r)
    (hserved : r.isServed setup = true) (hr' : v'.2.get? ns name = some r')
    (hserved' : r'.isServed setup = true)
    (hdue : Work.due? x.deleting (v.1.taken x) = some a) : w'.2 = v'.2 := by
  obtain ⟨e, he, _, hdue', hrestated⟩ := first.leaves hnames hst hr hserved hdue
  have hleft : w.2.get? ns name = some r' := between.stored.symm.trans hr'
  rw [← Memory.taken_of_slot? (between.entry.trans he)] at hdue'
  have hecho : Echo kind ns name v.2 v'.2 (.start setup r (v.1.taken x))
      (.start setup r' (v'.1.taken x)) := by
    have hagain := hrestated r' hleft (second.slot_eq hr')
    exact ⟨first.keyed, hr, second.keyed, hr', hagain, hagain.release setup.defaults⟩
  -- What the first run leaves says how every second one ends.
  obtain ⟨_, _, _, _, hthen⟩ := first.of_tend hr hserved
    (fun _ t => t.store.get? ns name = some r' →
      AlwaysFrom (Dialogue.conduct replies) (Work.tend setup x.deleting)
        (.start setup r' (v'.1.taken x)) ⟨v'.2, []⟩ fun _ j' t' =>
          j'.entry.stage = st → t'.store = v'.2)
    (Work.always_tend_twice hecho hnames hdue hdue' hst first.begun second.begun rfl rfl rfl)
  obtain ⟨_, _, _, _, hsame⟩ := second.of_tend hr' hserved' (fun _ t => t.store = v'.2)
    (hthen hleft)
  exact hsame

end Lap

/-- The pass that begins here has no finalizer to put on, and if the machine has left its first
stage, the action that is due is known. -/
def Ready (setup : Setup) (ns name : String) (x : Slot) (st : Stage) (v : Memory × Store) : Prop :=
  ∃ r, v.2.get? ns name = some r ∧ r.awaitsFinalizer setup = false ∧
    (r.isServed setup = true → st ≠ .start → ∃ a, Work.due? x.deleting (v.1.taken x) = some a)

/-- One lap after another: the second one writes nothing, and one more may follow. -/
theorem Ready.next (h : Ready setup ns name x st v)
    (first : Lap replies setup kind ns name x st v w) (between : Besides ns name x w v')
    (second : Lap replies setup kind ns name x st v' w') (hnames : replies.NamesVersions)
    (hst : st ≠ .finish) : Ready setup ns name x st v' ∧ w'.2 = v'.2 := by
  obtain ⟨r, hr, hawaits, hdue⟩ := h
  obtain ⟨r', hr', _⟩ := second.begins
  have hsame : w.2 = v.2 → r' = r := fun hw =>
    Option.some.inj ((between.stored.symm.trans hr').symm.trans (hw ▸ hr))
  cases hserved : r.isServed setup with
  | false =>
      obtain rfl := hsame (first.store_idle hr hserved hawaits)
      refine ⟨⟨r', hr', hawaits, fun hyes => ?_⟩, second.store_idle hr' hserved hawaits⟩
      rw [hserved] at hyes
      cases hyes
  | true =>
      by_cases hstart : st = .start
      · subst hstart
        obtain rfl := hsame (first.store_start hr hserved)
        exact ⟨⟨r', hr', hawaits, fun _ hno => absurd rfl hno⟩, second.store_start hr' hserved⟩
      · obtain ⟨a, hdue⟩ := hdue hserved hstart
        obtain ⟨e, he, _, hdue', hrestated⟩ := first.leaves hnames hst hr hserved hdue
        have hawaits' : r'.awaitsFinalizer setup = false :=
          (hrestated r' (between.stored.symm.trans hr') (second.slot_eq hr')).awaitsFinalizer
            hserved
        rw [← Memory.taken_of_slot? (between.entry.trans he)] at hdue'
        refine ⟨⟨r', hr', hawaits', fun _ _ => ⟨a, hdue'⟩⟩, ?_⟩
        cases hserved' : r'.isServed setup with
        | true => exact first.store_again between second hnames hst hr hserved hr' hserved' hdue
        | false => exact second.store_idle hr' hserved' hawaits'

/-- What the passes of one process have led to: where the machine has left its first stage, the
action that is due is known. -/
theorem due_of_visited {visits : List Visit} {m : Memory} (h : Visited visits m)
    (hst : (m.taken x).stage ≠ .start) : ∃ a, Work.due? x.deleting (m.taken x) = some a := by
  obtain ⟨deleting, id, generation⟩ := x
  cases deleting with
  | true => exact ⟨.delete, rfl⟩
  | false =>
      cases he : m.lifecycle.get? id generation with
      | none =>
          have htaken : m.taken ⟨false, id, generation⟩ = .fresh generation .start := by
            rw [Memory.taken, Memory.slot?, if_neg Bool.false_ne_true, he]
            rfl
          rw [htaken] at hst
          exact absurd rfl hst
      | some e =>
          have hslot : m.slot? ⟨false, id, generation⟩ = some e := he
          rw [Memory.taken_of_slot? hslot] at hst ⊢
          exact (h.led e he).steady.pinned hst

section Rows

variable {n : Nat} {v w : Nat → Memory × Store}

/-- By induction on the number of laps: each one begins where nothing has to be put on the
resource, so each one after the first writes nothing. -/
theorem Ready.lasts {k : Nat} (h : Ready setup ns name x st (v k))
    (hlaps : ∀ i ≤ n, Lap replies setup kind ns name x st (v i) (w i))
    (hbetween : ∀ i < n, Besides ns name x (w i) (v (i + 1))) (hnames : replies.NamesVersions)
    (hst : st ≠ .finish) {i : Nat} (hi : k ≤ i) (hin : i ≤ n) :
    Ready setup ns name x st (v i) ∧ (k < i → (w i).2 = (v i).2) := by
  induction i, hi using Nat.le_induction with
  | base => exact ⟨h, fun hlt => absurd hlt (Nat.lt_irrefl k)⟩
  | succ i hi ih =>
      obtain ⟨hready, _⟩ := ih (Nat.le_of_succ_le hin)
      obtain ⟨hready', hsame⟩ := hready.next (hlaps i (Nat.le_of_succ_le hin)) (hbetween i hin)
        (hlaps (i + 1) hin) hnames hst
      exact ⟨hready', fun _ => hsame⟩

/-- A row of passes over a resource, each of which begins and ends with the machine of the same
entry at the same stage, short of the end, while Helm, the cluster and the class reply alike in
all of them, the store takes every write, no version of a chart is blank and nobody else touches
the resource or its entry. If the resource only lacks its finalizer, the first pass puts it on
and does nothing else, and none after the second one writes. Otherwise none after the first one
writes. -/
theorem stuck_writes_once {visits : List Visit} (hnames : replies.NamesVersions)
    (hvisited : Visited visits (v 0).1) (hst : st ≠ .finish)
    (hlaps : ∀ i ≤ n, Lap replies setup kind ns name x st (v i) (w i))
    (hbetween : ∀ i < n, Besides ns name x (w i) (v (i + 1)))
    (hr : (v 0).2.get? ns name = some r) :
    (r.awaitsFinalizer setup = false → ∀ i, 0 < i → i ≤ n → (w i).2 = (v i).2) ∧
      (r.awaitsFinalizer setup = true →
        (w 0).2.get? ns name = some ((v 0).2.merged r r.addFinalizer) ∧
          ∀ i, 1 < i → i ≤ n → (w i).2 = (v i).2) := by
  have first := hlaps 0 (Nat.zero_le n)
  have hdue : st ≠ .start → ∃ a, Work.due? x.deleting ((v 0).1.taken x) = some a :=
    fun hstart => due_of_visited hvisited (first.begun.symm ▸ hstart)
  refine ⟨fun hawaits i hi hin => ?_, fun hawaits => ?_⟩
  · have hready : Ready setup ns name x st (v 0) := ⟨r, hr, hawaits, fun _ => hdue⟩
    exact (hready.lasts hlaps hbetween hnames hst (Nat.zero_le i) hin).2 hi
  · obtain ⟨hmemory, hput⟩ := first.awaiting hr hawaits
    refine ⟨hput, fun i hi hin => ?_⟩
    have hbeside := hbetween 0 (by omega)
    have hready : Ready setup ns name x st (v 1) := by
      refine ⟨_, hbeside.stored.trans hput, ?_, fun _ hstart => ?_⟩
      · have hserved := Resource.isServed_merged_addFinalizer hawaits (v 0).2
        exact (Resource.Restated.refl _).awaitsFinalizer hserved
      · have htaken : (v 1).1.taken x = (v 0).1.taken x := by
          rw [Memory.taken, Memory.taken, hbeside.entry, hmemory]
        rw [htaken]
        exact hdue hstart
    exact (hready.lasts hlaps hbetween hnames hst (Nat.le_of_lt hi) hin).2 hi

end Rows

/-! ### A module that is stuck -/

/-- Helm knows of no release of the module `web` and cannot apply one. -/
def stalled : Replies
  | _, .helm (.chartVersion _ _) => .ok "0.1.0"
  | _, c => retried false c

theorem namesVersions_stalled : stalled.NamesVersions := by
  rintro _ _ _ _ ⟨⟩
  decide

namespace Dialogue

/-- Answers to all calls, with such replies. -/
def tell (replies : Replies) : (c : Call) → StateM Dialogue c.Answer
  | .store (.get _ ns name) => fun s => (.ok (s.store.get? ns name), s)
  | .store (.update r) => fun s => ((s.store.update r).1, ⟨(s.store.update r).2, s.asked⟩)
  | .store (.updateStatus r) => fun s =>
    ((s.store.updateStatus r).1, ⟨(s.store.updateStatus r).2, s.asked⟩)
  | .now => fun s => ("", s)
  | .draw low _ ordered => fun s => (⟨low, Pass.low_mem_draw ordered⟩, s)
  | .count _ => fun s => ((), s)
  | c => fun s => (replies s.asked c, ⟨s.store, c :: s.asked⟩)

theorem may_tell (replies : Replies) (s : Dialogue) (c : Call) :
    (conduct replies).may s c (tell replies c s).1 (tell replies c s).2 := by
  rcases c with (_ | _ | _) | _ | _ | _ | _ | _ | _
  case store.get => exact ⟨⟨rfl, Or.inl rfl⟩, rfl⟩
  case store.update | store.updateStatus => exact ⟨Or.inl rfl, rfl⟩
  case now | draw | count => rfl
  all_goals exact ⟨rfl, rfl⟩

end Dialogue

/-- A pass over the module `web`, computed. -/
def stalledPass (v : Memory × Store) : (Except PassError Outcome × Memory) × Dialogue :=
  ((reconcile trialSetup .module "default" "web").run v.1).run (Dialogue.tell stalled) ⟨v.2, []⟩

def stalledAfter (v : Memory × Store) : Memory × Store :=
  ((stalledPass v).1.2, (stalledPass v).2.store)

/-- Passes over the module, one right after the other, once its installation has failed. -/
def stalledRow (r : Resource) : Nat → Memory × Store
  | 0 => (failedMemory, trialStore r)
  | n + 1 => stalledAfter (stalledRow r n)

/-- Whether a pass over the module begins and ends at its work. -/
def stalls (v : Memory × Store) : Bool :=
  (v.2.objects.all fun kv => kv.2.kind = .module && Store.keyOf kv.2 = kv.1) &&
    (v.2.get? "default" "web").any (fun r => r.slot = trialModule.slot) &&
    (v.1.taken trialModule.slot).stage = .work &&
    ((stalledAfter v).1.slot? trialModule.slot).any fun e => e.stage = .work

theorem lap_of_stalls {v : Memory × Store} (h : stalls v = true) :
    Lap stalled trialSetup .module "default" "web" trialModule.slot .work v (stalledAfter v) := by
  simp only [stalls, Bool.and_eq_true, List.all_eq_true, Option.any_eq_true, decide_eq_true_eq]
    at h
  obtain ⟨⟨⟨hkeyed, hbegins⟩, hbegun⟩, hended⟩ := h
  exact ⟨fun ns name r hr => hkeyed ((ns, name), r) (Table.mem_of_get? hr), hbegins, hbegun,
    ⟨_, _, runs_run (Dialogue.may_tell stalled) _ _⟩, hended⟩

/-- The module `web`, which has its finalizer, is stuck at its work. The first pass records the
failure, and no further one writes anything. -/
theorem stuck_writes_once_stalled :
    stalled.NamesVersions ∧ Visited [⟨trialSetup, .empty, failedMemory,
        (retriedPass false .empty).2⟩] failedMemory ∧
      (∀ i ≤ 2, Lap stalled trialSetup .module "default" "web" trialModule.slot .work
        (stalledRow trialModule i) (stalledRow trialModule (i + 1))) ∧
      (stalledRow trialModule 1).2.get? "default" "web" ≠
        (stalledRow trialModule 0).2.get? "default" "web" ∧
      ∀ i, 0 < i → i ≤ 2 → (stalledRow trialModule (i + 1)).2 = (stalledRow trialModule i).2 := by
  have hstalls : ∀ i ≤ 2, stalls (stalledRow trialModule i) = true := by decide +kernel
  have hvisited : Visited [⟨trialSetup, .empty, failedMemory, (retriedPass false .empty).2⟩]
      failedMemory := .pass .started (runs_retriedPass false .empty)
  have hlaps : ∀ i ≤ 2, Lap stalled trialSetup .module "default" "web" trialModule.slot .work
      (stalledRow trialModule i) (stalledRow trialModule (i + 1)) :=
    fun i hi => lap_of_stalls (hstalls i hi)
  have hwrites : (stalledRow trialModule 1).2.get? "default" "web" ≠
      (stalledRow trialModule 0).2.get? "default" "web" := by
    intro hsame
    have hphase := congrArg (Option.map Resource.phase) hsame
    revert hphase
    decide +kernel
  obtain ⟨hsettled, _⟩ := stuck_writes_once (v := stalledRow trialModule)
    (w := fun i => stalledRow trialModule (i + 1)) namesVersions_stalled hvisited (by decide)
    hlaps (fun _ _ => ⟨rfl, rfl⟩) (r := trialModule) rfl
  exact ⟨namesVersions_stalled, hvisited, hlaps, hwrites, hsettled (by decide +kernel)⟩

/-- The module without its finalizer. -/
def unheldModule : Resource :=
  { trialModule with metadata := { trialModule.metadata with finalizers := none } }

/-- The module without its finalizer is stuck there just the same. The first pass over it puts
the finalizer on, and then the second one records the failure. -/
theorem stuck_writes_twice_unheld :
    stalled.NamesVersions ∧ Visited [⟨trialSetup, .empty, failedMemory,
        (retriedPass false .empty).2⟩] (stalledRow unheldModule 0).1 ∧
      (∀ i ≤ 2, Lap stalled trialSetup .module "default" "web" trialModule.slot .work
        (stalledRow unheldModule i) (stalledRow unheldModule (i + 1))) ∧
      (∀ i < 2, Besides "default" "web" trialModule.slot (stalledRow unheldModule (i + 1))
        (stalledRow unheldModule (i + 1))) ∧
      (stalledRow unheldModule 2).2.get? "default" "web" ≠
        (stalledRow unheldModule 1).2.get? "default" "web" := by
  have hstalls : ∀ i ≤ 2, stalls (stalledRow unheldModule i) = true := by decide +kernel
  refine ⟨namesVersions_stalled, .pass .started (runs_retriedPass false .empty),
    fun i hi => lap_of_stalls (hstalls i hi), fun _ _ => ⟨rfl, rfl⟩, fun hsame => ?_⟩
  have hphase := congrArg (Option.map Resource.phase) hsame
  revert hphase
  decide +kernel

end ReleaseOperator
