import Mathlib.Logic.Relation
import ReleaseOperator.Proofs.History
import ReleaseOperator.Proofs.Passes
import ReleaseOperator.Proofs.StoreRules

/-!
# Passes among edits

Users may change the specification of a resource at any moment, also between two
questions of a pass over it. Here the store keeps to its rules, any call may fail, and
after each answer any number of edits may follow. What happened is kept as a story, the
newest event first. From the story one can tell the resource as the pass found it, the
copy it has in hand, which a successful write exchanges for the stored one, and how many
edits lie between the two.
-/

namespace ReleaseOperator

open InMemory Relation

/-- What happens to a resource: a pass begins, a call is answered, a user edits the
specification. -/
inductive Event where
  | began
  | asked (c : Call) (a : c.Answer)
  | edited

namespace Event

/-- The resource that a reading brought. -/
def read? : Event → Option Resource
  | .asked (.store (.get _ _ _)) (.ok r) => r
  | _ => none

/-- The resource that a successful write brought back. -/
def written? : Event → Option Resource
  | .asked (.store (.updateStatus _)) (.ok r) => some r
  | .asked (.store (.update _)) (.ok r) => some r
  | _ => none

theorem written?_of_isQuiet {c : Call} (h : c.isQuiet = true) (a : c.Answer) :
    (asked c a).written? = none := by
  rcases c with (_ | _ | _) | _ | (_ | _ | _ | _ | _ | _) | _ | _ | _ | _ <;>
    first | rfl | exact absurd h Bool.false_ne_true

end Event

/-- Events, the newest first. -/
abbrev Story := List Event

namespace Story

/-- The resource as the pass found it. -/
def fetched? : Story → Option Resource
  | [] => none
  | .began :: _ => none
  | .edited :: es => fetched? es
  | .asked c a :: es => (fetched? es).or (Event.asked c a).read?

/-- The copy that the pass works with: what the last successful write brought back, or
else the resource as it was found. -/
def inHand? : Story → Option Resource
  | [] => none
  | .began :: _ => none
  | .edited :: es => inHand? es
  | .asked c a :: es =>
    (Event.asked c a).written?.or ((inHand? es).or (Event.asked c a).read?)

/-- The number of edits since the pass found the resource. -/
def editsSinceFetch : Story → Nat
  | [] => 0
  | .began :: _ => 0
  | .edited :: es => if (fetched? es).isSome then editsSinceFetch es + 1 else 0
  | .asked _ _ :: es => editsSinceFetch es

/-- The number of edits that the copy in hand has seen and the resource as it was found
has not: those before the last successful write. -/
def editsInHand : Story → Nat
  | [] => 0
  | .began :: _ => 0
  | .edited :: es => editsInHand es
  | .asked c a :: es =>
    if (Event.asked c a).written?.isSome then editsSinceFetch es else editsInHand es

variable {es : Story} {c : Call} {a : c.Answer} {r k : Resource}

theorem fetched?_asked (h : fetched? es = some r) : fetched? (.asked c a :: es) = some r := by
  rw [fetched?, h]
  rfl

theorem inHand?_asked (hw : (Event.asked c a).written? = none) (h : inHand? es = some k) :
    inHand? (.asked c a :: es) = some k := by
  rw [inHand?, hw, h]
  rfl

theorem editsInHand_asked (hw : (Event.asked c a).written? = none) :
    editsInHand (.asked c a :: es) = editsInHand es := by
  rw [editsInHand, hw]
  rfl

theorem inHand?_written (hw : (Event.asked c a).written? = some k) :
    inHand? (.asked c a :: es) = some k := by
  rw [inHand?, hw]
  rfl

theorem editsInHand_written (hw : (Event.asked c a).written? = some k) :
    editsInHand (.asked c a :: es) = editsSinceFetch es := by
  rw [editsInHand, hw]
  rfl

theorem editsSinceFetch_edited (h : fetched? es = some r) :
    editsSinceFetch (.edited :: es) = editsSinceFetch es + 1 := by
  rw [editsSinceFetch, h]
  rfl

theorem editsSinceFetch_eq_zero (h : fetched? es = none) : editsSinceFetch es = 0 := by
  induction es with
  | nil => rfl
  | cons e es ih =>
      cases e with
      | began => rfl
      | edited =>
          have h' : fetched? es = none := h
          rw [editsSinceFetch, h']
          rfl
      | asked c a =>
          rw [fetched?, Option.or_eq_none_iff] at h
          exact ih h.1

theorem editsInHand_le (es : Story) : editsInHand es ≤ editsSinceFetch es := by
  induction es with
  | nil => exact Nat.le_refl 0
  | cons e es ih =>
      cases e with
      | began => exact Nat.le_refl 0
      | edited =>
          rw [editsInHand, editsSinceFetch]
          split
          · omega
          · rename_i hnone
            rw [Option.not_isSome_iff_eq_none] at hnone
            have := editsSinceFetch_eq_zero hnone
            omega
      | asked c a =>
          rw [editsInHand, editsSinceFetch]
          split
          · exact Nat.le_refl _
          · exact ih

end Story

/-- A store and what has happened. -/
structure Contest where
  store : Store
  story : Story

namespace Contest

/-- A user gives the resource another specification, and with it a new generation. -/
def Edit (ns name : String) (s t : Contest) : Prop :=
  ∃ old spec store, s.store.get? ns name = some old ∧ spec.kind = old.kind ∧
    Store.sameSpec old { old with spec } = false ∧
    s.store.edit ns name (fun r => some { r with spec }) = some (some store) ∧
    t = ⟨store, .edited :: s.story⟩

/-- The store answers what is asked about its kind of resource; nothing else changes
it. -/
def Answered (kind : Kind) (store : Store) : (c : Call) → c.Answer → Store → Prop
  | .store (.get k ns name), a, store' =>
    if k = kind then store.Answers True (.get k ns name) a store' else store' = store
  | .store (.update r), a, store' =>
    if r.kind = kind then store.Answers True (.update r) a store' else store' = store
  | .store (.updateStatus r), a, store' =>
    if r.kind = kind then store.Answers True (.updateStatus r) a store' else store' = store
  | _, _, store' => store' = store

theorem exists_callAnswer (c : Call) : Nonempty c.Answer := by
  rcases c with (_ | _ | _) | (_ | _ | _) | (_ | _ | _ | _ | _ | _) | _ | _ | ⟨low, high, h⟩ | _
  all_goals first
    | exact ⟨.error (.api "")⟩
    | exact ⟨.error (.io "")⟩
    | exact ⟨Outcome.done⟩
    | exact ⟨""⟩
    | exact ⟨⟨low, Pass.low_mem_draw h⟩⟩
    | exact ⟨()⟩

theorem exists_answered (kind : Kind) (store : Store) (c : Call) :
    ∃ a store', Answered kind store c a store' := by
  obtain ⟨a₀⟩ := exists_callAnswer c
  rcases c with (⟨k, ns, name⟩ | r | r) | _ | _ | _ | _ | _ | _
  · by_cases hk : k = kind
    · obtain ⟨a, store', h⟩ := store.exists_answer True (.get k ns name)
      exact ⟨a, store', by rw [Answered, if_pos hk]; exact h⟩
    · exact ⟨a₀, store, by rw [Answered, if_neg hk]⟩
  · by_cases hk : r.kind = kind
    · obtain ⟨a, store', h⟩ := store.exists_answer True (.update r)
      exact ⟨a, store', by rw [Answered, if_pos hk]; exact h⟩
    · exact ⟨a₀, store, by rw [Answered, if_neg hk]⟩
  · by_cases hk : r.kind = kind
    · obtain ⟨a, store', h⟩ := store.exists_answer True (.updateStatus r)
      exact ⟨a, store', by rw [Answered, if_pos hk]; exact h⟩
    · exact ⟨a₀, store, by rw [Answered, if_neg hk]⟩
  all_goals exact ⟨a₀, store, rfl⟩

/-- Calls are answered or fail, and after each of them users may edit the resource. -/
def conduct (kind : Kind) (ns name : String) : Conduct Contest where
  may s c a t :=
    ∃ store, Answered kind s.store c a store ∧
      ReflTransGen (Edit ns name) ⟨store, .asked c a :: s.story⟩ t
  answers s c := by
    obtain ⟨a, store, h⟩ := exists_answered kind s.store c
    exact ⟨a, _, store, h, ReflTransGen.refl⟩

theorem answered_of_isQuiet {kind : Kind} {store store' : Store} {c : Call} {a : c.Answer}
    (hq : c.isQuiet = true) (h : Answered kind store c a store') : store' = store := by
  rcases c with (⟨k, ns, name⟩ | r | r) | _ | (_ | _ | _ | _ | _ | _) | _ | _ | _ | _
  · rw [Answered] at h
    split at h
    · exact h.1
    · exact h
  · exact absurd hq Bool.false_ne_true
  · exact absurd hq Bool.false_ne_true
  all_goals exact h

section Answers

variable {kind : Kind} {store store' : Store} {ns name : String} {w new : Resource}
  {e : ClusterError}

/-- What is read is what is stored. -/
theorem stored_of_answered {found : Option Resource}
    (h : Answered kind store (.store (.get kind ns name)) (.ok found) store') :
    store.get? ns name = found := by
  rw [Answered, if_pos rfl] at h
  rcases h.2 with hok | ⟨_, _, he⟩
  · exact (Except.ok.inj hok).symm
  · exact absurd he (by simp)

/-- A write that is taken is taken by the rules of the store. -/
theorem update_of_answered (hkind : w.kind = kind)
    (h : Answered kind store (.store (.update w)) (.ok new) store') :
    (.ok new, store') = store.update w := by
  rw [Answered, if_pos hkind] at h
  rcases h with hrules | ⟨_, _, _, he⟩
  · exact hrules
  · exact absurd he (by simp)

theorem updateStatus_of_answered (hkind : w.kind = kind)
    (h : Answered kind store (.store (.updateStatus w)) (.ok new) store') :
    (.ok new, store') = store.updateStatus w := by
  rw [Answered, if_pos hkind] at h
  rcases h with hrules | ⟨_, _, _, he⟩
  · exact hrules
  · exact absurd he (by simp)

/-- A write that fails leaves the store as it was. -/
theorem same_of_update_error (hkind : w.kind = kind)
    (h : Answered kind store (.store (.update w)) (.error e) store') : store' = store := by
  rw [Answered, if_pos hkind] at h
  rcases h with hrules | ⟨_, hsame, _⟩
  · exact Store.update_error hrules
  · exact hsame

theorem same_of_updateStatus_error (hkind : w.kind = kind)
    (h : Answered kind store (.store (.updateStatus w)) (.error e) store') : store' = store := by
  rw [Answered, if_pos hkind] at h
  rcases h with hrules | ⟨_, hsame, _⟩
  · exact Store.updateStatus_error hrules
  · exact hsame

end Answers

theorem suffix_of_edits {ns name : String} {s t : Contest}
    (h : ReflTransGen (Edit ns name) s t) : s.story <:+ t.story := by
  induction h with
  | refl => exact List.suffix_rfl
  | tail _ hedit ih =>
      obtain ⟨_, _, _, _, _, _, _, rfl⟩ := hedit
      exact ih.trans (List.suffix_cons _ _)

/-- Nothing that happened is forgotten. -/
theorem suffix_of_may {kind : Kind} {ns name : String} {s t : Contest} {c : Call} {a : c.Answer}
    (h : (conduct kind ns name).may s c a t) : (.asked c a :: s.story) <:+ t.story := by
  obtain ⟨store, _, hedits⟩ := h
  exact suffix_of_edits hedits

/-- An edit changes the specification and counts the generation up. -/
theorem Edit.stored {kind : Kind} {ns name : String} {s t : Contest} (h : Edit ns name s t)
    (hkeyed : s.store.Keyed kind) :
    ∃ old new, s.store.get? ns name = some old ∧ t.store.get? ns name = some new ∧
      new.generation = old.generation + 1 ∧ new.metadata.uid = old.metadata.uid ∧
      new.status = old.status ∧ t.store.Keyed kind ∧ t.story = .edited :: s.story := by
  obtain ⟨old, spec, store, hold, hkind, hspec, hedit, rfl⟩ := h
  obtain ⟨hnew, hnew_keyed⟩ := Store.edit_ok hkeyed hold hkind hspec hedit
  exact ⟨old, _, hold, hnew, rfl, rfl, rfl, hnew_keyed, rfl⟩

end Contest

end ReleaseOperator
