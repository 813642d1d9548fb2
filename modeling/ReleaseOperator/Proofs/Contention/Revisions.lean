import Mathlib.Logic.Relation
import ReleaseOperator.Proofs.Generations
import ReleaseOperator.Proofs.StoreRules

/-!
# Revisions

A store gives each state of a resource a revision of its own. So a copy that was given
out and the stored resource are one and the same as long as their revisions are, whatever
users and the operator have done in between: everything they do takes a revision that was
never given out before.
-/

namespace ReleaseOperator

namespace Json

mutual

theorem agrees_self : ∀ v : Json, v.agrees v = true
  | null => rfl
  | bool _ => beq_self_eq_true _
  | whole _ => beq_self_eq_true _
  | real _ => by rw [agrees, beq_self_eq_true, Bool.true_or]
  | text _ => beq_self_eq_true _
  | array items => itemsAgree_self items
  | object fields => fieldsAgree_self fields

theorem itemsAgree_self : ∀ items : List Json, itemsAgree items items = true
  | [] => rfl
  | v :: rest => by rw [itemsAgree, agrees_self v, itemsAgree_self rest, Bool.and_self]

theorem fieldsAgree_self : ∀ fields : List (String × Json), fieldsAgree fields fields = true
  | [] => rfl
  | (k, v) :: rest => by
      rw [fieldsAgree, agrees_self v, fieldsAgree_self rest, beq_self_eq_true, Bool.and_self,
        Bool.and_self]

end

end Json

namespace InMemory.Store

open Relation

variable {s s' s'' : Store} {kind : Kind} {ns name : String} {r w o : Resource}

theorem sameSpec_of_spec_eq (h : r.spec = o.spec) : sameSpec r o = true := by
  rw [sameSpec, h]
  exact Json.agrees_self _

/-- Every stored resource has a revision that was given out. -/
def Revised (s : Store) : Prop :=
  ∀ ns name o, s.get? ns name = some o →
    ∃ n, n ≤ s.revision ∧ o.metadata.resourceVersion = some (toString n)

/-- A later state of a store: what is stored was stored before or has a new revision. -/
structure Later (s s' : Store) : Prop where
  revision : s.revision ≤ s'.revision
  stored : ∀ ns name o, s'.get? ns name = some o → s.get? ns name = some o ∨
    ∃ n, s.revision < n ∧ n ≤ s'.revision ∧ o.metadata.resourceVersion = some (toString n)

theorem Later.refl (s : Store) : Later s s :=
  ⟨Nat.le_refl _, fun _ _ _ h => Or.inl h⟩

theorem Later.trans (h : Later s s') (h' : Later s' s'') : Later s s'' := by
  refine ⟨Nat.le_trans h.revision h'.revision, ?_⟩
  intro ns name o ho
  rcases h'.stored ns name o ho with ho | ⟨n, hlt, hle, hn⟩
  · rcases h.stored ns name o ho with ho | ⟨n, hlt, hle, hn⟩
    · exact Or.inl ho
    · exact Or.inr ⟨n, hlt, Nat.le_trans hle h'.revision, hn⟩
  · exact Or.inr ⟨n, Nat.lt_of_le_of_lt h.revision hlt, hle, hn⟩

theorem Later.revised (h : Later s s') (hs : s.Revised) : s'.Revised := by
  intro ns name o ho
  rcases h.stored ns name o ho with ho | ⟨n, _, hle, hn⟩
  · obtain ⟨n, hle, hn⟩ := hs ns name o ho
    exact ⟨n, Nat.le_trans hle h.revision, hn⟩
  · exact ⟨n, hle, hn⟩

/-- A write takes the next revision. -/
theorem later_put (key : String × String) (hr : r.metadata.resourceVersion =
    some (toString (s.revision + 1))) (uids : Nat) :
    Later s ⟨s.objects.put key r, s.revision + 1, uids⟩ := by
  refine ⟨Nat.le_succ _, ?_⟩
  intro ns name o ho
  rcases eq_or_get?_of_get?_put ho with ⟨_, rfl⟩ | ho
  · exact Or.inr ⟨s.revision + 1, Nat.lt_succ_self _, Nat.le_refl _, hr⟩
  · exact Or.inl ho

theorem later_erase (key : String × String) {n : Nat} (hn : s.revision ≤ n) (uids : Nat) :
    Later s ⟨s.objects.erase key, n, uids⟩ :=
  ⟨hn, fun _ _ _ ho => Or.inl (get?_of_get?_erase ho)⟩

/-! ### Copies -/

/-- A copy whose metadata and specification are as the store once gave them out: the
stored resource is no other as long as it has the same revision. -/
structure Knows (s : Store) (w : Resource) : Prop where
  revision : ∃ n, n ≤ s.revision ∧ w.metadata.resourceVersion = some (toString n)
  same : ∀ o, s.get? w.namespaceName w.name = some o →
    o.metadata.resourceVersion = w.metadata.resourceVersion →
    o.metadata = w.metadata ∧ o.spec = w.spec

theorem knows_stored (hkeyed : s.Keyed kind) (hrev : s.Revised)
    (h : s.get? ns name = some o) : s.Knows o := by
  obtain ⟨_, hkey⟩ := hkeyed ns name o h
  injection hkey with hns hname
  refine ⟨hrev ns name o h, ?_⟩
  intro o' ho' _
  rw [hns, hname, h] at ho'
  injection ho' with ho'
  rw [ho']
  exact ⟨rfl, rfl⟩

/-- What happens afterwards takes other revisions. -/
theorem Knows.later (h : s.Knows w) (hl : Later s s') : s'.Knows w := by
  obtain ⟨n, hle, hn⟩ := h.revision
  refine ⟨⟨n, Nat.le_trans hle hl.revision, hn⟩, ?_⟩
  intro o ho hsame
  rcases hl.stored _ _ o ho with ho | ⟨m, hlt, _, hm⟩
  · exact h.same o ho hsame
  · rw [hn, hm] at hsame
    have hnm : m = n := by
      have hrepr : toString m = toString n := Option.some.inj hsame
      exact Nat.repr_inj.1 hrepr
    omega

/-! ### What writes do -/

theorem metadata_merged (s : Store) (old r : Resource) :
    (s.merged old r).metadata = { r.metadata with
      deletionTime := old.metadata.deletionTime
      uid := old.metadata.uid
      generation := (s.merged old r).metadata.generation
      resourceVersion := (s.merged old r).metadata.resourceVersion } := rfl

theorem later_update {a : Except ClusterError Resource} (hw : (a, s') = s.update w) :
    Later s s' := by
  unfold update at hw
  split at hw
  · injection hw with _ hs'
    rw [hs']
    exact Later.refl s
  · rename_i old _
    injection hw with _ hs'
    rw [hs']
    split
    · exact later_erase _ (Nat.le_succ _) _
    · exact later_put (s := s) (r := s.merged old w) _ rfl s.uids

theorem later_updateStatus {a : Except ClusterError Resource}
    (hw : (a, s') = s.updateStatus w) : Later s s' := by
  unfold updateStatus at hw
  split at hw
  · injection hw with _ hs'
    rw [hs']
    exact Later.refl s
  · rename_i old _
    injection hw with _ hs'
    rw [hs']
    exact later_put (s := s) (r := withRevision (old.copyStatus w) (s.revision + 1)) _ rfl s.uids

/-- A write leaves all other resources alone. -/
theorem get?_update_of_ne {a : Except ClusterError Resource} {ns' name' : String}
    (hw : (a, s') = s.update w) (hne : (ns', name') ≠ keyOf w) :
    s'.get? ns' name' = s.get? ns' name' := by
  unfold update at hw
  split at hw
  · injection hw with _ hs'
    rw [hs']
  · rename_i old _
    injection hw with _ hs'
    have hkey : keyOf (s.merged old w) = keyOf w := rfl
    rw [hs', get?, hkey]
    dsimp only
    split
    · exact Table.get?_erase_of_ne hne
    · exact Table.get?_put_of_ne hne

theorem get?_updateStatus_of_ne {a : Except ClusterError Resource} {ns' name' : String}
    (hs : s.Keyed kind) (hw : (a, s') = s.updateStatus w) (hne : (ns', name') ≠ keyOf w) :
    s'.get? ns' name' = s.get? ns' name' := by
  unfold updateStatus at hw
  split at hw
  · injection hw with _ hs'
    rw [hs']
  · rename_i old hold
    injection hw with _ hs'
    rw [hs']
    obtain ⟨_, hkey⟩ := hs _ _ old (current_eq_ok hold).1
    refine Table.get?_put_of_ne ?_
    have hsame : keyOf (withRevision (old.copyStatus w) (s.revision + 1)) = keyOf w := hkey
    rw [hsame]
    exact hne

/-! ### What users do -/

/-- What users may do: change anything about a resource but its kind, its name and its
identity; ask for its deletion; let it go; create it, also in the place of another. -/
inductive Users (kind : Kind) : Store → Store → Prop
  | edit {s s' : Store} {ns name : String} {change : Resource → Option Resource}
      (keeps : ∀ old new, change old = some new →
        new.kind = old.kind ∧ keyOf new = keyOf old ∧ new.metadata.uid = old.metadata.uid)
      (edited : s.edit ns name change = some (some s')) : Users kind s s'
  | delete (s : Store) (ns name : String) (now : Instant) :
      Users kind s (s.markDeleted ns name now)
  | release (s : Store) (ns name : String) :
      Users kind s { s with objects := s.objects.erase (ns, name) }
  | create (s : Store) (r : Resource) (ofKind : r.kind = kind) : Users kind s (s.insert r)

theorem Users.later (h : Users kind s s') : Later s s' := by
  cases h with
  | edit keeps edited =>
      unfold Store.edit at edited
      obtain ⟨old, hold, hedit⟩ := Option.map_eq_some_iff.1 edited
      obtain ⟨new, hnew, rfl⟩ := Option.map_eq_some_iff.1 hedit
      exact later_put (s := s) _ rfl s.uids
  | delete ns name now =>
      unfold markDeleted
      dsimp only
      split
      · exact ⟨Nat.le_succ _, fun _ _ _ ho => Or.inl ho⟩
      · split
        · exact later_erase _ (Nat.le_succ _) _
        · exact later_put (s := s) _ rfl s.uids
  | release ns name => exact later_erase _ (Nat.le_refl _) _
  | create r ofKind => exact later_put (s := s) _ rfl (s.uids + 1)

theorem Users.keyed (h : Users kind s s') (hs : s.Keyed kind) : s'.Keyed kind := by
  cases h with
  | edit keeps edited =>
      unfold Store.edit at edited
      obtain ⟨old, hold, hedit⟩ := Option.map_eq_some_iff.1 edited
      obtain ⟨new, hnew, rfl⟩ := Option.map_eq_some_iff.1 hedit
      obtain ⟨hkind, hkey⟩ := hs _ _ old hold
      obtain ⟨hkind', hkey', _⟩ := keeps old new hnew
      dsimp only
      split
      · rw [← hkey, ← hkey']
        exact hs.put (withRevision new (s.revision + 1)) (hkind'.trans hkind)
      · rw [← hkey, ← hkey']
        exact hs.put (withRevision (withGeneration new (new.generation + 1)) (s.revision + 1))
          (hkind'.trans hkind)
  | delete ns name now => exact hs.markDeleted ns name now
  | release ns name => exact hs.erase _
  | create r ofKind => exact hs.insert ofKind

theorem later_of_users (h : ReflTransGen (Users kind) s s') : Later s s' := by
  induction h with
  | refl => exact Later.refl s
  | tail _ h ih => exact ih.trans h.later

theorem keyed_of_users (h : ReflTransGen (Users kind) s s') (hs : s.Keyed kind) :
    s'.Keyed kind := by
  induction h with
  | refl => exact hs
  | tail _ h ih => exact h.keyed ih

end InMemory.Store

end ReleaseOperator
