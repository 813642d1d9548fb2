import ReleaseOperator.InMemory.Store
import ReleaseOperator.Tracker.Basic
import ReleaseOperator.Pass.Call

/-!
# The rules of a store

What a write does to the resource that it is meant for, and what it leaves alone. A
store keeps each resource under the namespace and the name that it bears, and all rules
of writing keep it that way. `Store.Answers` puts the rules next to the failures that
have no effect, as one relation between a store, a call and an answer.
-/

namespace ReleaseOperator.InMemory

namespace Table

variable {κ α : Type} [DecidableEq κ] {t : Table κ α} {key other : κ} {a : α}

theorem get?_cons (kv : κ × α) :
    get? (kv :: t) key = if key = kv.1 then some kv.2 else get? t key := by
  unfold get?
  rw [List.lookup_cons]
  by_cases h : key = kv.1
  · rw [if_pos h, beq_iff_eq.2 h]
  · rw [if_neg h, beq_false_of_ne h]

theorem mem_of_get? (h : t.get? key = some a) : (key, a) ∈ t := by
  induction t with
  | nil => exact absurd h (by simp [get?])
  | cons kv rest ih =>
      rw [get?_cons] at h
      split at h
      · rename_i hkey
        obtain rfl := Option.some.inj h
        rw [hkey]
        exact List.mem_cons_self
      · exact List.mem_cons_of_mem _ (ih h)

theorem get?_erase_self : (t.erase key).get? key = none := by
  induction t with
  | nil => rfl
  | cons kv rest ih =>
      unfold erase at ih ⊢
      by_cases h : kv.1 = key
      · rw [List.filter_cons_of_neg (by simpa using h)]
        exact ih
      · rw [List.filter_cons_of_pos (by simpa using h), get?_cons, if_neg fun e => h e.symm]
        exact ih

theorem get?_erase_of_ne (h : other ≠ key) : (t.erase key).get? other = t.get? other := by
  induction t with
  | nil => rfl
  | cons kv rest ih =>
      unfold erase at ih ⊢
      by_cases hk : kv.1 = key
      · rw [List.filter_cons_of_neg (by simpa using hk), ih, get?_cons,
          if_neg fun e => h (e.trans hk)]
      · rw [List.filter_cons_of_pos (by simpa using hk), get?_cons, get?_cons, ih]

@[simp] theorem get?_put_self : (t.put key a).get? key = some a := by
  rw [put, get?_cons, if_pos rfl]

theorem get?_put_of_ne (h : other ≠ key) : (t.put key a).get? other = t.get? other := by
  rw [put, get?_cons, if_neg h, get?_erase_of_ne h]

end Table

theorem objectId_eq {o o' : Resource} (hkind : o.kind = o'.kind)
    (hkey : Store.keyOf o = Store.keyOf o') (huid : o.metadata.uid = o'.metadata.uid) :
    ObjectId.ofResource o = ObjectId.ofResource o' := by
  injection hkey with hns hname
  rw [ObjectId.ofResource, ObjectId.ofResource, hkind, hns, hname, huid]

namespace Store

variable {s s' : Store} {kind : Kind} {ns name : String} {r new : Resource}

/-- Each resource is kept under the namespace and the name that it bears, and all are of
one kind. -/
def Keyed (kind : Kind) (s : Store) : Prop :=
  ∀ ns name r, s.get? ns name = some r → r.kind = kind ∧ keyOf r = (ns, name)

theorem get?_of_put {objects : InMemory.Table (String × String) Resource} {n u : Nat}
    (h : keyOf new = (ns, name)) :
    (⟨objects.put (keyOf new) new, n, u⟩ : Store).get? ns name = some new := by
  rw [get?, h]
  exact Table.get?_put_self

theorem eq_or_get?_of_get?_put {o : Resource} {key : String × String} {n u : Nat}
    (h : (⟨s.objects.put key new, n, u⟩ : Store).get? ns name = some o) :
    ((ns, name) = key ∧ o = new) ∨ s.get? ns name = some o := by
  rw [get?] at h
  dsimp only at h
  by_cases hkey : (ns, name) = key
  · rw [hkey, Table.get?_put_self] at h
    exact Or.inl ⟨hkey, (Option.some.inj h).symm⟩
  · rw [Table.get?_put_of_ne hkey] at h
    exact Or.inr h

theorem get?_of_get?_erase {o : Resource} {key : String × String} {n u : Nat}
    (h : (⟨s.objects.erase key, n, u⟩ : Store).get? ns name = some o) :
    s.get? ns name = some o := by
  rw [get?] at h
  dsimp only at h
  by_cases hkey : (ns, name) = key
  · rw [hkey, Table.get?_erase_self] at h
    exact absurd h (by simp)
  · rw [Table.get?_erase_of_ne hkey] at h
    exact h

theorem Keyed.put (h : s.Keyed kind) (new : Resource) (hkind : new.kind = kind) {n u : Nat} :
    Keyed kind ⟨s.objects.put (keyOf new) new, n, u⟩ := by
  intro ns name r hr
  rcases eq_or_get?_of_get?_put hr with ⟨hkey, rfl⟩ | hr
  · exact ⟨hkind, hkey.symm⟩
  · exact h ns name r hr

theorem Keyed.erase (h : s.Keyed kind) (key : String × String) {n u : Nat} :
    Keyed kind ⟨s.objects.erase key, n, u⟩ := by
  intro ns name r hr
  exact h ns name r (get?_of_get?_erase hr)

/-! ### What users do -/

theorem Keyed.insert (h : s.Keyed kind) (hkind : r.kind = kind) : (s.insert r).Keyed kind := by
  intro ns name o ho
  rcases eq_or_get?_of_get?_put ho with ⟨hkey, rfl⟩ | ho
  · exact ⟨hkind, hkey.symm⟩
  · exact h ns name o ho

theorem status_of_get?_insert {o : Resource} (h : (s.insert r).get? ns name = some o) :
    o.status = r.status ∨ s.get? ns name = some o := by
  rcases eq_or_get?_of_get?_put h with ⟨_, rfl⟩ | h
  · exact Or.inl rfl
  · exact Or.inr h

/-- A resource that is asked to go away differs in its revision and its time. -/
theorem get?_markDeleted {o : Resource} {now : Instant}
    (h : (s.markDeleted ns name now).get? ns name = some o) :
    ∃ old, s.get? ns name = some old ∧ o.status = old.status ∧ o.generation = old.generation ∧
      ObjectId.ofResource o = ObjectId.ofResource old := by
  unfold markDeleted at h
  dsimp only at h
  split at h
  · exact ⟨o, h, rfl, rfl, rfl⟩
  · rename_i old hold
    split at h
    · exact ⟨o, get?_of_get?_erase h, rfl, rfl, rfl⟩
    · rcases eq_or_get?_of_get?_put h with ⟨_, rfl⟩ | h
      · exact ⟨old, hold, rfl, rfl, rfl⟩
      · exact ⟨o, h, rfl, rfl, rfl⟩

theorem Keyed.markDeleted (h : s.Keyed kind) (ns name : String) (now : Instant) :
    (s.markDeleted ns name now).Keyed kind := by
  unfold Store.markDeleted
  dsimp only
  split
  · exact h
  · rename_i old hold
    split
    · exact h.erase _
    · obtain ⟨hkind, hkey⟩ := h ns name old hold
      rw [← hkey]
      exact h.put (withRevision { old with metadata := { old.metadata with
        deletionTime := some now } } (s.revision + 1)) hkind

/-- A user who changes the specification of a resource gives it its next generation. -/
theorem edit_ok {old : Resource} {spec : Spec} (h : s.Keyed kind)
    (hold : s.get? ns name = some old) (hkind : spec.kind = old.kind)
    (hspec : sameSpec old { old with spec } = false)
    (hedit : s.edit ns name (fun r => some { r with spec }) = some (some s')) :
    s'.get? ns name = some (withRevision (withGeneration { old with spec } (old.generation + 1))
      (s.revision + 1)) ∧ s'.Keyed kind := by
  obtain ⟨hold_kind, hold_key⟩ := h ns name old hold
  unfold edit at hedit
  rw [hold] at hedit
  simp only [Option.map_some, hspec, Bool.false_eq_true, ↓reduceIte] at hedit
  injection hedit with hedit
  injection hedit with hedit
  subst hedit
  refine ⟨Table.get?_put_self, ?_⟩
  rw [← hold_key]
  exact h.put (withRevision (withGeneration { old with spec } (old.generation + 1))
    (s.revision + 1)) (hkind.trans hold_kind)

/-! ### Writing the status -/

theorem current_eq_ok {old : Resource} (h : s.current r = .ok old) :
    s.get? r.namespaceName r.name = some old ∧
      old.metadata.resourceVersion = r.metadata.resourceVersion := by
  unfold current keyOf at h
  dsimp only at h
  split at h
  · exact absurd h (by simp)
  · rename_i old' hold
    split at h
    · exact absurd h (by simp)
    · rename_i hrev
      injection h with h
      subst h
      exact ⟨hold, Decidable.not_not.1 hrev⟩

theorem current_of_get? {old : Resource} (hget : s.get? r.namespaceName r.name = some old)
    (hrev : old.metadata.resourceVersion = r.metadata.resourceVersion) : s.current r = .ok old := by
  unfold current keyOf
  dsimp only
  rw [hget]
  exact if_neg fun hne => hne hrev

/-- A resource as the store keeps it after its status was written. -/
def withStatusOf (old r : Resource) (n : Nat) : Resource :=
  withRevision (old.copyStatus r) n

theorem updateStatus_ok (h : s.Keyed kind) (hkey : keyOf r = (ns, name))
    (hw : (.ok new, s') = s.updateStatus r) :
    ∃ old, s.get? ns name = some old ∧
      old.metadata.resourceVersion = r.metadata.resourceVersion ∧
      new = withStatusOf old r (s.revision + 1) ∧ s'.get? ns name = some new ∧
      s'.Keyed kind := by
  unfold updateStatus at hw
  split at hw
  · exact absurd (congrArg Prod.fst hw) (by simp)
  · rename_i old hold
    obtain ⟨hget, hrev⟩ := current_eq_ok hold
    have hk : (r.namespaceName, r.name) = (ns, name) := hkey
    injection hk with hns hname
    rw [hns, hname] at hget
    obtain ⟨hkind, hold_key⟩ := h ns name old hget
    injection hw with hnew hs'
    injection hnew with hnew
    subst hnew
    subst hs'
    have hnew_key : keyOf (withRevision (old.copyStatus r) (s.revision + 1)) = (ns, name) :=
      hold_key
    exact ⟨old, hget, hrev, rfl, get?_of_put hnew_key,
      h.put (withRevision (old.copyStatus r) (s.revision + 1)) hkind⟩

theorem updateStatus_error {e : ClusterError} (hw : (.error e, s') = s.updateStatus r) :
    s' = s := by
  unfold updateStatus at hw
  split at hw
  · exact congrArg Prod.snd hw
  · exact absurd (congrArg Prod.fst hw) (by simp)

/-- A status that is put onto the stored copy is accepted. -/
theorem updateStatus_ne_error {old : Resource} {e : ClusterError}
    (hget : s.get? r.namespaceName r.name = some old)
    (hrev : old.metadata.resourceVersion = r.metadata.resourceVersion) :
    (.error e, s') ≠ s.updateStatus r := by
  intro hw
  rw [updateStatus, current_of_get? hget hrev] at hw
  exact absurd (congrArg Prod.fst hw) (by simp)

/-! ### Writing a resource as a whole -/

theorem generation_merged (s : Store) (old r : Resource) :
    (s.merged old r).generation =
      if sameSpec r old then old.generation else old.generation + 1 := rfl

theorem le_generation_merged (s : Store) (old r : Resource) :
    old.generation ≤ (s.merged old r).generation := by
  rw [generation_merged]
  split
  · exact Int.le_refl _
  · omega

theorem update_ok (h : s.Keyed kind) (hkind : r.kind = kind) (hkey : keyOf r = (ns, name))
    (hw : (.ok new, s') = s.update r) :
    ∃ old, s.get? ns name = some old ∧
      old.metadata.resourceVersion = r.metadata.resourceVersion ∧ new = s.merged old r ∧
      (s'.get? ns name = some new ∨
        s'.get? ns name = none ∧ new.isDeleting = true ∧ new.finalizers = []) ∧
      s'.Keyed kind := by
  unfold update at hw
  split at hw
  · exact absurd (congrArg Prod.fst hw) (by simp)
  · rename_i old hold
    obtain ⟨hget, hrev⟩ := current_eq_ok hold
    have hk : (r.namespaceName, r.name) = (ns, name) := hkey
    injection hk with hns hname
    rw [hns, hname] at hget
    injection hw with hnew hs'
    injection hnew with hnew
    subst hnew
    subst hs'
    have hnew_key : keyOf (s.merged old r) = (ns, name) := hkey
    refine ⟨old, hget, hrev, rfl, ?_, ?_⟩
    · split
      · rename_i hgone
        rw [Bool.and_eq_true, List.isEmpty_iff] at hgone
        refine Or.inr ⟨?_, hgone⟩
        rw [get?, hnew_key]
        exact Table.get?_erase_self
      · exact Or.inl (get?_of_put hnew_key)
    · split
      · exact h.erase _
      · exact h.put (s.merged old r) hkind

theorem update_error {e : ClusterError} (hw : (.error e, s') = s.update r) : s' = s := by
  unfold update at hw
  split at hw
  · exact congrArg Prod.snd hw
  · exact absurd (congrArg Prod.fst hw) (by simp)

/-- A write of a copy that is not stale is accepted. -/
theorem update_ne_error {old : Resource} {e : ClusterError}
    (hget : s.get? r.namespaceName r.name = some old)
    (hrev : old.metadata.resourceVersion = r.metadata.resourceVersion) :
    (.error e, s') ≠ s.update r := by
  intro hw
  rw [update, current_of_get? hget hrev] at hw
  exact absurd (congrArg Prod.fst hw) (by simp)

/-! ### Answers -/

/-- How a store may answer: by its rules, or, if calls may fail, with an error and
without effect. -/
def Answers (mayFail : Prop) (s : Store) : (c : StoreCall) → c.Answer → Store → Prop
  | .get _ ns name, a, s' => s' = s ∧ (a = .ok (s.get? ns name) ∨ mayFail ∧ ∃ e, a = .error e)
  | .update r, a, s' => (a, s') = s.update r ∨ mayFail ∧ s' = s ∧ ∃ e, a = .error e
  | .updateStatus r, a, s' => (a, s') = s.updateStatus r ∨ mayFail ∧ s' = s ∧ ∃ e, a = .error e

theorem exists_answer (mayFail : Prop) (s : Store) (c : StoreCall) :
    ∃ a s', Answers mayFail s c a s' := by
  cases c with
  | get k ns name => exact ⟨_, s, rfl, Or.inl rfl⟩
  | update r => exact ⟨_, _, Or.inl rfl⟩
  | updateStatus r => exact ⟨_, _, Or.inl rfl⟩

end Store

end ReleaseOperator.InMemory
