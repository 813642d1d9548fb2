import ReleaseOperator.Proofs.Commuting.Keys

/-!
# The entries of an object

A tracker whose keys are those of plain objects keeps the entries of each object apart: what
lies under the start of an object's keys are the object's entries and nothing else. Each change
of a tracker is described by what becomes of the entries of one object, and leaves those of
every other as they are.
-/

namespace ReleaseOperator

/-!
## Keys of plain names

A key spells out kind, namespace, name and uid with a slash behind each. Where none of the four
has a slash of its own, the key tells them all: the keys of one object are those that start as
it prescribes, and no other object's keys do, not even those of an object whose name begins
like its own.
-/

namespace ObjectId

variable {id id' : ObjectId} {g g' : Int} {kind ns name key : String}

/-- A text without a slash. -/
def PlainText (s : String) : Prop := '/' ∉ s.toList

instance (s : String) : Decidable (PlainText s) := inferInstanceAs (Decidable (_ ∉ _))

/-- No part of the identity has a slash in it. -/
structure Plain (id : ObjectId) : Prop where
  kind : PlainText id.kind
  namespaceName : PlainText id.namespaceName
  name : PlainText id.name
  uid : PlainText id.uid

instance (id : ObjectId) : Decidable id.Plain :=
  decidable_of_iff (PlainText id.kind ∧ PlainText id.namespaceName ∧ PlainText id.name ∧
      PlainText id.uid)
    ⟨fun ⟨h₁, h₂, h₃, h₄⟩ => ⟨h₁, h₂, h₃, h₄⟩, fun h => ⟨h.kind, h.namespaceName, h.name, h.uid⟩⟩

/-- The object has a kind, a namespace and a name, whatever its uid. -/
def Named (kind ns name : String) (id : ObjectId) : Prop :=
  id.kind = kind ∧ id.namespaceName = ns ∧ id.name = name

instance (kind ns name : String) (id : ObjectId) : Decidable (Named kind ns name id) :=
  inferInstanceAs (Decidable (_ ∧ _ ∧ _))

theorem nameKey_toList (kind ns name : String) :
    (nameKey kind ns name).toList =
      kind.toList ++ '/' :: (ns.toList ++ '/' :: (name.toList ++ ['/'])) := by
  simp only [nameKey, String.toList_append, List.append_assoc]
  rfl

theorem objectKey_toList (id : ObjectId) :
    id.objectKey.toList = id.kind.toList ++ '/' :: (id.namespaceName.toList ++ '/' ::
      (id.name.toList ++ '/' :: (id.uid.toList ++ ['/']))) := by
  simp only [objectKey, String.toList_append, nameKey_toList, List.append_assoc, List.cons_append]
  rfl

/-- A key that starts like those of a kind, namespace and name belongs to an object named so. -/
theorem named_of_hasStart (hid : id.Plain) (hkind : PlainText kind) (hns : PlainText ns)
    (hname : PlainText name) (hkey : Text.hasStart key id.objectKey = true)
    (h : Text.hasStart key (nameKey kind ns name) = true) : Named kind ns name id := by
  obtain ⟨rest, hrest⟩ := Text.hasStart_iff.1 hkey
  obtain ⟨rest', hrest'⟩ := Text.hasStart_iff.1 h
  rw [hrest, objectKey_toList, nameKey_toList] at hrest'
  simp only [List.append_assoc, List.cons_append] at hrest'
  obtain ⟨hk, hrest'⟩ := Address.eq_of_slash_append_eq hid.kind hkind hrest'
  obtain ⟨hn, hrest'⟩ := Address.eq_of_slash_append_eq hid.namespaceName hns hrest'
  obtain ⟨hm, _⟩ := Address.eq_of_slash_append_eq hid.name hname hrest'
  exact ⟨String.toList_injective hk, String.toList_injective hn, String.toList_injective hm⟩

/-- No key starts like those of two objects. -/
theorem eq_of_hasStart (hid : id.Plain) (hid' : id'.Plain)
    (h : Text.hasStart key id.objectKey = true) (h' : Text.hasStart key id'.objectKey = true) :
    id = id' := by
  obtain ⟨hkind, hns, hname⟩ := named_of_hasStart hid hid'.kind hid'.namespaceName hid'.name h
    (Text.hasStart_trans h' id'.hasStart_objectKey)
  obtain ⟨kind, ns, name, uid⟩ := id
  obtain ⟨kind', ns', name', uid'⟩ := id'
  dsimp only at hkind hns hname
  subst hkind hns hname
  obtain ⟨rest, hrest⟩ := Text.hasStart_iff.1 h
  obtain ⟨rest', hrest'⟩ := Text.hasStart_iff.1 h'
  rw [hrest, objectKey, objectKey] at hrest'
  simp only [String.toList_append, List.append_assoc] at hrest'
  have huid := List.append_cancel_left hrest'
  obtain rfl := String.toList_injective (Address.eq_of_slash_append_eq hid.uid hid'.uid huid).1
  rfl

/-- The keys of an object start like no other object's. -/
theorem hasStart_key_iff (hid : id.Plain) (hid' : id'.Plain) :
    Text.hasStart (id'.key g) id.objectKey = true ↔ id' = id := by
  constructor
  · exact fun h => eq_of_hasStart hid' hid (id'.hasStart_key g) h
  · rintro rfl
    exact id'.hasStart_key g

end ObjectId

/-! ## Entries by object -/

namespace Tracker

variable {t : Tracker} {id other : ObjectId} {g : Int} {e : Entry} {initial : Stage}
  {kind ns name key : String} {kv : String × Entry} {latest : Option Int} {f : Entry → Entry}

/-- The entries kept for an object, each under the key of its own generation. -/
def entriesOf (t : Tracker) (id : ObjectId) : List (String × Entry) :=
  t.entries.filter fun kv => decide (kv.1 = id.key kv.2.generation)

/-- Every entry belongs to a plain object. -/
def Plain (t : Tracker) : Prop :=
  ∀ kv ∈ t.entries, ∃ id : ObjectId, id.Plain ∧ kv ∈ t.entriesOf id

theorem mem_entriesOf :
    kv ∈ t.entriesOf id ↔ kv ∈ t.entries ∧ kv.1 = id.key kv.2.generation := by
  rw [entriesOf, List.mem_filter, decide_eq_true_iff]

theorem plain_iff : t.Plain ↔
    ∀ kv ∈ t.entries, ∃ id : ObjectId, id.Plain ∧ kv.1 = id.key kv.2.generation := by
  refine forall_congr' fun kv => forall_congr' fun hkv => exists_congr fun id => ?_
  rw [mem_entriesOf, and_iff_right hkv]

theorem plain_empty : empty.Plain := fun _ h => absurd h List.not_mem_nil

namespace Plain

theorem keyed (h : t.Plain) : t.Keyed := by
  intro kv hkv
  obtain ⟨id, _, hkey⟩ := plain_iff.1 h kv hkv
  exact ⟨id, hkey⟩

/-- The entries of an object are those whose keys start like its own. -/
theorem hasStart_iff (h : t.Plain) (hid : id.Plain) (hkv : kv ∈ t.entries) :
    Text.hasStart kv.1 id.objectKey = true ↔ kv.1 = id.key kv.2.generation := by
  constructor
  · intro hstart
    obtain ⟨id', hid', hkey⟩ := plain_iff.1 h kv hkv
    rw [hkey] at hstart
    rw [hkey, (ObjectId.hasStart_key_iff hid hid').1 hstart]
  · intro hkey
    rw [hkey]
    exact id.hasStart_key _

theorem dropUnder (h : t.Plain) (start : String) : (t.dropUnder start).Plain :=
  plain_iff.2 fun kv hkv => plain_iff.1 h kv (List.mem_filter.1 hkv).1

theorem ensure (h : t.Plain) (hid : id.Plain) : (t.ensure id g initial).2.Plain := by
  rw [plain_iff]
  unfold Tracker.ensure
  split
  · exact plain_iff.1 h
  · split
    · exact plain_iff.1 h
    · intro kv hkv
      rcases List.mem_cons.1 hkv with rfl | hkv
      · exact ⟨id, hid, rfl⟩
      · exact plain_iff.1 (h.dropUnder _) kv hkv

end Plain

/-! ### Forgetting -/

/-- Dropping what starts in some way drops the entries of the objects whose keys all start so. -/
theorem entriesOf_dropUnder_of_hasStart {start : String}
    (hstart : Text.hasStart id.objectKey start = true) :
    (t.dropUnder start).entriesOf id = [] := by
  rw [List.eq_nil_iff_forall_not_mem]
  intro kv hkv
  obtain ⟨hkept, hkey⟩ := mem_entriesOf.1 hkv
  have hnot := (List.mem_filter.1 hkept).2
  rw [hkey, Text.hasStart_trans (id.hasStart_key _) hstart] at hnot
  exact absurd hnot (by decide)

theorem entriesOf_dropUnder_of_not {start : String}
    (h : ∀ g, Text.hasStart (id.key g) start = false) :
    (t.dropUnder start).entriesOf id = t.entriesOf id := by
  rw [entriesOf, dropUnder, List.filter_filter, entriesOf]
  refine List.filter_congr fun kv _ => ?_
  by_cases hkey : kv.1 = id.key kv.2.generation
  · rw [hkey, h]
    simp
  · simp [hkey]

theorem entriesOf_forget_self : (t.forget id).entriesOf id = [] :=
  entriesOf_dropUnder_of_hasStart (Text.hasStart_iff.2 ⟨[], (List.append_nil _).symm⟩)

theorem entriesOf_forget_of_ne (hid : id.Plain) (hother : other.Plain) (hne : other ≠ id) :
    (t.forget id).entriesOf other = t.entriesOf other := by
  refine entriesOf_dropUnder_of_not fun g => ?_
  rw [Bool.eq_false_iff]
  exact fun h => hne ((ObjectId.hasStart_key_iff hid hother).1 h)

theorem entriesOf_forgetNamed (hid : id.Plain) (hkind : ObjectId.PlainText kind)
    (hns : ObjectId.PlainText ns) (hname : ObjectId.PlainText name) :
    (t.forgetNamed kind ns name).entriesOf id =
      if ObjectId.Named kind ns name id then [] else t.entriesOf id := by
  split
  · rename_i hnamed
    obtain ⟨rfl, rfl, rfl⟩ := hnamed
    exact entriesOf_dropUnder_of_hasStart id.hasStart_objectKey
  · rename_i hnamed
    refine entriesOf_dropUnder_of_not fun g => ?_
    rw [Bool.eq_false_iff]
    exact fun h => hnamed (ObjectId.named_of_hasStart hid hkind hns hname (id.hasStart_key g) h)

/-! ### Asking for an entry -/

theorem entriesOf_eq_singleton
    (hg : (t.entriesOf id).map (fun kv => kv.2.generation) = [g]) :
    ∃ e, t.entriesOf id = [(id.key g, e)] := by
  obtain ⟨⟨key, e⟩, hkv, hgen⟩ := List.map_eq_singleton_iff.1 hg
  have hkey := (mem_entriesOf.1 (by rw [hkv]; exact List.mem_singleton_self (key, e))).2
  refine ⟨e, ?_⟩
  rw [hkv, ← hgen]
  exact congrArg (fun k => [(k, e)]) hkey

/-- The generation that is kept is the one that is found. -/
theorem Plain.get?_isSome_iff (h : t.Plain)
    (hlatest : (t.entriesOf id).map (fun kv => kv.2.generation) = latest.toList) :
    (t.get? id g).isSome = true ↔ latest = some g := by
  rw [← Option.mem_toList, ← hlatest, List.mem_map, Option.isSome_iff_exists]
  constructor
  · rintro ⟨e, he⟩
    have hgen := h.keyed.generation_of_get? he
    refine ⟨(id.key g, e), mem_entriesOf.2 ⟨mem_of_lookup he, ?_⟩, hgen⟩
    rw [hgen]
  · rintro ⟨kv, hkv, rfl⟩
    obtain ⟨hmem, hkey⟩ := mem_entriesOf.1 hkv
    rw [← Option.isSome_iff_exists, get?, ← hkey, find?, List.lookup_isSome_iff]
    exact ⟨kv, hmem, beq_self_eq_true _⟩

/-- The one entry of an object is found under its generation. -/
theorem Plain.get?_of_entriesOf (h : t.Plain) (he : t.entriesOf id = [(id.key g, e)]) :
    t.get? id g = some e := by
  have hmem : (id.key g, e) ∈ t.entriesOf id := by
    rw [he]
    exact List.mem_cons_self
  have hg : e.generation = g := (ObjectId.generation_of_key_eq (mem_entriesOf.1 hmem).2).symm
  have hlatest : (t.entriesOf id).map (fun kv => kv.2.generation) = (some g).toList := by
    rw [he, ← hg]
    rfl
  have hsome := (h.get?_isSome_iff (g := g) hlatest).2 rfl
  obtain ⟨e', he'⟩ := Option.isSome_iff_exists.1 hsome
  have hmem' : (id.key g, e') ∈ t.entriesOf id := by
    refine mem_entriesOf.2 ⟨mem_of_lookup he', ?_⟩
    rw [h.keyed.generation_of_get? he']
  rw [he, List.mem_singleton] at hmem'
  rw [he', (Prod.mk.inj hmem').2]

theorem Plain.hasNewer_iff (h : t.Plain) (hid : id.Plain)
    (hlatest : (t.entriesOf id).map (fun kv => kv.2.generation) = latest.toList) :
    t.hasNewer id g = true ↔ ∃ m, latest = some m ∧ g < m := by
  rw [hasNewer, List.any_eq_true]
  have hmem : ∀ m, latest = some m ↔ ∃ kv ∈ t.entriesOf id, kv.2.generation = m := by
    intro m
    rw [← List.mem_map (f := fun kv : String × Entry => kv.2.generation), hlatest,
      Option.mem_toList]
  constructor
  · rintro ⟨kv, hkv, hnewer⟩
    obtain ⟨hstart, hlt⟩ := Bool.and_eq_true_iff.1 hnewer
    have hkey := (h.hasStart_iff hid hkv).1 hstart
    exact ⟨_, (hmem _).2 ⟨kv, mem_entriesOf.2 ⟨hkv, hkey⟩, rfl⟩, of_decide_eq_true hlt⟩
  · rintro ⟨m, hm, hlt⟩
    obtain ⟨kv, hkv, rfl⟩ := (hmem m).1 hm
    obtain ⟨hkv, hkey⟩ := mem_entriesOf.1 hkv
    exact ⟨kv, hkv, Bool.and_eq_true_iff.2 ⟨(h.hasStart_iff hid hkv).2 hkey, decide_eq_true hlt⟩⟩

theorem ensure_of_newer (hnone : t.get? id g = none) (hnewer : t.hasNewer id g = true) :
    t.ensure id g initial = (.fresh g initial, t) := by
  rw [ensure, hnone]
  exact if_pos hnewer

theorem ensure_of_none (hnone : t.get? id g = none) (hnewer : t.hasNewer id g = false) :
    t.ensure id g initial =
      (.fresh g initial, ⟨(id.key g, .fresh g initial) :: (t.forget id).entries⟩) := by
  rw [ensure, hnone]
  exact if_neg (by rw [hnewer]; decide)

theorem entriesOf_cons :
    entriesOf ⟨kv :: t.entries⟩ id =
      if kv.1 = id.key kv.2.generation then kv :: t.entriesOf id else t.entriesOf id := by
  rw [entriesOf, List.filter_cons, entriesOf]
  simp only [decide_eq_true_iff]

/-- An entry asked for that is made and kept is the only one of its object. -/
theorem entriesOf_ensure_of_none (hnone : t.get? id g = none) (hnewer : t.hasNewer id g = false) :
    (t.ensure id g initial).2.entriesOf id = [(id.key g, .fresh g initial)] := by
  rw [ensure_of_none hnone hnewer, entriesOf_cons, entriesOf_forget_self]
  exact if_pos rfl

/-- Asking for an entry of an object leaves those of every other. -/
theorem entriesOf_ensure_of_ne (hid : id.Plain) (hother : other.Plain) (hne : other ≠ id) :
    (t.ensure id g initial).2.entriesOf other = t.entriesOf other := by
  cases hget : t.get? id g with
  | some e => rw [ensure_of_get? hget]
  | none =>
      cases hnewer : t.hasNewer id g with
      | true => rw [ensure_of_newer hget hnewer]
      | false =>
          rw [ensure_of_none hget hnewer, entriesOf_cons, if_neg,
            entriesOf_forget_of_ne hid hother hne]
          intro hkey
          have hstart := id.hasStart_key g
          rw [show id.key g = other.key _ from hkey] at hstart
          exact hne ((ObjectId.hasStart_key_iff hid hother).1 hstart)

/-! ### Changing an entry -/

/-- The tracker with the entry under a key changed. -/
def amend (t : Tracker) (key : String) (f : Entry → Entry) : Tracker :=
  ⟨t.entries.map fun kv => if kv.1 = key then (kv.1, f kv.2) else kv⟩

section Amend

variable (hf : ∀ e, (f e).generation = e.generation)

include hf

theorem Plain.amend (h : t.Plain) : (t.amend key f).Plain := by
  rw [plain_iff]
  intro kv hkv
  obtain ⟨kv', hkv', rfl⟩ := List.mem_map.1 hkv
  obtain ⟨id, hid, hkey⟩ := plain_iff.1 h kv' hkv'
  refine ⟨id, hid, ?_⟩
  split
  · rw [hkey, hf]
  · exact hkey

theorem entriesOf_amend : (t.amend key f).entriesOf id =
    (t.entriesOf id).map fun kv => if kv.1 = key then (kv.1, f kv.2) else kv := by
  rw [entriesOf, amend, List.filter_map, entriesOf]
  congr 1
  refine List.filter_congr fun kv _ => ?_
  rw [Function.comp_apply]
  split
  · rw [hf]
  · rfl

/-- A change of an entry leaves its generation. -/
theorem generations_amend : ((t.amend key f).entriesOf id).map (fun kv => kv.2.generation) =
    (t.entriesOf id).map fun kv => kv.2.generation := by
  rw [entriesOf_amend hf, List.map_map]
  refine List.map_congr_left fun kv _ => ?_
  rw [Function.comp_apply]
  split
  · exact hf _
  · rfl

end Amend

end Tracker

end ReleaseOperator
