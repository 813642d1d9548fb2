import Mathlib.Data.String.Basic
import ReleaseOperator.Proofs.Codec.Records
import ReleaseOperator.Release.Values
import ReleaseOperator.Yaml.Values

/-!
# Values in order

An object is put together field by field, and each field finds its place among the keys. So however
a value has come about, whether it was read, put together or merged, the fields of each object in it
stand in the order of their keys, and no key stands there twice. Of two such objects it is enough to
know that each key gives the same.
-/

namespace ReleaseOperator

namespace Json

/-- Fields in the order of their keys, each key once. -/
def Rising (fields : List (String × Json)) : Prop :=
  fields.Pairwise fun f g => f.1 < g.1

/-- A value all of whose objects have their fields in order. -/
inductive Ordered : Json → Prop
  | null : Ordered null
  | bool (b : Bool) : Ordered (bool b)
  | whole (i : Int) : Ordered (whole i)
  | real (bits : Nat) : Ordered (real bits)
  | text (s : String) : Ordered (text s)
  | array {items : List Json} (h : ∀ v ∈ items, Ordered v) : Ordered (array items)
  | object {fields : List (String × Json)} (hrising : Rising fields)
      (h : ∀ f ∈ fields, Ordered f.2) : Ordered (object fields)

variable {key k : String} {v w : Json} {f : String × Json} {fields others : List (String × Json)}

theorem Ordered.rising (h : (Json.object fields).Ordered) : Rising fields := by
  cases h with
  | object hrising _ => exact hrising

theorem Ordered.field (h : (Json.object fields).Ordered) (hf : f ∈ fields) : f.2.Ordered := by
  cases h with
  | object _ hfields => exact hfields f hf

/-! ### Fields in order -/

@[simp] theorem rising_nil : Rising [] := List.Pairwise.nil

theorem rising_cons_iff : Rising ((k, v) :: fields) ↔ (∀ f ∈ fields, k < f.1) ∧ Rising fields :=
  List.pairwise_cons

theorem mem_of_lookup (h : lookup key fields = some v) : (key, v) ∈ fields := by
  induction fields with
  | nil => simp at h
  | cons f rest ih =>
      obtain ⟨k, w⟩ := f
      rw [lookup_cons] at h
      split at h
      · rename_i heq
        simp [heq, Option.some.inj h]
      · exact List.mem_cons_of_mem _ (ih h)

theorem lookup_eq_none (h : ∀ f ∈ fields, key < f.1) : lookup key fields = none := by
  cases hv : lookup key fields with
  | none => rfl
  | some v => exact absurd (h _ (mem_of_lookup hv)) (String.lt_irrefl key)

/-- Fields in order are the same when each key gives the same. -/
theorem eq_of_lookup (h : Rising fields) (hothers : Rising others)
    (hsame : ∀ key, lookup key fields = lookup key others) : fields = others := by
  induction fields generalizing others with
  | nil =>
      cases others with
      | nil => rfl
      | cons g rest =>
          obtain ⟨l, w⟩ := g
          have hnone := hsame l
          simp at hnone
  | cons f rest ih =>
      obtain ⟨k, v⟩ := f
      obtain ⟨hlt, hrest⟩ := rising_cons_iff.1 h
      cases others with
      | nil =>
          have hnone := hsame k
          simp at hnone
      | cons g rest' =>
          obtain ⟨l, w⟩ := g
          obtain ⟨hlt', hrest'⟩ := rising_cons_iff.1 hothers
          -- The first key of either side stands on the other one, behind which no key is smaller.
          have hmem : (k, v) ∈ (l, w) :: rest' :=
            mem_of_lookup ((hsame k).symm.trans (by simp))
          have hmem' : (l, w) ∈ (k, v) :: rest := mem_of_lookup ((hsame l).trans (by simp))
          have heq : (k, v) = (l, w) := by
            rcases List.mem_cons.1 hmem with heq | hmem
            · exact heq
            · rcases List.mem_cons.1 hmem' with heq | hmem'
              · exact heq.symm
              · exact absurd (hlt _ hmem') (String.lt_asymm (hlt' _ hmem))
          obtain ⟨rfl, rfl⟩ := Prod.mk.inj heq
          congr 1
          refine ih hrest hrest' fun key => ?_
          by_cases hkey : key = k
          · rw [hkey, lookup_eq_none hlt, lookup_eq_none hlt']
          · simpa [hkey] using hsame key

/-! ### Putting values together -/

theorem mem_put (h : f ∈ put key v fields) : f = (key, v) ∨ f ∈ fields := by
  induction fields with
  | nil => simpa [put] using h
  | cons g rest ih =>
      obtain ⟨k, w⟩ := g
      grind [put]

theorem Rising.put (h : Rising fields) : Rising (Json.put key v fields) := by
  induction fields with
  | nil => simp [Json.put, Rising]
  | cons g rest ih =>
      obtain ⟨k, w⟩ := g
      obtain ⟨hlt, hrest⟩ := rising_cons_iff.1 h
      rw [Json.put]
      split
      · rename_i heq
        rw [heq]
        exact rising_cons_iff.2 ⟨hlt, hrest⟩
      · rename_i hne
        split
        · rename_i hkey
          refine rising_cons_iff.2 ⟨fun f hf => ?_, h⟩
          rcases List.mem_cons.1 hf with rfl | hf
          · exact hkey
          · exact String.lt_trans hkey (hlt f hf)
        · rename_i hkey
          refine rising_cons_iff.2 ⟨fun f hf => ?_, ih hrest⟩
          rcases mem_put hf with rfl | hf
          · exact lt_of_le_of_ne (not_lt.1 hkey) (Ne.symm hne)
          · exact hlt f hf

theorem rising_foldl_put (h : Rising others) :
    Rising (fields.foldl (fun acc f => Json.put f.1 f.2 acc) others) := by
  induction fields generalizing others with
  | nil => exact h
  | cons f rest ih => exact ih h.put

theorem Ordered.put (h : (Json.object fields).Ordered) (hv : v.Ordered) :
    (Json.object (Json.put key v fields)).Ordered := by
  refine .object h.rising.put fun f hf => ?_
  rcases mem_put hf with rfl | hf
  · exact hv
  · exact h.field hf

theorem ordered_empty : (object []).Ordered :=
  .object rising_nil (by simp)

theorem ordered_foldl_put (h : (object others).Ordered) (hfields : ∀ f ∈ fields, f.2.Ordered) :
    (object (fields.foldl (fun acc f => Json.put f.1 f.2 acc) others)).Ordered := by
  induction fields generalizing others with
  | nil => exact h
  | cons f rest ih =>
      obtain ⟨hf, hrest⟩ := List.forall_mem_cons.1 hfields
      exact ih (h.put hf) hrest

/-- An object is in order whatever the order in which its fields came. -/
theorem ordered_ofFields (h : ∀ f ∈ fields, f.2.Ordered) : (ofFields fields).Ordered :=
  ordered_foldl_put ordered_empty h

end Json

/-! ### Reading -/

namespace Yaml

open Json

theorem ordered_toJson (a : Atom) : a.toJson.Ordered := by
  cases a with
  | real bits =>
      rw [Atom.toJson]
      split
      · exact .real bits
      · exact .null
  | _ => constructor

namespace Node

mutual

/-- The value of a node is in order, in whatever order its keys were written. -/
theorem ordered_toJson? : ∀ (n : Node) {v : Json}, n.toJson? = .ok v → v.Ordered
  | scalar tag plain s, v, h => by
      simp only [toJson?] at h
      split at h
      · cases h
      · split at h
        · obtain rfl := Except.ok.inj h
          exact ordered_toJson _
        · cases h
  | sequence tag items, v, h => by
      simp only [toJson?] at h
      split at h
      · cases h
      · split at h
        · rename_i vs hvs
          obtain rfl := Except.ok.inj h
          exact .array (ordered_itemsToJson? items hvs)
        · cases h
  | mapping tag entries, v, h => by
      simp only [toJson?] at h
      split at h
      · cases h
      · split at h
        · rename_i fields hfields
          obtain rfl := Except.ok.inj h
          exact ordered_ofFields (ordered_entriesToJson? entries hfields)
        · cases h

theorem ordered_itemsToJson? : ∀ (ns : List Node) {vs : List Json},
    itemsToJson? ns = .ok vs → ∀ v ∈ vs, v.Ordered
  | [], vs, h => by
      obtain rfl := Except.ok.inj h
      simp
  | n :: rest, vs, h => by
      simp only [itemsToJson?] at h
      split at h
      · cases h
      · rename_i v hv
        split at h
        · cases h
        · rename_i ws hws
          obtain rfl := Except.ok.inj h
          exact List.forall_mem_cons.2 ⟨ordered_toJson? n hv, ordered_itemsToJson? rest hws⟩

theorem ordered_entriesToJson? : ∀ (entries : List (Node × Node)) {fields : List (String × Json)},
    entriesToJson? entries = .ok fields → ∀ f ∈ fields, f.2.Ordered
  | [], fields, h => by
      obtain rfl := Except.ok.inj h
      simp
  | (k, n) :: rest, fields, h => by
      simp only [entriesToJson?] at h
      split at h
      · cases h
      · split at h
        · cases h
        · rename_i v hv
          split at h
          · cases h
          · rename_i others hothers
            obtain rfl := Except.ok.inj h
            exact List.forall_mem_cons.2
              ⟨ordered_toJson? n hv, ordered_entriesToJson? rest hothers⟩

end

end Node

theorem ordered_of_readValue? {s : String} {v : Json} (h : readValue? s = .ok v) : v.Ordered := by
  cases hnode : Node.ofText? s with
  | error e => simp [readValue?, hnode, bind, Except.bind] at h
  | ok n => exact n.ordered_toJson? (by simpa [readValue?, hnode, bind, Except.bind] using h)

end Yaml

end ReleaseOperator
