import Mathlib.Data.List.Induction
import Mathlib.Data.List.Infix
import ReleaseOperator.Proofs.Rollouts
import ReleaseOperator.Proofs.Values.Ordered

/-!
# Later documents win, path by path

Documents of values are laid over each other in their order. What the merge has at a path of keys
depends on what each document has at the path and on the way to it. A document that has something
other than a map there closes the path to all documents before it. So of those behind the last such
document either some have a map at the path, and then the merge has the merge of these maps, or none
has, and then the merge has what that last document has there itself.
-/

namespace ReleaseOperator

namespace Json

/-- A value has a map at a path. -/
def HasMap (path : List String) (v : Json) : Prop :=
  ∃ fields, v.at? path = some (object fields)

/-- A value has something other than a map at a path or on the way to it. -/
def Closes (path : List String) (v : Json) : Prop :=
  ∃ start, start ≠ [] ∧ start <+: path ∧ ∃ w, v.at? start = some w ∧ w.isObject = false

/-- A document of values: a map, or the null value where it is empty. -/
structure IsDocument (d : Json) : Prop where
  shape : d = null ∨ d.isObject = true
  ordered : d.Ordered

instance (path : List String) (v : Json) : Decidable (v.HasMap path) :=
  decidable_of_iff ((v.at? path).any isObject = true) <| by
    cases h : v.at? path with
    | none => simp [HasMap, h]
    | some w => cases w <;> simp [HasMap, h, isObject]

instance (path : List String) (v : Json) : Decidable (v.Closes path) :=
  decidable_of_iff
      (∃ start ∈ path.inits, start ≠ [] ∧ (v.at? start).any (fun w => !w.isObject) = true) <| by
    simp [List.mem_inits, Option.any_eq_true, Closes, and_left_comm]

variable {key : String} {path : List String} {v w d : Json} {fields : List (String × Json)}

theorem isDocument_null : null.IsDocument := ⟨.inl rfl, .null⟩

theorem isDocument_ofFields (h : ∀ f ∈ fields, f.2.Ordered) : (ofFields fields).IsDocument :=
  ⟨.inr rfl, ordered_ofFields h⟩

@[simp] theorem at?_nil (v : Json) : v.at? [] = some v := rfl

theorem at?_cons (key : String) (path : List String) (v : Json) :
    v.at? (key :: path) = (v.get? key).bind (at? path) := rfl

@[simp] theorem get?_object (key : String) (fields : List (String × Json)) :
    (object fields).get? key = lookup key fields := rfl

theorem get?_of_not_object (h : v.isObject = false) : v.get? key = none := by
  cases v <;> simp_all [get?, isObject]

theorem eq_object_of_isObject (h : v.isObject = true) : ∃ fields, v = object fields := by
  cases v <;> simp_all [isObject]

theorem at?_append (path rest : List String) (v : Json) :
    v.at? (path ++ rest) = (v.at? path).bind (at? rest) := by
  induction path generalizing v with
  | nil => rfl
  | cons key path ih =>
      rw [List.cons_append, at?_cons, at?_cons, Option.bind_assoc]
      congr 1
      funext w
      exact ih w

theorem at?_of_not_object (h : v.isObject = false) (hpath : path ≠ []) : v.at? path = none := by
  obtain ⟨key, path, rfl⟩ := List.exists_cons_of_ne_nil hpath
  simp [at?_cons, get?_of_not_object h]

theorem Ordered.get? (h : v.Ordered) (hw : v.get? key = some w) : w.Ordered := by
  cases h with
  | object hrising hfields => exact hfields _ (mem_of_lookup hw)
  | _ => simp [Json.get?] at hw

theorem Ordered.at? (h : v.Ordered) (hw : v.at? path = some w) : w.Ordered := by
  induction path generalizing v with
  | nil => exact Option.some.inj hw ▸ h
  | cons key path ih =>
      obtain ⟨u, hu, hw⟩ := Option.bind_eq_some_iff.1 hw
      exact ih (h.get? hu) hw

/-! ### Closed paths -/

theorem closes_of_at? (hpath : path ≠ []) (h : v.at? path = some w) (hw : w.isObject = false) :
    v.Closes path :=
  ⟨path, hpath, List.prefix_rfl, w, h, hw⟩

/-- Where a path is closed there is no map at its end. -/
theorem not_isObject_of_closes (h : v.Closes path) (hw : v.at? path = some w) :
    w.isObject = false := by
  obtain ⟨start, -, ⟨rest, rfl⟩, u, hu, hmap⟩ := h
  rw [at?_append, hu, Option.bind_some] at hw
  by_cases hrest : rest = []
  · subst hrest
    exact Option.some.inj hw ▸ hmap
  · simp [at?_of_not_object hmap hrest] at hw

/-- Where it is open there is nothing but a map. -/
theorem isObject_of_not_closes (hpath : path ≠ []) (h : ¬ v.Closes path)
    (hw : v.at? path = some w) : w.isObject = true := by
  by_contra hmap
  exact h (closes_of_at? hpath hw (by simpa using hmap))

theorem hasMap_or_none (hpath : path ≠ []) (h : ¬ v.Closes path) :
    v.HasMap path ∨ v.at? path = none := by
  cases hw : v.at? path with
  | none => exact .inr rfl
  | some w =>
      obtain ⟨fields, rfl⟩ := eq_object_of_isObject (isObject_of_not_closes hpath h hw)
      exact .inl ⟨fields, hw⟩

theorem closes_cons_iff : (object fields).Closes (key :: path) ↔
    ∃ v, lookup key fields = some v ∧ (v.isObject = false ∨ v.Closes path) := by
  constructor
  · rintro ⟨start, hne, hprefix, w, hw, hmap⟩
    obtain ⟨k, start, rfl⟩ := List.exists_cons_of_ne_nil hne
    obtain ⟨rfl, hrest⟩ := List.cons_prefix_cons.1 hprefix
    obtain ⟨v, hv, hw⟩ := Option.bind_eq_some_iff.1 hw
    refine ⟨v, hv, ?_⟩
    cases start with
    | nil => exact .inl (Option.some.inj hw ▸ hmap)
    | cons l start => exact .inr ⟨l :: start, by simp, hrest, w, hw, hmap⟩
  · rintro ⟨v, hv, hmap | ⟨start, hne, hprefix, w, hw, hmap⟩⟩
    · exact ⟨[key], by simp, by simp, v, by simp [at?_cons, hv], hmap⟩
    · exact ⟨key :: start, by simp, by simpa using hprefix, w, by simp [at?_cons, hv, hw], hmap⟩

theorem at?_null (hpath : path ≠ []) : null.at? path = none :=
  at?_of_not_object rfl hpath

theorem not_closes_null : ¬ null.Closes path := by
  rintro ⟨start, hne, -, w, hw, -⟩
  simp [at?_null hne] at hw

end Json

namespace Values

open Json

variable {key : String} {path : List String} {u v w d m : Json} {o : Option Json}
  {fields upper base : List (String × Json)} {documents earlier later maps : List Json}

/-! ### One layer -/

/-- A value over what was there before, if anything was. -/
def onTop (v : Json) : Option Json → Json
  | some w => layOver v w
  | none => v

@[simp] theorem onTop_none (v : Json) : onTop v none = v := rfl

theorem layOver_of_not_object (h : v.isObject = false ∨ w.isObject = false) : layOver v w = v := by
  cases v <;> cases w <;> simp_all [layOver, isObject]

theorem onTop_of_not_object (h : v.isObject = false ∨ ∀ w, o = some w → w.isObject = false) :
    onTop v o = v := by
  cases o with
  | none => rfl
  | some w => exact layOver_of_not_object (h.imp_right fun h => h w rfl)

theorem isObject_onTop (h : v.isObject = true) : (onTop v o).isObject = true := by
  cases o with
  | none => exact h
  | some w => cases v <;> cases w <;> simp_all [onTop, layOver, isObject]

theorem layFields_cons (key : String) (v : Json) (rest base : List (String × Json)) :
    layFields ((key, v) :: rest) base =
      layFields rest (put key (onTop v (lookup key base)) base) := by
  rw [layFields]
  cases lookup key base <;> rfl

/-- A key of the upper map gives its value over the one below; any other key gives what is below. -/
theorem lookup_layFields (h : Rising upper) : lookup key (layFields upper base) =
    match lookup key upper with
    | some v => some (onTop v (lookup key base))
    | none => lookup key base := by
  induction upper generalizing base with
  | nil => simp [layFields]
  | cons f rest ih =>
      obtain ⟨k, v⟩ := f
      obtain ⟨hlt, hrest⟩ := rising_cons_iff.1 h
      rw [layFields_cons, ih hrest, lookup_put, lookup_cons]
      by_cases hkey : key = k
      · simp [hkey, lookup_eq_none hlt]
      · simp [hkey]

theorem get?_onTop (h : Rising fields) : (onTop (object fields) o).get? key =
    match lookup key fields with
    | some v => some (onTop v (o.bind (get? key)))
    | none => o.bind (get? key) := by
  by_cases hmap : ∃ base, o = some (object base)
  · obtain ⟨base, rfl⟩ := hmap
    rw [onTop, layOver]
    exact lookup_layFields h
  · have hnone : ∀ w, o = some w → w.isObject = false := by
      intro w hw
      cases w <;> simp_all [isObject]
    have hbelow : o.bind (get? key) = none := by
      cases o with
      | none => rfl
      | some w => exact get?_of_not_object (hnone w rfl)
    rw [onTop_of_not_object (.inr hnone), hbelow]
    simp only [get?_object, onTop_none]
    cases lookup key fields <;> rfl

theorem ordered_layFields (hupper : ∀ f ∈ upper, f.2.Ordered)
    (h : ∀ f ∈ upper, ∀ w, w.Ordered → (layOver f.2 w).Ordered) (hbase : (object base).Ordered) :
    (object (layFields upper base)).Ordered := by
  induction upper generalizing base with
  | nil => simpa [layFields] using hbase
  | cons f rest ih =>
      obtain ⟨hf, hrest⟩ := List.forall_mem_cons.1 hupper
      obtain ⟨hover, hrestover⟩ := List.forall_mem_cons.1 h
      have hlaid : (onTop f.2 (lookup f.1 base)).Ordered := by
        cases hw : lookup f.1 base with
        | none => exact hf
        | some w => exact hover w (hbase.field (mem_of_lookup hw))
      rw [layFields_cons]
      exact ih hrest hrestover (hbase.put hlaid)

theorem ordered_layOver (hv : v.Ordered) (hw : w.Ordered) : (layOver v w).Ordered := by
  induction hv generalizing w with
  | object hrising hfields ih =>
      cases hmap : w.isObject with
      | false =>
          rw [layOver_of_not_object (.inr hmap)]
          exact .object hrising hfields
      | true =>
          obtain ⟨base, rfl⟩ := eq_object_of_isObject hmap
          rw [layOver]
          exact ordered_layFields hfields (fun f hf w hw => ih f hf hw) hw
  | _ =>
      rw [layOver_of_not_object]
      · constructor
        try assumption
      · exact .inl rfl

theorem ordered_onTop (hv : v.Ordered) (ho : ∀ w, o = some w → w.Ordered) :
    (onTop v o).Ordered := by
  cases o with
  | none => exact hv
  | some w => exact ordered_layOver hv (ho w rfl)

/-- What lies on top already is not changed by being laid over it once more. -/
theorem layOver_onTop (hv : v.Ordered) (ho : ∀ w, o = some w → w.Ordered) :
    layOver v (onTop v o) = onTop v o := by
  induction hv generalizing o with
  | object hrising hfields ih =>
      rename_i fields
      have hordered : (onTop (object fields) o).Ordered :=
        ordered_onTop (.object hrising hfields) ho
      obtain ⟨top, htop⟩ := eq_object_of_isObject (isObject_onTop (v := object fields) (o := o) rfl)
      have hlookup : ∀ key, lookup key top = _ := fun key =>
        (congrArg (get? key) htop).symm.trans (get?_onTop hrising)
      rw [htop] at hordered ⊢
      have hlaid : (object (layFields fields top)).Ordered :=
        ordered_layOver (.object hrising hfields) hordered
      rw [layOver]
      refine congrArg object (eq_of_lookup hlaid.rising hordered.rising fun key => ?_)
      rw [lookup_layFields hrising, hlookup key]
      cases hv : lookup key fields with
      | none => rfl
      | some v =>
          refine congrArg some (ih (key, v) (mem_of_lookup hv) fun w hw => ?_)
          obtain ⟨u, hu, hw⟩ := Option.bind_eq_some_iff.1 hw
          exact (ho u hu).get? hw
  | _ =>
      rw [layOver_of_not_object (.inl rfl), onTop_of_not_object (.inl rfl)]

/-! ### One layer at a path -/

/-- Where the upper value has something, there it stands over what is below. -/
theorem at?_onTop_of_some (hv : v.Ordered) (hu : v.at? path = some u) :
    (onTop v o).at? path = some (onTop u (o.bind (at? path))) := by
  induction path generalizing v o with
  | nil =>
      obtain rfl := Option.some.inj hu
      cases o <;> rfl
  | cons key path ih =>
      obtain ⟨w, hw, hpath⟩ := Option.bind_eq_some_iff.1 hu
      clear hu
      cases v with
      | object fields =>
          have hlookup : lookup key fields = some w := hw
          rw [at?_cons, get?_onTop hv.rising, hlookup, Option.bind_some, ih (hv.get? hw) hpath,
            Option.bind_assoc]
          rfl
      | _ => simp [get?] at hw

/-- Where it closes the path, nothing is left behind it. -/
theorem at?_onTop_of_closes (hv : (object fields).Ordered) (hnone : (object fields).at? path = none)
    (hcloses : (object fields).Closes path) : (onTop (object fields) o).at? path = none := by
  induction path generalizing fields o with
  | nil => simp at hnone
  | cons key path ih =>
      obtain ⟨w, hw, hclosed⟩ := closes_cons_iff.1 hcloses
      rw [at?_cons, get?_object, hw, Option.bind_some] at hnone
      rw [at?_cons, get?_onTop hv.rising, hw, Option.bind_some]
      cases hmap : w.isObject with
      | false => rwa [onTop_of_not_object (.inl hmap)]
      | true =>
          obtain ⟨rest, rfl⟩ := eq_object_of_isObject hmap
          exact ih (hv.field (mem_of_lookup hw)) hnone (by simpa [isObject] using hclosed)

/-- Where it says nothing, there is what is below. -/
theorem at?_onTop_of_open (hv : (object fields).Ordered) (hnone : (object fields).at? path = none)
    (hopen : ¬ (object fields).Closes path) :
    (onTop (object fields) o).at? path = o.bind (at? path) := by
  induction path generalizing fields o with
  | nil => simp at hnone
  | cons key path ih =>
      rw [closes_cons_iff] at hopen
      rw [at?_cons, get?_object] at hnone
      rw [at?_cons, get?_onTop hv.rising]
      have hbelow : o.bind (at? (key :: path)) = (o.bind (get? key)).bind (at? path) := by
        rw [Option.bind_assoc]
        rfl
      rw [hbelow]
      cases hw : lookup key fields with
      | none => rfl
      | some w =>
          rw [hw, Option.bind_some] at hnone
          simp only [hw, Option.some.injEq, exists_eq_left', not_or, Bool.not_eq_false] at hopen
          obtain ⟨rest, rfl⟩ := eq_object_of_isObject hopen.1
          exact ih (hv.field (mem_of_lookup hw)) hnone hopen.2

/-! ### The merge of documents -/

theorem mergeAll_concat (documents : List Json) (d : Json) : mergeAll (documents ++ [d]) =
    if d.isNull = true then mergeAll documents else onTop d (some (mergeAll documents)) := by
  cases hnull : d.isNull <;> simp [mergeAll, hnull, mergeInto, onTop]

theorem ordered_mergeAll (h : ∀ d ∈ documents, d.Ordered) : (mergeAll documents).Ordered := by
  induction documents using List.reverseRecOn with
  | nil => exact ordered_empty
  | append_singleton documents d ih =>
      simp only [List.mem_append, List.mem_singleton, or_imp, forall_and, forall_eq] at h
      rw [mergeAll_concat]
      split
      · exact ih h.1
      · exact ordered_layOver h.2 (ih h.1)

theorem mergeAll_concat_of_not_null (h : d.isNull = false) :
    mergeAll (documents ++ [d]) = onTop d (some (mergeAll documents)) := by
  simp [mergeAll_concat, h]

theorem isObject_mergeAll (h : ∀ d ∈ documents, d = null ∨ d.isObject = true) :
    (mergeAll documents).isObject = true := by
  induction documents using List.reverseRecOn with
  | nil => rfl
  | append_singleton documents d ih =>
      simp only [List.mem_append, List.mem_singleton, or_imp, forall_and, forall_eq] at h
      rw [mergeAll_concat]
      split
      · exact ih h.1
      · rename_i hnull
        refine isObject_onTop (h.2.resolve_left ?_)
        rintro rfl
        exact hnull rfl

section OneMore

variable (hd : d.IsDocument)
include hd

theorem at?_mergeAll_concat_of_some (hpath : path ≠ []) (hu : d.at? path = some u) :
    (mergeAll (documents ++ [d])).at? path = some (onTop u ((mergeAll documents).at? path)) := by
  have hnull : d.isNull = false := by
    cases d <;> simp_all [at?_null, isNull]
  rw [mergeAll_concat_of_not_null hnull, at?_onTop_of_some hd.ordered hu, Option.bind_some]

theorem at?_mergeAll_concat_of_closes (hnone : d.at? path = none) (hcloses : d.Closes path) :
    (mergeAll (documents ++ [d])).at? path = none := by
  rcases hd.shape with rfl | hmap
  · exact absurd hcloses not_closes_null
  · obtain ⟨fields, rfl⟩ := eq_object_of_isObject hmap
    rw [mergeAll_concat_of_not_null rfl, at?_onTop_of_closes hd.ordered hnone hcloses]

theorem at?_mergeAll_concat_of_open (hnone : d.at? path = none) (hopen : ¬ d.Closes path) :
    (mergeAll (documents ++ [d])).at? path = (mergeAll documents).at? path := by
  rcases hd.shape with rfl | hmap
  · simp [mergeAll_concat, isNull]
  · obtain ⟨fields, rfl⟩ := eq_object_of_isObject hmap
    rw [mergeAll_concat_of_not_null rfl, at?_onTop_of_open hd.ordered hnone hopen, Option.bind_some]

end OneMore

/-! ### The last word -/

/-- Some documents, parted behind the last one that closes a path. -/
structure Parted (path : List String) (documents earlier later : List Json) : Prop where
  whole : documents = earlier ++ later
  closed : ∀ d, earlier.getLast? = some d → d.Closes path
  unclosed : ∀ d ∈ later, ¬ d.Closes path

theorem exists_parted (path : List String) (documents : List Json) :
    ∃ earlier later, Parted path documents earlier later := by
  induction documents using List.reverseRecOn with
  | nil => exact ⟨[], [], rfl, by simp, by simp⟩
  | append_singleton documents d ih =>
      by_cases hd : d.Closes path
      · exact ⟨documents ++ [d], [], by simp, by simpa using hd, by simp⟩
      · obtain ⟨earlier, later, rfl, hclosed, hopen⟩ := ih
        refine ⟨earlier, later ++ [d], by simp, hclosed, ?_⟩
        simpa [or_imp, forall_and] using ⟨hopen, hd⟩

/-- Documents that do not close a path lay what they have there over what was there before. -/
theorem at?_mergeAll_append (hpath : path ≠ []) (hdocuments : ∀ d ∈ later, d.IsDocument)
    (hopen : ∀ d ∈ later, ¬ d.Closes path) :
    (mergeAll (earlier ++ later)).at? path =
      (later.filterMap (at? path)).foldl (fun o u => some (onTop u o))
        ((mergeAll earlier).at? path) := by
  induction later generalizing earlier with
  | nil => simp
  | cons d later ih =>
      obtain ⟨hd, hrest⟩ := List.forall_mem_cons.1 hdocuments
      obtain ⟨hdopen, hrestopen⟩ := List.forall_mem_cons.1 hopen
      rw [List.append_cons, ih hrest hrestopen]
      cases hu : d.at? path with
      | none => simp [hu, at?_mergeAll_concat_of_open hd hu hdopen]
      | some u => simp [hu, at?_mergeAll_concat_of_some hd hpath hu]

/-- The last document that closes a path decides on what is there. -/
theorem at?_mergeAll_of_closed (hpath : path ≠ []) (hdocuments : ∀ d ∈ earlier, d.IsDocument)
    (hclosed : ∀ d, earlier.getLast? = some d → d.Closes path) :
    (mergeAll earlier).at? path = earlier.getLast?.bind (at? path) := by
  induction earlier using List.reverseRecOn with
  | nil =>
      obtain ⟨key, path, rfl⟩ := List.exists_cons_of_ne_nil hpath
      rfl
  | append_singleton documents d _ =>
      have hd : d.IsDocument := hdocuments d (by simp)
      have hcloses : d.Closes path := hclosed d (by simp)
      rw [List.getLast?_concat, Option.bind_some]
      cases hu : d.at? path with
      | none => exact at?_mergeAll_concat_of_closes hd hu hcloses
      | some u =>
          rw [at?_mergeAll_concat_of_some hd hpath hu,
            onTop_of_not_object (.inl (not_isObject_of_closes hcloses hu))]

theorem mergeInto_empty (h : d.Ordered) (hmap : d.isObject = true) :
    mergeInto (object []) d = d := by
  obtain ⟨fields, rfl⟩ := eq_object_of_isObject hmap
  have hlaid : (object (layFields fields [])).Ordered := ordered_layOver h ordered_empty
  rw [mergeInto, layOver]
  refine congrArg object (eq_of_lookup hlaid.rising h.rising fun key => ?_)
  rw [lookup_layFields h.rising, lookup_nil]
  cases lookup key fields <;> rfl

theorem foldl_onTop_some (maps : List Json) (w : Json) :
    maps.foldl (fun o u => some (onTop u o)) (some w) = some (maps.foldl mergeInto w) := by
  induction maps generalizing w with
  | nil => rfl
  | cons m maps ih => exact ih _

/-- Maps that are laid over something other than a map come to their merge. -/
theorem foldl_onTop (ho : ∀ w, o = some w → w.isObject = false) (hne : maps ≠ [])
    (hmaps : ∀ m ∈ maps, m.isObject = true ∧ m.Ordered) :
    maps.foldl (fun o u => some (onTop u o)) o = some (mergeAll maps) := by
  obtain ⟨m, maps, rfl⟩ := List.exists_cons_of_ne_nil hne
  have hnull : ∀ m' ∈ m :: maps, (!m'.isNull) = true := by
    intro m' hm'
    obtain ⟨fields, rfl⟩ := eq_object_of_isObject (hmaps m' hm').1
    rfl
  obtain ⟨hmap, hordered⟩ := hmaps m List.mem_cons_self
  rw [List.foldl_cons, onTop_of_not_object (.inr ho), foldl_onTop_some, mergeAll,
    List.filter_eq_self.2 hnull, List.foldl_cons, mergeInto_empty hordered hmap]

namespace Parted

variable (hpath : path ≠ []) (hdocuments : ∀ d ∈ documents, d.IsDocument)
  (h : Parted path documents earlier later)
include hpath hdocuments h

/-- Behind the last document that closes a path, the maps there are merged. -/
theorem at?_of_hasMap (hmap : ∃ d ∈ later, d.HasMap path) :
    (mergeAll documents).at? path = some (mergeAll (later.filterMap (at? path))) := by
  obtain ⟨rfl, hclosed, hopen⟩ := h
  simp only [List.mem_append, or_imp, forall_and] at hdocuments
  rw [at?_mergeAll_append hpath hdocuments.2 hopen,
    at?_mergeAll_of_closed hpath hdocuments.1 hclosed]
  apply foldl_onTop
  · intro w hw
    obtain ⟨d, hd, hw⟩ := Option.bind_eq_some_iff.1 hw
    exact not_isObject_of_closes (hclosed d hd) hw
  · obtain ⟨d, hd, fields, hfields⟩ := hmap
    exact List.ne_nil_of_mem (List.mem_filterMap.2 ⟨d, hd, hfields⟩)
  · intro m hm
    obtain ⟨d, hd, hm⟩ := List.mem_filterMap.1 hm
    exact ⟨isObject_of_not_closes hpath (hopen d hd) hm, (hdocuments.2 d hd).ordered.at? hm⟩

/-- Where none of them has a map, that last document has the last word. -/
theorem at?_of_not_hasMap (hmap : ¬ ∃ d ∈ later, d.HasMap path) :
    (mergeAll documents).at? path = earlier.getLast?.bind (at? path) := by
  obtain ⟨rfl, hclosed, hopen⟩ := h
  simp only [List.mem_append, or_imp, forall_and] at hdocuments
  have hnone : later.filterMap (at? path) = [] := by
    refine List.filterMap_eq_nil_iff.2 fun d hd => ?_
    exact (hasMap_or_none hpath (hopen d hd)).resolve_left fun h => hmap ⟨d, hd, h⟩
  rw [at?_mergeAll_append hpath hdocuments.2 hopen, hnone, List.foldl_nil,
    at?_mergeAll_of_closed hpath hdocuments.1 hclosed]

end Parted

/-- The merge has a value other than a map at a path exactly when some document has it there and
each later one leaves the path open and has no map there. -/
theorem at?_mergeAll_eq_some_iff (hpath : path ≠ []) (hdocuments : ∀ d ∈ documents, d.IsDocument)
    (hv : v.isObject = false) : (mergeAll documents).at? path = some v ↔
      ∃ earlier d later, documents = earlier ++ d :: later ∧ d.at? path = some v ∧
        ∀ e ∈ later, ¬ e.Closes path ∧ ¬ e.HasMap path := by
  constructor
  · intro h
    obtain ⟨earlier, later, hparted⟩ := exists_parted path documents
    by_cases hmap : ∃ d ∈ later, d.HasMap path
    · rw [hparted.at?_of_hasMap hpath hdocuments hmap] at h
      have hmerged : v.isObject = true := by
        rw [← Option.some.inj h]
        refine isObject_mergeAll fun m hm => .inr ?_
        obtain ⟨d, hd, hm⟩ := List.mem_filterMap.1 hm
        exact isObject_of_not_closes hpath (hparted.unclosed d hd) hm
      simp [hv] at hmerged
    · rw [hparted.at?_of_not_hasMap hpath hdocuments hmap] at h
      obtain ⟨d, hd, hat⟩ := Option.bind_eq_some_iff.1 h
      obtain ⟨init, rfl⟩ := List.getLast?_eq_some_iff.1 hd
      refine ⟨init, d, later, by simp [hparted.whole], hat, fun e he => ⟨hparted.unclosed e he, ?_⟩⟩
      exact fun hasMap => hmap ⟨e, he, hasMap⟩
  · rintro ⟨earlier, d, later, rfl, hd, hlater⟩
    have hparted : Parted path (earlier ++ d :: later) (earlier ++ [d]) later :=
      ⟨by simp, by simpa using closes_of_at? hpath hd hv, fun e he => (hlater e he).1⟩
    have hmap : ¬ ∃ e ∈ later, e.HasMap path := fun ⟨e, he, hasMap⟩ => (hlater e he).2 hasMap
    rw [hparted.at?_of_not_hasMap hpath hdocuments hmap]
    simpa using hd

/-- The merge of documents that are maps or null is a map, and at each path of keys it has what the
last word on the path leaves there. A value other than a map is there exactly when some document has
it and no later one has a map there or something else there or on the way. Behind the last document
that has something other than a map there or on the way, maps at the path are merged, and there is
nothing else in the merge. Null documents make no difference, nor does the last document when it is
merged in once more. -/
theorem later_documents_win (hdocuments : ∀ d ∈ documents, d.IsDocument) :
    (∀ path, path ≠ [] →
      (∀ v, v.isObject = false → ((mergeAll documents).at? path = some v ↔
        ∃ earlier d later, documents = earlier ++ d :: later ∧ d.at? path = some v ∧
          ∀ e ∈ later, ¬ e.Closes path ∧ ¬ e.HasMap path)) ∧
      (∀ earlier later, Parted path documents earlier later → (∃ d ∈ later, d.HasMap path) →
        (mergeAll documents).at? path = some (mergeAll (later.filterMap (at? path)))) ∧
      (∀ v, (mergeAll documents).at? path = some v →
        v.isObject = false ∧ (∃ d ∈ documents, d.at? path = some v) ∨
          ∃ earlier later, Parted path documents earlier later ∧ ∃ d ∈ later, d.HasMap path)) ∧
    (mergeAll documents).isObject = true ∧
    (∀ earlier later, documents = earlier ++ null :: later →
      mergeAll documents = mergeAll (earlier ++ later)) ∧
    ∀ earlier d, documents = earlier ++ [d] →
      mergeAll (documents ++ [d]) = mergeAll documents ∧
        (d ≠ null → mergeInto (mergeAll documents) d = mergeAll documents) := by
  refine ⟨fun path hpath => ⟨fun v hv => at?_mergeAll_eq_some_iff hpath hdocuments hv,
    fun earlier later hparted hmap => hparted.at?_of_hasMap hpath hdocuments hmap,
    fun v hv => ?_⟩, ?_, ?_, ?_⟩
  · obtain ⟨earlier, later, hparted⟩ := exists_parted path documents
    by_cases hmap : ∃ d ∈ later, d.HasMap path
    · exact .inr ⟨earlier, later, hparted, hmap⟩
    · rw [hparted.at?_of_not_hasMap hpath hdocuments hmap] at hv
      obtain ⟨d, hd, hv⟩ := Option.bind_eq_some_iff.1 hv
      refine .inl ⟨not_isObject_of_closes (hparted.closed d hd) hv, d, ?_, hv⟩
      rw [hparted.whole]
      exact List.mem_append_left _ (List.mem_of_getLast? hd)
  · exact isObject_mergeAll fun d hd => (hdocuments d hd).shape
  · rintro earlier later rfl
    simp [mergeAll, isNull]
  · rintro earlier d rfl
    have hd : d.IsDocument := hdocuments d (by simp)
    have hearlier : ∀ w, some (mergeAll earlier) = some w → w.Ordered := by
      rintro w ⟨⟩
      exact ordered_mergeAll fun e he => (hdocuments e (by simp [he])).ordered
    have hagain : d ≠ null →
        mergeInto (mergeAll (earlier ++ [d])) d = mergeAll (earlier ++ [d]) := by
      intro hnull
      have hnot : d.isNull = false := by
        cases d <;> simp_all [isNull]
      rw [mergeAll_concat_of_not_null hnot]
      exact layOver_onTop hd.ordered hearlier
    refine ⟨?_, hagain⟩
    rw [mergeAll_concat]
    split
    · rfl
    · rename_i hnot
      refine hagain ?_
      rintro rfl
      exact hnot rfl

/-- The image and the size of an application, as five documents give them. The second one puts a
number in the place of the image, and the third one is empty. -/
def imageDocuments : List Json :=
  [.ofFields [("size", .whole 1), ("image", .ofFields [("tag", .text "a"), ("name", .text "web")])],
    .ofFields [("image", .whole 5)],
    .null,
    .ofFields [("image", .ofFields [("pull", .ofFields [("secret", .text "key")])])],
    .ofFields [("image", .ofFields [("pull", .ofFields [("policy", .text "never")])])]]

theorem isDocument_of_mem_imageDocuments : ∀ d ∈ imageDocuments, d.IsDocument := by
  simp only [imageDocuments, List.forall_mem_cons]
  refine ⟨isDocument_ofFields ?_, isDocument_ofFields ?_, isDocument_null, isDocument_ofFields ?_,
    isDocument_ofFields ?_, by simp⟩ <;>
  simp [ordered_ofFields, Ordered.text, Ordered.whole]

/-- Behind the number the two maps are merged, and the size stays as it was. -/
theorem later_documents_win_image :
    (mergeAll imageDocuments).at? ["image", "pull"] =
        some (mergeAll
          [.ofFields [("secret", .text "key")], .ofFields [("policy", .text "never")]]) ∧
      (mergeAll imageDocuments).at? ["size"] = some (.whole 1) ∧
      mergeAll (imageDocuments ++ imageDocuments.drop 4) = mergeAll imageDocuments := by
  obtain ⟨hpaths, -, -, hagain⟩ := later_documents_win isDocument_of_mem_imageDocuments
  refine ⟨?_, ?_, (hagain (imageDocuments.take 4) _ rfl).1⟩
  · exact (hpaths ["image", "pull"] (by simp)).2.1 (imageDocuments.take 2) (imageDocuments.drop 2)
      ⟨rfl, by decide, by decide⟩ (by decide)
  · rw [(hpaths ["size"] (by simp)).1 (.whole 1) rfl]
    exact ⟨[], _, imageDocuments.drop 1, rfl, rfl, by decide⟩

end Values

end ReleaseOperator
