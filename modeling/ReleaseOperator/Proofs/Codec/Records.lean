import ReleaseOperator.Resource.Codec

/-!
# Reading back what was written

An object that was put together from fields holds under each key what was put there last. So a
record is read back field by field: a field that is always written is found, one that is written
only when it has a value is found or missing, and missing is what its reader takes for no value.
The one value that does not come back is the null value in an optional field, and a reader of an
optional field never gives it.
-/

namespace ReleaseOperator.Json

variable {α : Type} {key k : String} {v w : Json} {read : Json → Option α} {write : α → Json}
  {field o : Option Json}

/-! ### Fields -/

@[simp] theorem lookup_cons (fields : List (String × Json)) :
    lookup key ((k, v) :: fields) = if key = k then some v else lookup key fields := rfl

@[simp] theorem lookup_append (fields others : List (String × Json)) :
    lookup key (fields ++ others) = (lookup key fields).or (lookup key others) := by
  induction fields with
  | nil => rfl
  | cons kv rest ih =>
      obtain ⟨k, v⟩ := kv
      rw [List.cons_append, lookup_cons, lookup_cons, ih]
      split
      · rfl
      · rfl

@[simp] theorem reverse_given : (given k o).reverse = given k o := by
  cases o with
  | none => rfl
  | some v => rfl

@[simp] theorem lookup_given : lookup key (given k o) = if key = k then o else none := by
  cases o with
  | none => exact (ite_self none).symm
  | some v => rfl

theorem lookup_put (fields : List (String × Json)) :
    lookup key (put k v fields) = if key = k then some v else lookup key fields := by
  split
  · rename_i heq
    rw [heq, lookup_put_self]
  · rename_i hne
    exact lookup_put_of_ne hne v fields

/-- An object put together from fields holds the last of each key. -/
theorem lookup_foldl_put (fields acc : List (String × Json)) :
    lookup key (fields.foldl (fun acc kv => put kv.1 kv.2 acc) acc) =
      (lookup key fields.reverse).or (lookup key acc) := by
  induction fields generalizing acc with
  | nil => rfl
  | cons kv rest ih =>
      obtain ⟨k, v⟩ := kv
      rw [List.foldl_cons, ih, lookup_put, List.reverse_cons, lookup_append, Option.or_assoc,
        lookup_cons]
      split
      · rfl
      · rfl

@[simp] theorem record?_ofFields (names : List String) (fields : List (String × Json)) :
    (ofFields fields).record? names = some fun key => lookup key fields.reverse := by
  rw [ofFields, record?]
  refine congrArg some (funext fun key => ?_)
  rw [lookup_foldl_put, lookup_nil, Option.or_none]

/-! ### Readers of fields -/

@[simp] theorem required_some : required read (some v) = read v := rfl

@[simp] theorem defaulted_some {d : α} : defaulted d read (some v) = read v := rfl

theorem optional_some (h : v ≠ null) : optional read (some v) = (read v).map some := by
  cases v with
  | null => exact absurd rfl h
  | _ => rfl

/-- An optional field is read back when it is written only with a value, and never as the null
value. -/
theorem optional_map {o : Option α} (h : ∀ a, o = some a → write a ≠ null ∧ read (write a) = some a) :
    optional read (o.map write) = some o := by
  cases o with
  | none => rfl
  | some a => rw [Option.map_some, optional_some (h a rfl).1, (h a rfl).2, Option.map_some]

/-- So is one that is written as the null value when it has none. -/
@[simp] theorem optional_ofText? (o : Option String) : optional text? (some (ofText? o)) = some o := by
  cases o with
  | none => rfl
  | some s => rfl

/-- What an optional field gives was given by the reader of its value. -/
theorem read_of_optional {a : α} (h : optional read field = some (some a)) :
    ∃ v, v ≠ null ∧ field = some v ∧ read v = some a := by
  cases field with
  | none => exact absurd h (by simp [optional])
  | some v =>
      cases v with
      | null => exact absurd h (by simp [optional])
      | _ =>
          obtain ⟨a', ha', heq⟩ := Option.map_eq_some_iff.1 h
          exact ⟨_, Json.noConfusion, rfl, ha'.trans heq⟩

/-! ### Readers of values -/

theorem wholeIn?_eq_some_iff {low high i : Int} :
    wholeIn? low high v = some i ↔ v = whole i ∧ low ≤ i ∧ i ≤ high := by
  cases v with
  | whole n =>
      rw [wholeIn?]
      split
      · rename_i hin
        constructor
        · rintro ⟨⟩
          exact ⟨rfl, hin⟩
        · rintro ⟨⟨⟩, -⟩
          rfl
      · rename_i hout
        constructor
        · exact fun h => absurd h (by simp)
        · rintro ⟨⟨⟩, hin⟩
          exact absurd hin hout
  | _ => exact ⟨fun h => absurd h (by simp [wholeIn?]), fun h => Json.noConfusion h.1⟩

/-- A whole number that was read is read back. -/
theorem int64?_whole {i : Int} (h : int64? v = some i) : int64? (whole i) = some i := by
  obtain ⟨rfl, hin⟩ := wholeIn?_eq_some_iff.1 h
  exact h

@[simp] theorem text?_text (s : String) : text? (text s) = some s := rfl

theorem list?_array (items : List Json) : list? read (array items) = items.mapM read := rfl

/-- A list is read back when each of its items is. -/
theorem list?_map {items : List α} (h : ∀ a ∈ items, read (write a) = some a) :
    list? read (array (items.map write)) = some items := by
  rw [list?_array]
  induction items with
  | nil => rfl
  | cons a rest ih =>
      rw [List.map_cons, List.mapM_cons, h a List.mem_cons_self,
        ih fun b hb => h b (List.mem_cons_of_mem _ hb)]
      rfl

/-- Each item of a list that was read was given by the reader of items. -/
theorem read_of_list? {items : List α} (h : list? read v = some items) :
    ∀ a ∈ items, ∃ w, read w = some a := by
  cases v with
  | array vs =>
      rw [list?_array] at h
      induction vs generalizing items with
      | nil =>
          obtain rfl := Option.some.inj h
          exact fun a ha => absurd ha List.not_mem_nil
      | cons w rest ih =>
          rw [List.mapM_cons] at h
          obtain ⟨a, ha, h⟩ := Option.bind_eq_some_iff.1 h
          obtain ⟨as, has, h⟩ := Option.bind_eq_some_iff.1 h
          obtain rfl := Option.some.inj h
          intro b hb
          cases List.mem_cons.1 hb with
          | inl heq => exact ⟨w, heq ▸ ha⟩
          | inr hrest => exact ih has b hrest
  | _ => exact absurd h (by simp [list?])

end ReleaseOperator.Json
