import ReleaseOperator.Lifecycle.Reconcile
import Std.Data.String.ToInt

/-!
# Entries and their generations

A key starts like all keys of its object, and it spells out the generation it stands for
behind its last slash, so two keys of different generations differ, whatever the objects are
called. A tracker all of whose entries lie under keys of their own generation stays like that,
and hands out for a generation only an entry of that generation.
-/

namespace ReleaseOperator

namespace Text

variable {s t u : String}

theorem hasStart_iff : hasStart s t = true ↔ ∃ rest, s.toList = t.toList ++ rest := by
  rw [hasStart, startsWith, Option.isSome_iff_exists]
  exact exists_congr fun rest => dropStart?_eq_some_iff

theorem hasStart_trans (h : hasStart s t = true) (h' : hasStart t u = true) :
    hasStart s u = true := by
  obtain ⟨rest, hrest⟩ := hasStart_iff.1 h
  obtain ⟨rest', hrest'⟩ := hasStart_iff.1 h'
  exact hasStart_iff.2 ⟨rest' ++ rest, by rw [hrest, hrest', List.append_assoc]⟩

theorem hasStart_append (s t : String) : hasStart (s ++ t) s = true :=
  hasStart_iff.2 ⟨t.toList, String.toList_append⟩

end Text

namespace ObjectId

/-- What follows the last slash is determined by the whole. -/
theorem eq_of_append_slash_eq {p p' x x' : List Char} (hx : '/' ∉ x) (hx' : '/' ∉ x')
    (h : p ++ '/' :: x = p' ++ '/' :: x') : x = x' := by
  have htake : ∀ q y : List Char, '/' ∉ y →
      (q ++ '/' :: y).reverse.takeWhile (· ≠ '/') = y.reverse := by
    intro q y hy
    have hall : ∀ c ∈ y.reverse, decide (c ≠ '/') = true := by
      intro c hc
      rw [decide_eq_true_eq]
      rintro rfl
      exact hy (List.mem_reverse.1 hc)
    rw [List.reverse_append, List.reverse_cons, List.append_assoc,
      List.takeWhile_append_of_pos hall]
    simp
  have hrev := htake p x hx
  rw [h, htake p' x' hx'] at hrev
  exact (List.reverse_inj.1 hrev).symm

theorem slash_not_mem_repr (g : Int) : '/' ∉ g.repr.toList := by
  have hnat : ∀ n : Nat, '/' ∉ n.repr.toList := by
    intro n h
    rw [Nat.toList_repr] at h
    exact absurd (Nat.isDigit_of_mem_toDigits (by decide) (by decide) h) (by decide)
  rw [Int.repr_eq_if]
  split
  · exact hnat _
  · rw [String.toList_append, List.mem_append]
    rintro (h | h)
    · exact absurd h (by decide)
    · exact hnat _ h

theorem key_toList (id : ObjectId) (g : Int) :
    ∃ p, (id.key g).toList = p ++ '/' :: ("gen-".toList ++ g.repr.toList) := by
  refine ⟨(nameKey id.kind id.namespaceName id.name ++ id.uid).toList, ?_⟩
  rw [key, objectKey, Int.toString_eq_repr]
  simp only [String.toList_append, List.append_assoc]
  rfl

/-- A key tells its generation. -/
theorem generation_of_key_eq {id id' : ObjectId} {g g' : Int} (h : id.key g = id'.key g') :
    g = g' := by
  obtain ⟨p, hp⟩ := key_toList id g
  obtain ⟨p', hp'⟩ := key_toList id' g'
  have hno : ∀ n : Int, '/' ∉ "gen-".toList ++ n.repr.toList := by
    intro n hn
    rcases List.mem_append.1 hn with h | h
    · exact absurd h (by decide)
    · exact slash_not_mem_repr n h
  have htail := eq_of_append_slash_eq (hno g) (hno g') (by rw [← hp, ← hp', h])
  have hrepr := List.append_cancel_left htail
  exact Int.repr_injective (String.toList_injective hrepr)

theorem hasStart_objectKey (id : ObjectId) :
    Text.hasStart id.objectKey (nameKey id.kind id.namespaceName id.name) = true := by
  rw [objectKey, String.append_assoc]
  exact Text.hasStart_append _ _

theorem hasStart_key (id : ObjectId) (g : Int) :
    Text.hasStart (id.key g) id.objectKey = true := by
  rw [key, String.append_assoc]
  exact Text.hasStart_append _ _

end ObjectId

namespace Tracker

variable {t : Tracker} {id : ObjectId} {g g' : Int} {e e' : Entry} {initial : Stage}

/-- Every entry lies under a key of its own generation. -/
def Keyed (t : Tracker) : Prop :=
  ∀ kv ∈ t.entries, ∃ id : ObjectId, kv.1 = id.key kv.2.generation

theorem keyed_empty : Keyed .empty := by
  intro kv h
  exact absurd h List.not_mem_nil

theorem Keyed.dropUnder (h : t.Keyed) (start : String) : (t.dropUnder start).Keyed := by
  intro kv hkv
  exact h kv (List.mem_filter.1 hkv).1

theorem mem_of_lookup {key : String} {entries : List (String × Entry)}
    (h : entries.lookup key = some e) : (key, e) ∈ entries := by
  obtain ⟨before, after, hsplit, _⟩ := List.lookup_eq_some_iff.1 h
  rw [hsplit]
  exact List.mem_append_right _ List.mem_cons_self

theorem Keyed.generation_of_get? (h : t.Keyed) (he : t.get? id g = some e) : e.generation = g := by
  obtain ⟨id', hid⟩ := h _ (mem_of_lookup he)
  exact (ObjectId.generation_of_key_eq hid).symm

/-- The entry handed out for a generation is one of that generation. -/
theorem Keyed.generation_ensure (h : t.Keyed) (id : ObjectId) (g : Int) (initial : Stage) :
    (t.ensure id g initial).1.generation = g := by
  unfold ensure
  split
  · rename_i e he
    exact h.generation_of_get? he
  · split
    · rfl
    · rfl

theorem Keyed.ensure (h : t.Keyed) : (t.ensure id g initial).2.Keyed := by
  unfold Tracker.ensure
  split
  · exact h
  · split
    · exact h
    · intro kv hkv
      rcases List.mem_cons.1 hkv with rfl | hkv
      · exact ⟨id, rfl⟩
      · exact h.dropUnder _ kv hkv

theorem Keyed.record (h : t.Keyed) (he : e.generation = g) : (t.record id g e).Keyed := by
  intro kv hkv
  obtain ⟨kv', hkv', rfl⟩ := List.mem_map.1 hkv
  by_cases hk : kv'.1 = id.key g
  · rw [if_pos hk]
    refine ⟨id, ?_⟩
    rw [he]
    exact hk
  · rw [if_neg hk]
    exact h kv' hkv'

/-! ### Looking entries up -/

theorem lookup_filter_key {key : String} {f : String → Bool} (hf : f key = true)
    (entries : List (String × Entry)) :
    (entries.filter fun kv => f kv.1).lookup key = entries.lookup key := by
  induction entries with
  | nil => rfl
  | cons kv rest ih =>
      by_cases hk : key = kv.1
      · subst hk
        rw [List.filter_cons_of_pos (by exact hf), List.lookup_cons, List.lookup_cons,
          beq_self_eq_true]
      · rw [List.filter_cons, List.lookup_cons, beq_false_of_ne hk]
        split
        · rw [List.lookup_cons, beq_false_of_ne hk]
          exact ih
        · exact ih

theorem find?_dropUnder_of_not {start key : String} (h : Text.hasStart key start = false) :
    (t.dropUnder start).find? key = t.find? key :=
  lookup_filter_key (f := fun k => !Text.hasStart k start) (by rw [h]; rfl) _

theorem find?_dropUnder {start key : String} (h : (t.dropUnder start).find? key = some e) :
    t.find? key = some e := by
  have hkept := (List.mem_filter.1 (mem_of_lookup h)).2
  rw [Bool.not_eq_true'] at hkept
  rw [← find?_dropUnder_of_not hkept]
  exact h

/-- Nothing is kept of an object that was forgotten. -/
theorem get?_forget (t : Tracker) (id : ObjectId) (g : Int) : (t.forget id).get? id g = none := by
  rw [Option.eq_none_iff_forall_not_mem]
  intro e he
  have hkept := (List.mem_filter.1 (mem_of_lookup he)).2
  rw [id.hasStart_key] at hkept
  exact absurd hkept (by decide)

theorem key_ne (h : g' ≠ g) : id.key g' ≠ id.key g :=
  fun e => h (ObjectId.generation_of_key_eq e)

theorem ensure_fst (t : Tracker) (id : ObjectId) (gen : Int) (initial : Stage) :
    (t.ensure id gen initial).1 = (t.get? id gen).getD (.fresh gen initial) := by
  unfold ensure
  split
  · rename_i e he
    rw [he]
    rfl
  · rename_i hnone
    rw [hnone]
    split
    · rfl
    · rfl

/-- An entry that is kept is handed out, and the tracker stays as it is. -/
theorem ensure_of_get? (h : t.get? id g = some e) : t.ensure id g initial = (e, t) := by
  rw [ensure, h]

/-- A new entry under one key brings none under another. -/
theorem find?_of_find?_ensure {key : String} (hkey : key ≠ id.key g)
    (h : (t.ensure id g initial).2.find? key = some e) : t.find? key = some e := by
  unfold ensure at h
  split at h
  · exact h
  · split at h
    · exact h
    · unfold find? at h
      dsimp only at h
      rw [List.lookup_cons, beq_false_of_ne hkey] at h
      exact find?_dropUnder h

/-- A new entry for one generation brings none for another. -/
theorem get?_of_get?_ensure (hg : g' ≠ g) (h : (t.ensure id g initial).2.get? id g' = some e) :
    t.get? id g' = some e :=
  find?_of_find?_ensure (key_ne hg) h

theorem get?_record_self (h : (t.record id g e).get? id g = some e') : e' = e := by
  have hmem := mem_of_lookup h
  obtain ⟨kv, _, hkv⟩ := List.mem_map.1 hmem
  by_cases hk : kv.1 = id.key g
  · rw [if_pos hk] at hkv
    exact (congrArg Prod.snd hkv).symm
  · rw [if_neg hk] at hkv
    exact absurd (congrArg Prod.fst hkv) hk

theorem get?_record_of_get? (h : t.get? id g = some e) (e' : Entry) :
    (t.record id g e').get? id g = some e' := by
  rcases t with ⟨entries⟩
  unfold get? find? record at *
  dsimp only at *
  induction entries with
  | nil => exact absurd h (by simp)
  | cons kv rest ih =>
      rw [List.map_cons, List.lookup_cons]
      rw [List.lookup_cons] at h
      by_cases hk : kv.1 = id.key g
      · rw [if_pos hk]
        dsimp only
        rw [hk, beq_self_eq_true]
      · rw [beq_false_of_ne (Ne.symm hk)] at h
        rw [if_neg hk, beq_false_of_ne (Ne.symm hk)]
        exact ih h

theorem find?_record_of_ne {key : String} (hkey : key ≠ id.key g) :
    (t.record id g e).find? key = t.find? key := by
  rcases t with ⟨entries⟩
  unfold find? record
  dsimp only
  induction entries with
  | nil => rfl
  | cons kv rest ih =>
      rw [List.map_cons, List.lookup_cons, List.lookup_cons]
      by_cases hk : kv.1 = id.key g
      · rw [if_pos hk]
        dsimp only
        rw [hk, beq_false_of_ne hkey]
        exact ih
      · rw [if_neg hk]
        cases key == kv.1 with
        | true => rfl
        | false => exact ih

theorem get?_record_of_ne (hg : g' ≠ g) : (t.record id g e).get? id g' = t.get? id g' :=
  find?_record_of_ne (key_ne hg)

end Tracker

namespace Memory

/-- Both trackers hold entries under keys of their own generation. -/
def Keyed (m : Memory) : Prop := m.lifecycle.Keyed ∧ m.deletion.Keyed

theorem keyed_empty : Memory.empty.Keyed := ⟨Tracker.keyed_empty, Tracker.keyed_empty⟩

theorem Keyed.forget {m : Memory} (h : m.Keyed) (r : Resource) : (m.forget r).Keyed :=
  ⟨h.1.dropUnder _, h.2.dropUnder _⟩

theorem Keyed.forgetNamed {m : Memory} (h : m.Keyed) (kind : Kind) (ns name : String) :
    (m.forgetNamed kind ns name).Keyed :=
  ⟨h.1.dropUnder _, h.2.dropUnder _⟩

end Memory

end ReleaseOperator
