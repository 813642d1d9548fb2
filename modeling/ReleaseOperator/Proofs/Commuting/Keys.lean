import ReleaseOperator.Proofs.Commuting.Commons
import ReleaseOperator.Proofs.Generations

/-!
# Trackers by address

All keys of the resources at one address have a start of their own. What a pass reads of a
tracker are entries under the start of its resource, and these are all that it changes: making
an entry, recording and forgetting one see nothing but the view from an address, and leave
what is under no such key as it is. Starts without slashes in namespace and name are never in
each other's way.
-/

namespace ReleaseOperator

open InMemory

namespace Address

/-- The start of all keys of resources at an address. -/
def start (x : Address) : String := ObjectId.nameKey x.kind.name x.namespaceName x.name

/-- Neither namespace nor name has a slash in it. -/
def Plain (x : Address) : Prop := '/' ∉ x.namespaceName.toList ∧ '/' ∉ x.name.toList

instance (x : Address) : Decidable x.Plain := inferInstanceAs (Decidable (_ ∧ _))

theorem slash_not_mem_kind (k : Kind) : '/' ∉ k.name.toList := by
  cases k <;> decide

theorem kind_name_injective {k k' : Kind} (h : k.name = k'.name) : k = k' := by
  cases k <;> cases k' <;> first | rfl | exact absurd h (by decide)

/-- What precedes the first slash is determined by the whole. -/
theorem eq_of_slash_append_eq {p p' x x' : List Char} (hp : '/' ∉ p) (hp' : '/' ∉ p')
    (h : p ++ '/' :: x = p' ++ '/' :: x') : p = p' ∧ x = x' := by
  have hrev : x.reverse ++ '/' :: p.reverse = x'.reverse ++ '/' :: p'.reverse := by
    have := congrArg List.reverse h
    simpa using this
  have hpp : p = p' := List.reverse_inj.1 (ObjectId.eq_of_append_slash_eq
    (fun hmem => hp (List.mem_reverse.1 hmem)) (fun hmem => hp' (List.mem_reverse.1 hmem)) hrev)
  subst hpp
  exact ⟨rfl, (List.cons.inj (List.append_cancel_left h)).2⟩

/-- No key has the starts of two addresses. -/
theorem eq_of_hasStart {x y : Address} (hx : x.Plain) (hy : y.Plain) {key : String}
    (h : Text.hasStart key x.start = true) (h' : Text.hasStart key y.start = true) : x = y := by
  have hspell : ∀ z : Address, z.start.toList = z.kind.name.toList ++ '/' ::
      (z.namespaceName.toList ++ '/' :: (z.name.toList ++ ['/'])) := by
    intro z
    simp only [start, ObjectId.nameKey, String.toList_append, List.append_assoc]
    rfl
  obtain ⟨rest, hrest⟩ := Text.hasStart_iff.1 h
  obtain ⟨rest', hrest'⟩ := Text.hasStart_iff.1 h'
  rw [hrest, hspell, hspell] at hrest'
  simp only [List.append_assoc, List.cons_append] at hrest'
  obtain ⟨hkind, hrest'⟩ :=
    eq_of_slash_append_eq (slash_not_mem_kind _) (slash_not_mem_kind _) hrest'
  obtain ⟨hns, hrest'⟩ := eq_of_slash_append_eq hx.1 hy.1 hrest'
  obtain ⟨hname, _⟩ := eq_of_slash_append_eq hx.2 hy.2 hrest'
  obtain ⟨kind, ns, name⟩ := x
  obtain ⟨kind', ns', name'⟩ := y
  obtain rfl := kind_name_injective (String.toList_injective hkind)
  obtain rfl := String.toList_injective hns
  obtain rfl := String.toList_injective hname
  rfl

end Address

namespace Tracker

variable {t u t₀ u₀ : Tracker} {start k key : String} {id : ObjectId} {g : Int} {e e' : Entry}
  {initial : Stage}

/-- The entries under keys of a given start, without their times. -/
def view (t : Tracker) (start : String) : Tracker :=
  ⟨(t.entries.filter fun kv => Text.hasStart kv.1 start).map fun kv => (kv.1, kv.2.bare)⟩

theorem lookup_map_bare (entries : List (String × Entry)) :
    (entries.map fun kv => (kv.1, kv.2.bare)).lookup key = (entries.lookup key).map Entry.bare := by
  induction entries with
  | nil => rfl
  | cons kv rest ih =>
      rw [List.map_cons, List.lookup_cons, List.lookup_cons]
      cases key == kv.1 with
      | true => rfl
      | false => exact ih

theorem find?_view (h : Text.hasStart key start = true) :
    (t.view start).find? key = (t.find? key).map Entry.bare := by
  rw [find?, view]
  dsimp only
  rw [lookup_map_bare, lookup_filter_key (f := fun k => Text.hasStart k start) h]
  rfl

theorem view_dropUnder (t : Tracker) (k start : String) :
    (t.dropUnder k).view start = (t.view start).dropUnder k := by
  rw [view, view, dropUnder, dropUnder]
  dsimp only
  rw [List.filter_filter, List.filter_map, List.filter_filter]
  congr 2
  refine List.filter_congr fun kv _ => ?_
  exact Bool.and_comm _ _

/-- What is found under a start is found in the view of it. -/
theorem find?_eq_of_view (hview : t.view start = u.view start)
    (hkey : Text.hasStart key start = true) :
    (t.find? key).map Entry.bare = (u.find? key).map Entry.bare := by
  rw [← find?_view hkey, hview, find?_view hkey]

/-- What is found elsewhere is not missed when the entries under a start are dropped. -/
theorem find?_eq_of_dropUnder (hdrop : t.dropUnder start = u.dropUnder start)
    (hkey : Text.hasStart key start = false) : t.find? key = u.find? key := by
  rw [← find?_dropUnder_of_not hkey, hdrop, find?_dropUnder_of_not hkey]

/-- What is dropped under other starts is not missed. -/
theorem view_dropUnder_of_disjoint
    (h : ∀ key, Text.hasStart key start = true → Text.hasStart key k = false) :
    (t.dropUnder k).view start = t.view start := by
  rw [view, view, dropUnder]
  dsimp only
  rw [List.filter_filter]
  congr 2
  refine List.filter_congr fun kv _ => ?_
  cases hs : Text.hasStart kv.1 start with
  | false => rfl
  | true => rw [h kv.1 hs]; rfl

theorem dropUnder_dropUnder (h : Text.hasStart k start = true) :
    (t.dropUnder k).dropUnder start = t.dropUnder start := by
  rw [dropUnder, dropUnder, dropUnder]
  dsimp only
  rw [List.filter_filter]
  congr 1
  refine List.filter_congr fun kv _ => ?_
  cases hk : Text.hasStart kv.1 k with
  | false => simp
  | true => simp [Text.hasStart_trans hk h]

/-! ### What an entry sees -/

theorem filter_cons_key (h : Text.hasStart key start = true) (e : Entry)
    (rest : List (String × Entry)) :
    ((key, e) :: rest).filter (fun kv => Text.hasStart kv.1 start) =
      (key, e) :: rest.filter fun kv => Text.hasStart kv.1 start := by
  rw [List.filter_cons, if_pos h]

theorem filter_record (f : String → Bool) (entries : List (String × Entry)) :
    entries.filter ((fun kv => f kv.1) ∘ fun kv => if kv.1 = key then (kv.1, e) else kv) =
      entries.filter fun kv => f kv.1 := by
  refine List.filter_congr fun kv _ => ?_
  rw [Function.comp_apply]
  split
  · rfl
  · rfl

/-- An entry is recorded in the view of any start. -/
theorem view_record : (t.record id g e).view start = (t.view start).record id g e.bare := by
  rw [view, record, view, record]
  dsimp only
  rw [List.filter_map, filter_record (f := fun k => Text.hasStart k start), List.map_map,
    List.map_map]
  congr 1
  refine List.map_congr_left fun kv _ => ?_
  rw [Function.comp_apply, Function.comp_apply]
  by_cases hkey : kv.1 = id.key g
  · rw [if_pos hkey, if_pos hkey]
  · rw [if_neg hkey, if_neg hkey]

section Object

variable (hid : Text.hasStart id.objectKey start = true)

include hid

theorem hasStart_key : Text.hasStart (id.key g) start = true :=
  Text.hasStart_trans (id.hasStart_key g) hid

theorem hasNewer_view : (t.view start).hasNewer id g = t.hasNewer id g := by
  rw [hasNewer, view, hasNewer]
  dsimp only
  rw [List.any_map, List.any_filter]
  congr 1
  funext kv
  cases hk : Text.hasStart kv.1 id.objectKey with
  | false => simp [hk]
  | true => simp [hk, Text.hasStart_trans hk hid, Entry.bare]

/-- An entry is made from the view of its start alone. -/
theorem ensure_view (t : Tracker) (g : Int) (initial : Stage) :
    (t.view start).ensure id g initial =
      ((t.ensure id g initial).1.bare, (t.ensure id g initial).2.view start) := by
  have hget : (t.view start).get? id g = (t.get? id g).map Entry.bare :=
    find?_view (hasStart_key hid)
  rw [ensure, ensure, hget]
  cases t.get? id g with
  | some e => rfl
  | none =>
      dsimp only [Option.map_none]
      rw [hasNewer_view hid]
      split
      · rfl
      · rw [← view_dropUnder]
        simp only [view]
        rw [filter_cons_key (hasStart_key hid)]
        rfl

theorem dropUnder_ensure : (t.ensure id g initial).2.dropUnder start = t.dropUnder start := by
  unfold ensure
  split
  · rfl
  · split
    · rfl
    · -- The entries that make room for the new one lie under the start themselves.
      rw [← dropUnder_dropUnder hid (t := t), dropUnder]
      dsimp only
      rw [List.filter_cons_of_neg (by rw [hasStart_key hid]; decide)]
      rfl

theorem dropUnder_record : (t.record id g e).dropUnder start = t.dropUnder start := by
  rw [dropUnder, record, dropUnder]
  dsimp only
  rw [List.filter_map, filter_record (f := fun k => !Text.hasStart k start)]
  congr 1
  refine (List.map_congr_left fun kv hkv => if_neg ?_).trans (List.map_id _)
  intro hkey
  have hkept := (List.mem_filter.1 hkv).2
  rw [hkey, hasStart_key hid] at hkept
  exact absurd hkept (by decide)

end Object

/-- Two trackers have the same view of a start, and have changed under no other since they were
`t₀` and `u₀`. -/
structure Level (start : String) (t₀ u₀ t u : Tracker) : Prop where
  view : t.view start = u.view start
  left : t.dropUnder start = t₀.dropUnder start
  right : u.dropUnder start = u₀.dropUnder start

namespace Level

theorem ensure (h : Level start t₀ u₀ t u) (hid : Text.hasStart id.objectKey start = true)
    (g : Int) (initial : Stage) :
    (t.ensure id g initial).1.bare = (u.ensure id g initial).1.bare ∧
      Level start t₀ u₀ (t.ensure id g initial).2 (u.ensure id g initial).2 := by
  have hview := ensure_view hid t g initial
  rw [h.view, ensure_view hid u g initial] at hview
  injection hview with hentry hview
  exact ⟨hentry.symm, hview.symm, (dropUnder_ensure hid).trans h.left,
    (dropUnder_ensure hid).trans h.right⟩

theorem record (h : Level start t₀ u₀ t u) (hid : Text.hasStart id.objectKey start = true)
    (he : e.bare = e'.bare) : Level start t₀ u₀ (t.record id g e) (u.record id g e') := by
  refine ⟨?_, (dropUnder_record hid).trans h.left, (dropUnder_record hid).trans h.right⟩
  rw [view_record, view_record, h.view, he]

theorem dropUnder (h : Level start t₀ u₀ t u) (hk : Text.hasStart k start = true) :
    Level start t₀ u₀ (t.dropUnder k) (u.dropUnder k) := by
  refine ⟨?_, (dropUnder_dropUnder hk).trans h.left, (dropUnder_dropUnder hk).trans h.right⟩
  rw [view_dropUnder, view_dropUnder, h.view]

end Level

end Tracker

/-- Both trackers agree on the keys of an address, and have changed under no others since the
memories were `m₀` and `n₀`. -/
structure Memory.Level (x : Address) (m₀ n₀ m n : Memory) : Prop where
  lifecycle : Tracker.Level x.start m₀.lifecycle n₀.lifecycle m.lifecycle n.lifecycle
  deletion : Tracker.Level x.start m₀.deletion n₀.deletion m.deletion n.deletion

theorem Memory.Level.dropUnder {x : Address} {m₀ n₀ m n : Memory} (h : Memory.Level x m₀ n₀ m n)
    {k : String} (hk : Text.hasStart k x.start = true) :
    Memory.Level x m₀ n₀ (m.onBoth fun t => t.dropUnder k) (n.onBoth fun t => t.dropUnder k) :=
  ⟨h.lifecycle.dropUnder hk, h.deletion.dropUnder hk⟩

end ReleaseOperator
