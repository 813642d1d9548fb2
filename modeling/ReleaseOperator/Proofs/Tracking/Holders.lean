import Mathlib.Data.List.Nodup
import ReleaseOperator.Proofs.Tracking.Entries
import ReleaseOperator.Tracker.Holding

/-!
# Holders of entries

The numbers that the keys of a tracker lead to stand for the very entries that it keeps. So the
holder of a number sees what the tracker keeps under its key, and what it changes is changed
there; the holder of any other number changes an entry that the tracker does not keep.
-/

namespace ReleaseOperator

namespace Holding

variable {h : Holding} {holder key start : String} {id : ObjectId} {g : Int} {initial : Stage}
  {n : Nat} {f : Entry → Entry}

/-- The keys lead to different entries, which are those that the tracker keeps. -/
structure Sound (h : Holding) : Prop where
  entries : (h.kept.map fun kn => (kn.1, h.issued[kn.2]?)) =
    h.tracker.entries.map fun ke => (ke.1, some ke.2)
  keys : (h.kept.map fun kn => kn.1).Nodup
  numbers : (h.kept.map fun kn => kn.2).Nodup

theorem sound_empty : empty.Sound := ⟨rfl, .nil, .nil⟩

/-- The key under which the tracker keeps the entry that a holder has. -/
def keyOf? (h : Holding) (holder : String) : Option String :=
  (h.held.lookup holder).bind fun n => (h.kept.find? fun kn => kn.2 = n).map fun kn => kn.1

theorem lookup_map_snd {α β : Type} (φ : α → β) (l : List (String × α)) :
    (l.map fun kv => (kv.1, φ kv.2)).lookup key = (l.lookup key).map φ := by
  induction l with
  | nil => rfl
  | cons kv rest ih =>
      rw [List.map_cons, List.lookup_cons, List.lookup_cons]
      cases key == kv.1 with
      | true => rfl
      | false => exact ih

namespace Sound

theorem lookup (hs : h.Sound) (key : String) :
    (h.kept.lookup key).map (fun n => h.issued[n]?) = (h.tracker.find? key).map some := by
  rw [← lookup_map_snd fun n : Nat => h.issued[n]?, hs.entries, lookup_map_snd some]
  rfl

theorem find?_eq_none_iff (hs : h.Sound) :
    h.tracker.find? key = none ↔ h.kept.lookup key = none := by
  rw [← Option.map_eq_none_iff (f := some), ← hs.lookup, Option.map_eq_none_iff]

/-- A key leads to what the tracker keeps under it. -/
theorem issued_of_lookup (hs : h.Sound) (hn : h.kept.lookup key = some n) :
    h.issued[n]? = h.tracker.find? key := by
  have hlookup := hs.lookup key
  rw [hn, Option.map_some] at hlookup
  cases hfind : h.tracker.find? key with
  | none =>
      rw [hfind] at hlookup
      exact absurd hlookup (by simp)
  | some e =>
      rw [hfind] at hlookup
      exact Option.some.inj hlookup

theorem lt_length (hs : h.Sound) {kn : String × Nat} (hkn : kn ∈ h.kept) :
    kn.2 < h.issued.length := by
  have hmem : (kn.1, h.issued[kn.2]?) ∈ h.tracker.entries.map fun ke => (ke.1, some ke.2) := by
    rw [← hs.entries]
    exact List.mem_map_of_mem hkn
  obtain ⟨ke, _, heq⟩ := List.mem_map.1 hmem
  exact (List.getElem?_eq_some_iff.1 (congrArg Prod.snd heq).symm).1

/-- What the tracker keeps under a key is what a number leads to, and both ways. -/
theorem find?_isSome (hs : h.Sound) {kn : String × Nat} (hkn : kn ∈ h.kept) :
    (h.tracker.find? kn.1).isSome = true := by
  rw [Option.isSome_iff_ne_none, Ne, hs.find?_eq_none_iff, ← Ne, ← Option.isSome_iff_ne_none,
    List.lookup_isSome_iff]
  exact ⟨kn, hkn, beq_self_eq_true _⟩

/-- The keys that are kept when the entries under a start are dropped. -/
theorem find?_dropUnder_isSome (hs : h.Sound) {kn : String × Nat} (hkn : kn ∈ h.kept) :
    ((h.tracker.dropUnder start).find? kn.1).isSome = !Text.hasStart kn.1 start := by
  cases hstart : Text.hasStart kn.1 start with
  | false => rw [Tracker.find?_dropUnder_of_not hstart, hs.find?_isSome hkn]; rfl
  | true =>
      rw [Option.isSome_eq_false_iff.2]
      · rfl
      · rw [Option.isNone_iff_eq_none, Option.eq_none_iff_forall_not_mem]
        intro e he
        have hnot := (List.mem_filter.1 (Tracker.mem_of_lookup he)).2
        rw [hstart] at hnot
        exact absurd hnot (by decide)

/-- Keys and entries are dropped alike. -/
theorem entries_dropUnder (hs : h.Sound) (start : String) :
    ((h.kept.filter fun kn => !Text.hasStart kn.1 start).map fun kn => (kn.1, h.issued[kn.2]?)) =
      (h.tracker.dropUnder start).entries.map fun ke => (ke.1, some ke.2) := by
  have hfilter := congrArg (List.filter fun kv => !Text.hasStart kv.1 start) hs.entries
  rw [List.filter_map, List.filter_map] at hfilter
  exact hfilter

theorem prune_dropUnder (hs : h.Sound) (start : String) :
    (h.kept.filter fun kn => ((h.tracker.dropUnder start).find? kn.1).isSome) =
      h.kept.filter fun kn => !Text.hasStart kn.1 start :=
  List.filter_congr fun _ hkn => hs.find?_dropUnder_isSome hkn

theorem onTracker_dropUnder (hs : h.Sound) (start : String) :
    (h.onTracker fun t => t.dropUnder start).Sound := by
  have hsub : (h.onTracker fun t => t.dropUnder start).kept.Sublist h.kept := List.filter_sublist
  refine ⟨?_, hs.keys.sublist (hsub.map _), hs.numbers.sublist (hsub.map _)⟩
  rw [onTracker, prune]
  dsimp only
  rw [hs.prune_dropUnder, hs.entries_dropUnder]

/-! ### Asking for an entry -/

/-- One more entry handed out changes none of those that are kept. -/
theorem entries_append (hs : h.Sound) (e : Entry) :
    (h.kept.map fun kn => (kn.1, (h.issued ++ [e])[kn.2]?)) =
      h.kept.map fun kn => (kn.1, h.issued[kn.2]?) := by
  refine List.map_congr_left fun kn hkn => ?_
  rw [List.getElem?_append_left (hs.lt_length hkn)]

theorem ensure_of_get? (hs : h.Sound) {e : Entry} (hget : h.tracker.get? id g = some e)
    (holder : String) (initial : Stage) :
    ∃ n, h.kept.lookup (id.key g) = some n ∧ h.issued[n]? = some e ∧
      h.ensure holder id g initial = h.hold holder n := by
  obtain ⟨n, hn⟩ : ∃ n, h.kept.lookup (id.key g) = some n := by
    rw [← Option.ne_none_iff_exists', Ne, ← hs.find?_eq_none_iff]
    exact fun hnone => absurd (hget.symm.trans hnone) (Option.some_ne_none e)
  refine ⟨n, hn, (hs.issued_of_lookup hn).trans hget, ?_⟩
  rw [ensure]
  dsimp only
  rw [hn]

theorem ensure_of_newer (hs : h.Sound) (hnone : h.tracker.get? id g = none)
    (hnewer : h.tracker.hasNewer id g = true) : h.ensure holder id g initial =
      { h with issued := h.issued ++ [Entry.fresh g initial] }.hold holder h.issued.length := by
  have hkept : (h.kept.filter fun kn => (h.tracker.find? kn.1).isSome) = h.kept :=
    List.filter_eq_self.2 fun kn hkn => hs.find?_isSome hkn
  rw [ensure, hs.find?_eq_none_iff.1 hnone, Tracker.ensure_of_newer hnone hnewer]
  dsimp only
  rw [show h.tracker.find? (id.key g) = none from hnone, prune]
  dsimp only
  rw [hkept]
  rfl

theorem ensure_of_none (hs : h.Sound) (hnone : h.tracker.get? id g = none)
    (hnewer : h.tracker.hasNewer id g = false) : h.ensure holder id g initial =
      { h with
        tracker := ⟨(id.key g, .fresh g initial) :: (h.tracker.forget id).entries⟩
        issued := h.issued ++ [Entry.fresh g initial]
        kept := (id.key g, h.issued.length) ::
          h.kept.filter fun kn => !Text.hasStart kn.1 id.objectKey }.hold holder
        h.issued.length := by
  have hkept := hs.find?_eq_none_iff.1 hnone
  have hfind : ∀ kn ∈ h.kept, Tracker.find? ⟨(id.key g, .fresh g initial) ::
      (h.tracker.forget id).entries⟩ kn.1 = (h.tracker.forget id).find? kn.1 := by
    intro kn hkn
    have hne : (kn.1 == id.key g) = false := by
      rw [List.lookup_eq_none_iff] at hkept
      exact beq_false_of_ne (Ne.symm (bne_iff_ne.1 (hkept kn hkn)))
    rw [Tracker.find?, List.lookup_cons, hne]
    rfl
  rw [ensure, hkept, Tracker.ensure_of_none hnone hnewer]
  dsimp only
  rw [Tracker.find?, List.lookup_cons_self, Option.isSome_some, if_pos rfl, prune]
  dsimp only
  rw [← hs.prune_dropUnder, List.filter_congr fun kn hkn => congrArg Option.isSome (hfind kn hkn)]
  rfl

theorem hold (hs : h.Sound) (holder : String) (n : Nat) : (h.hold holder n).Sound :=
  ⟨hs.entries, hs.keys, hs.numbers⟩

theorem ensure (hs : h.Sound) (holder : String) (id : ObjectId) (g : Int) (initial : Stage) :
    (h.ensure holder id g initial).Sound := by
  cases hget : h.tracker.get? id g with
  | some e =>
      obtain ⟨n, _, _, heq⟩ := hs.ensure_of_get? hget holder initial
      rw [heq]
      exact hs.hold holder n
  | none =>
      cases hnewer : h.tracker.hasNewer id g with
      | true =>
          rw [hs.ensure_of_newer hget hnewer]
          have hsound : Sound { h with issued := h.issued ++ [Entry.fresh g initial] } :=
            ⟨(hs.entries_append _).trans hs.entries, hs.keys, hs.numbers⟩
          exact hsound.hold holder _
      | false =>
          rw [hs.ensure_of_none hget hnewer]
          have hnone := List.lookup_eq_none_iff.1 (hs.find?_eq_none_iff.1 hget)
          have hsub : (h.kept.filter fun kn => !Text.hasStart kn.1 id.objectKey).Sublist h.kept :=
            List.filter_sublist
          refine hold ⟨?_, ?_, ?_⟩ holder _
          · dsimp only
            rw [List.map_cons, List.map_cons, List.getElem?_concat_length, Tracker.forget,
              ← hs.entries_dropUnder]
            congr 1
            refine List.map_congr_left fun kn hkn => ?_
            rw [List.getElem?_append_left (hs.lt_length (hsub.subset hkn))]
          · rw [List.map_cons, List.nodup_cons]
            refine ⟨fun hmem => ?_, hs.keys.sublist (hsub.map _)⟩
            obtain ⟨kn, hkn, hkey⟩ := List.mem_map.1 hmem
            exact bne_iff_ne.1 (hnone kn (hsub.subset hkn)) hkey.symm
          · rw [List.map_cons, List.nodup_cons]
            refine ⟨fun hmem => ?_, hs.numbers.sublist (hsub.map _)⟩
            obtain ⟨kn, hkn, hnumber⟩ := List.mem_map.1 hmem
            exact absurd (hs.lt_length (hsub.subset hkn)) (by rw [hnumber]; exact Nat.lt_irrefl _)

theorem lookup_held_hold (h : Holding) (holder : String) (n : Nat) :
    (h.hold holder n).held.lookup holder = some n := List.lookup_cons_self

/-- Holders get their entries from the tracker as it would hand them out by itself. -/
theorem tracker_ensure (hs : h.Sound) (holder : String) (id : ObjectId) (g : Int)
    (initial : Stage) :
    (h.ensure holder id g initial).tracker = (h.tracker.ensure id g initial).2 := by
  cases hget : h.tracker.get? id g with
  | some e =>
      obtain ⟨n, _, _, heq⟩ := hs.ensure_of_get? hget holder initial
      rw [heq, Tracker.ensure_of_get? hget]
      rfl
  | none =>
      cases hnewer : h.tracker.hasNewer id g with
      | true => rw [hs.ensure_of_newer hget hnewer, Tracker.ensure_of_newer hget hnewer]; rfl
      | false => rw [hs.ensure_of_none hget hnewer, Tracker.ensure_of_none hget hnewer]; rfl

/-! ### Changing an entry -/

/-- A number that a key leads to is that of the key alone. -/
theorem number_eq_iff (hs : h.Sound) (hkey : (key, n) ∈ h.kept) {kn : String × Nat}
    (hkn : kn ∈ h.kept) : kn.2 = n ↔ kn.1 = key := by
  constructor
  · intro hn
    exact congrArg Prod.fst (List.inj_on_of_nodup_map hs.numbers hkn hkey hn)
  · intro hk
    exact congrArg Prod.snd (List.inj_on_of_nodup_map hs.keys hkn hkey hk)

theorem find?_number (hs : h.Sound) (hkey : (key, n) ∈ h.kept) :
    (h.kept.find? fun kn => kn.2 = n) = some (key, n) := by
  cases hfind : h.kept.find? fun kn => kn.2 = n with
  | none =>
      have hnot := List.find?_eq_none.1 hfind _ hkey
      exact absurd (decide_eq_true rfl) hnot
  | some kn =>
      have hn : kn.2 = n := by simpa using List.find?_some hfind
      have hkn := List.mem_of_find?_eq_some hfind
      rw [List.inj_on_of_nodup_map hs.numbers hkn hkey hn]

/-- A change of an entry that the tracker keeps is one under its key. -/
theorem entries_modify (hs : h.Sound) (hkey : (key, n) ∈ h.kept) (f : Entry → Entry) :
    (h.kept.map fun kn => (kn.1, (h.issued.modify n f)[kn.2]?)) =
      (h.tracker.amend key f).entries.map fun ke => (ke.1, some ke.2) := by
  let amend : String × Option Entry → String × Option Entry :=
    fun ko => if ko.1 = key then (ko.1, ko.2.map f) else ko
  have hkept : (h.kept.map fun kn => (kn.1, (h.issued.modify n f)[kn.2]?)) =
      (h.kept.map fun kn => (kn.1, h.issued[kn.2]?)).map amend := by
    rw [List.map_map]
    refine List.map_congr_left fun kn hkn => ?_
    rw [Function.comp_apply]
    by_cases hn : kn.2 = n
    · rw [hn, List.getElem?_modify_eq]
      exact (if_pos ((hs.number_eq_iff hkey hkn).1 hn)).symm
    · rw [List.getElem?_modify_ne _ _ (Ne.symm hn)]
      exact (if_neg fun hk => hn ((hs.number_eq_iff hkey hkn).2 hk)).symm
  rw [hkept, hs.entries, List.map_map, Tracker.amend, List.map_map]
  refine List.map_congr_left fun ke _ => ?_
  rw [Function.comp_apply, Function.comp_apply]
  by_cases hk : ke.1 = key
  · rw [if_pos hk]
    exact if_pos hk
  · rw [if_neg hk]
    exact if_neg hk

/-- A change of an entry that the tracker does not keep is none of those that it keeps. -/
theorem entries_modify_of_not (hnot : ∀ kn ∈ h.kept, kn.2 ≠ n) (f : Entry → Entry) :
    (h.kept.map fun kn => (kn.1, (h.issued.modify n f)[kn.2]?)) =
      h.kept.map fun kn => (kn.1, h.issued[kn.2]?) := by
  refine List.map_congr_left fun kn hkn => ?_
  rw [List.getElem?_modify_ne _ _ (Ne.symm (hnot kn hkn))]

end Sound

/-- A holder of an entry that the tracker keeps changes it there, and any other holder changes
nothing in the tracker. -/
theorem tracker_change (h : Holding) (holder : String) (f : Entry → Entry) :
    (h.change holder f).tracker =
      match h.keyOf? holder with
      | some key => h.tracker.amend key f
      | none => h.tracker := by
  rw [change, keyOf?]
  cases h.held.lookup holder with
  | none => rfl
  | some n =>
      dsimp only [Option.bind_some]
      cases (h.kept.find? fun kn => kn.2 = n).map fun kn => kn.1 with
      | none =>
          refine congrArg Tracker.mk ((List.map_congr_left fun kv _ => ?_).trans (List.map_id _))
          exact if_neg (by simp)
      | some key =>
          refine congrArg Tracker.mk (List.map_congr_left fun kv _ => ?_)
          simp only [Option.some.injEq]

theorem Sound.change (hs : h.Sound) (holder : String) (f : Entry → Entry) :
    (h.change holder f).Sound := by
  have htracker := tracker_change h holder f
  cases hheld : h.held.lookup holder with
  | none =>
      rw [Holding.change, hheld]
      exact hs
  | some n =>
      have hkept : (h.change holder f).kept = h.kept := by rw [Holding.change, hheld]
      have hissued : (h.change holder f).issued = h.issued.modify n f := by
        rw [Holding.change, hheld]
      refine ⟨?_, hkept ▸ hs.keys, hkept ▸ hs.numbers⟩
      rw [hkept, hissued, htracker, keyOf?, hheld, Option.bind_some]
      cases hfind : h.kept.find? fun kn => kn.2 = n with
      | none =>
          rw [Option.map_none]
          dsimp only
          have hnot : ∀ kn ∈ h.kept, kn.2 ≠ n := by simpa using hfind
          rw [entries_modify_of_not hnot, hs.entries]
      | some kn =>
          have hn : kn.2 = n := by simpa using List.find?_some hfind
          have hkn : (kn.1, n) ∈ h.kept := hn ▸ List.mem_of_find?_eq_some hfind
          exact hs.entries_modify hkn f

/-- The holder has the entry under a key: its changes are made to that one. -/
def HoldsKept (h : Holding) (holder key : String) (e : Entry) : Prop :=
  h.entry? holder = some e ∧ ∀ f, (h.change holder f).tracker = h.tracker.amend key f

/-- The holder has an entry of its own: the tracker sees none of its changes. -/
def HoldsAside (h : Holding) (holder : String) (e : Entry) : Prop :=
  h.entry? holder = some e ∧ ∀ f, (h.change holder f).tracker = h.tracker

theorem Sound.holdsKept (hs : h.Sound) {e : Entry} (hheld : h.held.lookup holder = some n)
    (hkey : (key, n) ∈ h.kept) (he : h.issued[n]? = some e) : h.HoldsKept holder key e := by
  refine ⟨by rw [Holding.entry?, hheld]; exact he, fun f => ?_⟩
  rw [tracker_change, keyOf?, hheld, Option.bind_some, hs.find?_number hkey]
  rfl

theorem holdsAside {e : Entry} (hheld : h.held.lookup holder = some n)
    (hnot : ∀ kn ∈ h.kept, kn.2 ≠ n) (he : h.issued[n]? = some e) : h.HoldsAside holder e := by
  refine ⟨by rw [Holding.entry?, hheld]; exact he, fun f => ?_⟩
  have hnone : (h.kept.find? fun kn => kn.2 = n) = none := by simpa using hnot
  rw [tracker_change, keyOf?, hheld, Option.bind_some, hnone]
  rfl

section Ensure

variable (hs : h.Sound) (holder : String) (initial : Stage)

include hs

/-- Who asks for the generation that is kept has the very entry that is kept. -/
theorem Sound.holdsKept_ensure_of_get? {e : Entry} (hget : h.tracker.get? id g = some e) :
    (h.ensure holder id g initial).HoldsKept holder (id.key g) e := by
  obtain ⟨n, hn, he, heq⟩ := hs.ensure_of_get? hget holder initial
  have hsound := hs.ensure holder id g initial
  rw [heq] at hsound ⊢
  obtain ⟨before, after, hsplit, _⟩ := List.lookup_eq_some_iff.1 hn
  have hmem : (id.key g, n) ∈ h.kept := by
    rw [hsplit]
    exact List.mem_append_right _ List.mem_cons_self
  exact hsound.holdsKept (lookup_held_hold h holder n) hmem he

/-- Who asks for a generation that is superseded has an entry of its own. -/
theorem Sound.holdsAside_ensure (hnone : h.tracker.get? id g = none)
    (hnewer : h.tracker.hasNewer id g = true) :
    (h.ensure holder id g initial).HoldsAside holder (.fresh g initial) := by
  rw [hs.ensure_of_newer hnone hnewer]
  refine holdsAside (lookup_held_hold _ holder _) ?_ List.getElem?_concat_length
  exact fun kn hkn => Nat.ne_of_lt (hs.lt_length hkn)

/-- Who asks for a generation above all others has the entry that is kept from now on. -/
theorem Sound.holdsKept_ensure_of_none (hnone : h.tracker.get? id g = none)
    (hnewer : h.tracker.hasNewer id g = false) :
    (h.ensure holder id g initial).HoldsKept holder (id.key g) (.fresh g initial) := by
  have hsound := hs.ensure holder id g initial
  rw [hs.ensure_of_none hnone hnewer] at hsound ⊢
  exact hsound.holdsKept (lookup_held_hold _ holder _) List.mem_cons_self
    List.getElem?_concat_length

end Ensure

end Holding

end ReleaseOperator
