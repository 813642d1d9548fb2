import Mathlib.Data.List.TakeWhile
import Mathlib.Order.Compare
import ReleaseOperator.Version.Parse

/-!
# Versions as users write them

A text that was trimmed stays as it is when it is trimmed again. A version is as high as
itself, and of two versions the same one is higher in whichever order they are read.
-/

namespace ReleaseOperator

namespace Text

theorem dropWhile_reverse_cons {c : Char} (hc : isBlank c = false) (cs : List Char) :
    ((c :: cs).reverse.dropWhile isBlank).reverse =
      c :: (cs.reverse.dropWhile isBlank).reverse := by
  rw [List.reverse_cons, List.dropWhile_append]
  split
  · rename_i hempty
    have hnil := List.isEmpty_iff.1 hempty
    rw [hnil, List.dropWhile_cons_of_neg (by simp [hc])]
    rfl
  · rw [List.reverse_append]
    rfl

theorem dropWhile_dropWhile (cs : List Char) :
    (cs.dropWhile isBlank).dropWhile isBlank = cs.dropWhile isBlank := by
  induction cs with
  | nil => rfl
  | cons c rest ih =>
      cases hc : isBlank c with
      | true => rw [List.dropWhile_cons_of_pos hc, ih]
      | false =>
          have hne : ¬isBlank c = true := by simp [hc]
          rw [List.dropWhile_cons_of_neg hne, List.dropWhile_cons_of_neg hne]

theorem trimChars_trimChars (cs : List Char) : trimChars (trimChars cs) = trimChars cs := by
  have hstart : (trimChars cs).dropWhile isBlank = trimChars cs := by
    unfold trimChars
    cases hrest : cs.dropWhile isBlank with
    | nil => rfl
    | cons c rest =>
        have hc : isBlank c = false := by
          have hagain := dropWhile_dropWhile cs
          rw [hrest] at hagain
          cases hblank : isBlank c with
          | false => rfl
          | true =>
              rw [List.dropWhile_cons_of_pos hblank] at hagain
              have hlength := congrArg List.length hagain
              have hle := (List.dropWhile_sublist (l := rest) isBlank).length_le
              rw [List.length_cons] at hlength
              omega
        rw [dropWhile_reverse_cons hc, List.dropWhile_cons_of_neg (by simp [hc])]
  have htrim : trimChars (trimChars cs) =
      ((trimChars cs).reverse.dropWhile isBlank).reverse := by
    change (((trimChars cs).dropWhile isBlank).reverse.dropWhile isBlank).reverse = _
    rw [hstart]
  rw [htrim]
  unfold trimChars
  rw [List.reverse_reverse, dropWhile_dropWhile]

@[simp] theorem trim_trim (s : String) : trim (trim s) = trim s := by
  unfold trim
  rw [String.toList_ofList, trimChars_trimChars]

theorem trim_of_isBlankText {s : String} (h : isBlankText s = true) : trim s = "" := by
  have hall : ∀ c ∈ s.toList, isBlank c = true := by
    rw [isBlankText, List.all_eq_true] at h
    exact h
  have hnil : s.toList.dropWhile isBlank = [] := List.dropWhile_eq_nil_iff.2 hall
  rw [trim, trimChars, hnil]
  rfl

end Text

namespace Version

theorem compareText_self (a : String) : compareText a a = .eq := by
  unfold compareText compareOfLessAndEq
  rw [if_neg (String.lt_irrefl a), if_pos rfl]

theorem compareNat_self (n : Nat) : compare n n = .eq := Nat.compare_eq_eq.2 rfl

theorem comparePreIdentifier_self (a : String) : comparePreIdentifier a a = .eq := by
  unfold comparePreIdentifier
  cases isNumeric a with
  | true => rw [compareText_self, compareNat_self]; rfl
  | false => exact compareText_self a

theorem compareBuildIdentifier_self (a : String) : compareBuildIdentifier a a = .eq := by
  unfold compareBuildIdentifier
  cases isNumeric a with
  | true => simp only [compareText_self, compareNat_self]; rfl
  | false => exact compareText_self a

theorem compareIdentifiers_self {cmp : String → String → Ordering} (h : ∀ a, cmp a a = .eq)
    (as : List String) : compareIdentifiers cmp as as = .eq := by
  induction as with
  | nil => rfl
  | cons a rest ih => rw [compareIdentifiers, h, ih]; rfl

@[simp] theorem order_self (v : Version) : v.order v = .eq := by
  have hpre : comparePre v.pre v.pre = .eq := by
    cases v.pre with
    | nil => rfl
    | cons a rest => exact compareIdentifiers_self comparePreIdentifier_self (a :: rest)
  have hbuild : compareBuild v.build v.build = .eq :=
    compareIdentifiers_self compareBuildIdentifier_self _
  rw [order, compareNat_self, compareNat_self, compareNat_self, hpre, hbuild]
  rfl

theorem compareText_swap (a b : String) : (compareText a b).swap = compareText b a := by
  change (compare a b).swap = compare b a
  exact Std.OrientedOrd.eq_swap.symm

theorem compareNat_swap (m n : Nat) : (compare m n).swap = compare n m := Nat.compare_swap m n

theorem comparePreIdentifier_swap (a b : String) :
    (comparePreIdentifier a b).swap = comparePreIdentifier b a := by
  unfold comparePreIdentifier
  cases isNumeric a <;> cases isNumeric b
  · exact compareText_swap a b
  · rfl
  · rfl
  · dsimp only
    rw [Ordering.swap_then, compareNat_swap, compareText_swap]

theorem compareBuildIdentifier_swap (a b : String) :
    (compareBuildIdentifier a b).swap = compareBuildIdentifier b a := by
  unfold compareBuildIdentifier
  cases isNumeric a <;> cases isNumeric b
  · exact compareText_swap a b
  · rfl
  · rfl
  · dsimp only
    rw [Ordering.swap_then, Ordering.swap_then, compareNat_swap, compareNat_swap, compareText_swap]

theorem compareIdentifiers_swap {cmp : String → String → Ordering}
    (h : ∀ a b, (cmp a b).swap = cmp b a) (as bs : List String) :
    (compareIdentifiers cmp as bs).swap = compareIdentifiers cmp bs as := by
  induction as generalizing bs with
  | nil => cases bs <;> rfl
  | cons a rest ih =>
      cases bs with
      | nil => rfl
      | cons b others => rw [compareIdentifiers, Ordering.swap_then, h, ih, compareIdentifiers]

theorem comparePre_swap (as bs : List String) : (comparePre as bs).swap = comparePre bs as := by
  cases as <;> cases bs
  · rfl
  · rfl
  · rfl
  · exact compareIdentifiers_swap comparePreIdentifier_swap _ _

theorem order_swap (v w : Version) : (v.order w).swap = w.order v := by
  have hbuild : (compareBuild v.build w.build).swap = compareBuild w.build v.build :=
    compareIdentifiers_swap compareBuildIdentifier_swap _ _
  simp only [order, Ordering.swap_then, compareNat_swap, comparePre_swap, hbuild]

theorem compareTexts_self {s : String} {v : Version} (h : parse s = .ok v) :
    compareTexts s s = .ok .eq := by
  rw [compareTexts, h]
  exact congrArg Except.ok (order_self v)

theorem compareTexts_eq_ok {left right : String} {o : Ordering} :
    compareTexts left right = .ok o ↔
      ∃ v w, parse left = .ok v ∧ parse right = .ok w ∧ v.order w = o := by
  constructor
  · intro h
    unfold compareTexts at h
    cases hv : parse left with
    | error e =>
        rw [hv] at h
        cases h
    | ok v =>
        cases hw : parse right with
        | error e =>
            rw [hv, hw] at h
            cases h
        | ok w =>
            rw [hv, hw] at h
            exact ⟨v, w, rfl, rfl, Except.ok.inj h⟩
  · rintro ⟨v, w, hv, hw, rfl⟩
    rw [compareTexts, hv, hw]
    rfl

/-- Two texts that can be compared can be compared the other way round. -/
theorem compareTexts_swap {left right : String} {o : Ordering}
    (h : compareTexts left right = .ok o) : compareTexts right left = .ok o.swap := by
  obtain ⟨v, w, hv, hw, ho⟩ := compareTexts_eq_ok.1 h
  exact compareTexts_eq_ok.2 ⟨w, v, hw, hv, by rw [← order_swap, ho]⟩

theorem exists_error_compareTexts_swap {left right : String} {e : VersionError}
    (h : compareTexts left right = .error e) : ∃ e', compareTexts right left = .error e' := by
  cases hswap : compareTexts right left with
  | error e' => exact ⟨e', rfl⟩
  | ok o =>
      rw [compareTexts_swap hswap] at h
      cases h

theorem parse_trim (s : String) : parse (Text.trim s) = parse s := by
  unfold parse Text.trim
  rw [String.toList_ofList, Text.trimChars_trimChars]

theorem isEmpty_eq_false_of_parse {s : String} {v : Version} (h : parse s = .ok v) :
    s.isEmpty = false := by
  cases hempty : s.isEmpty with
  | false => rfl
  | true =>
      have hnone : parse "" = .error .empty := rfl
      rw [String.isEmpty_iff.1 hempty, hnone] at h
      exact absurd h (by simp)

end Version

end ReleaseOperator
