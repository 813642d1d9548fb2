import Mathlib.Data.List.TakeWhile
import Mathlib.Data.Set.Function
import ReleaseOperator.Json.Parse
import ReleaseOperator.Proofs.Values.Layers
import Std.Data.String.ToInt

/-!
# The text of a value

The compact text of a value tells the value. A quoted text ends at the first quote that is not
escaped, a number at the first character that cannot be part of one, and an array or an object at
its bracket; so of two values whose texts begin in the same way neither can be a part of the other.
Since the fields of objects are in order, two values have one text exactly when they show the same
along each path, in whatever order they were put together.
-/

namespace ReleaseOperator

namespace Json

variable {s t : String} {a b rest rest' : List Char} {c : Char} {i : Int} {bits n : Nat}

/-! ### Quoted texts -/

theorem hexValue?_hexDigit (h : n < 16) : hexValue? (hexDigit n) = some n := by
  revert n
  decide

theorem readUnicode_control (h : c.toNat < 32) (rest : List Char) :
    readUnicode ('0' :: '0' :: hexDigit (c.toNat / 16) :: hexDigit (c.toNat % 16) :: rest) =
      some (c, rest) := by
  have hzero : hexValue? '0' = some 0 := rfl
  have hhigh : hexValue? (hexDigit (c.toNat / 16)) = some (c.toNat / 16) :=
    hexValue?_hexDigit (by omega)
  have hlow : hexValue? (hexDigit (c.toNat % 16)) = some (c.toNat % 16) :=
    hexValue?_hexDigit (by omega)
  have hwhole : c.toNat / 16 * 16 + c.toNat % 16 = c.toNat := by omega
  have hplain : ¬ (56320 ≤ c.toNat ∧ c.toNat < 57344) ∧ ¬ (55296 ≤ c.toNat ∧ c.toNat < 56320) := by
    omega
  simp [readUnicode, readHex4, hzero, hhigh, hlow, hwhole, hplain.1, hplain.2]

/-- What a character is written as is read back. -/
theorem readQuoted_escapeChar (c : Char) (fuel : Nat) (acc rest : List Char) :
    readQuoted (fuel + 1) acc (escapeChar c ++ rest) = readQuoted fuel (c :: acc) rest := by
  by_cases hquote : c = '"'
  · simp [escapeChar, readQuoted, hquote]
  by_cases hback : c = '\\'
  · simp [escapeChar, readQuoted, hback]
  by_cases hline : c = '\n'
  · simp [escapeChar, readQuoted, hline]
  by_cases hreturn : c = '\r'
  · simp [escapeChar, readQuoted, hreturn]
  by_cases htab : c = '\t'
  · simp [escapeChar, readQuoted, htab]
  by_cases hbell : c.toNat = 8
  · obtain rfl : c = Char.ofNat 8 := by rw [← hbell, Char.ofNat_toNat]
    simp [escapeChar, readQuoted]
  by_cases hfeed : c.toNat = 12
  · obtain rfl : c = Char.ofNat 12 := by rw [← hfeed, Char.ofNat_toNat]
    simp [escapeChar, readQuoted]
  by_cases hcontrol : c.toNat < 32
  · simp [escapeChar, readQuoted, readUnicode_control hcontrol, *]
  · simp [escapeChar, readQuoted, *]

theorem readQuoted_flatMap (cs : List Char) {fuel : Nat} (acc rest : List Char)
    (h : cs.length ≤ fuel) : readQuoted fuel acc (cs.flatMap escapeChar ++ '"' :: rest) =
      some (String.ofList (acc.reverse ++ cs), rest) := by
  induction cs generalizing fuel acc with
  | nil => simp [readQuoted]
  | cons c cs ih =>
      obtain ⟨fuel, rfl⟩ := Nat.exists_eq_add_one.2 (Nat.lt_of_lt_of_le (Nat.succ_pos _) h)
      rw [List.flatMap_cons, List.append_assoc, readQuoted_escapeChar, ih _ (by simpa using h)]
      simp

/-- A quoted text and what follows it can be told apart. -/
theorem quote_cancel (h : quote s ++ rest = quote t ++ rest') : s = t ∧ rest = rest' := by
  simp only [quote, List.cons_append, List.append_assoc, List.nil_append, List.cons.injEq,
    true_and] at h
  have hs := readQuoted_flatMap s.toList [] rest (Nat.le_add_right _ t.toList.length)
  have ht := readQuoted_flatMap t.toList [] rest' (Nat.le_add_left _ s.toList.length)
  rw [h, ht] at hs
  simpa [eq_comm] using hs

/-! ### Numbers -/

/-- Whether a character may stand in a number. -/
def isNumeral (c : Char) : Bool :=
  c.isDigit || c = '-' || c = '+' || c = '.' || c = 'e'

/-- A text before which every number ends. -/
def Ends (rest : List Char) : Prop :=
  rest.takeWhile isNumeral = []

theorem ends_nil : Ends [] := rfl

theorem ends_cons (h : isNumeral c = false) : Ends (c :: rest) := by
  simp [Ends, h]

theorem numeral_cancel (ha : ∀ c ∈ a, isNumeral c = true) (hb : ∀ c ∈ b, isNumeral c = true)
    (hrest : Ends rest) (hrest' : Ends rest') (h : a ++ rest = b ++ rest') :
    a = b ∧ rest = rest' := by
  -- Either number is as much of the text as can stand in a number.
  have hab : a = b := by
    have htake := congrArg (List.takeWhile isNumeral) h
    rwa [List.takeWhile_append_of_pos ha, List.takeWhile_append_of_pos hb, hrest, hrest',
      List.append_nil, List.append_nil] at htake
  subst hab
  exact ⟨rfl, List.append_cancel_left h⟩

theorem isNumeral_of_mem_toDigits (h : c ∈ Nat.toDigits 10 n) : isNumeral c = true := by
  simp [isNumeral, Nat.isDigit_of_mem_toDigits (by decide) (by decide) h]

theorem isNumeral_of_mem_wholeText (h : c ∈ wholeText i) : isNumeral c = true := by
  unfold wholeText at h
  split at h
  · rcases List.mem_cons.1 h with rfl | h
    · rfl
    · exact isNumeral_of_mem_toDigits h
  · exact isNumeral_of_mem_toDigits h

theorem wholeText_ne_nil (i : Int) : wholeText i ≠ [] := by
  unfold wholeText
  split
  · simp
  · exact Nat.toDigits_ne_nil

theorem toDigits_injective : Function.Injective (Nat.toDigits 10) :=
  Function.LeftInverse.injective (g := fun ds => Nat.ofDigitChars 10 ds 0) fun _ =>
    Nat.ofDigitChars_ten_toDigits

theorem minus_not_mem_toDigits : '-' ∉ Nat.toDigits 10 n := by
  intro h
  have hdigit := Nat.isDigit_of_mem_toDigits (by decide) (by decide) h
  simp at hdigit

theorem mark_not_mem_wholeText (h : c = '.' ∨ c = 'e') : c ∉ wholeText i := by
  intro hmem
  have hdigits : c ∉ Nat.toDigits 10 i.natAbs := by
    intro hdigits
    have hdigit := Nat.isDigit_of_mem_toDigits (by decide) (by decide) hdigits
    rcases h with rfl | rfl <;> simp at hdigit
  unfold wholeText at hmem
  split at hmem
  · rcases List.mem_cons.1 hmem with rfl | hmem
    · simp at h
    · exact hdigits hmem
  · exact hdigits hmem

theorem wholeText_injective : Function.Injective wholeText := by
  intro i j h
  unfold wholeText at h
  split at h <;> split at h
  · have habs := toDigits_injective (List.cons.inj h).2
    omega
  · exact absurd (h ▸ List.mem_cons_self) minus_not_mem_toDigits
  · exact absurd (h ▸ List.mem_cons_self) minus_not_mem_toDigits
  · have habs := toDigits_injective h
    omega

end Json

namespace Decimal

open Json

variable {cs ds : List Char}

/-- The text of a number that cannot be taken for a whole one: there is a point or an exponent. -/
structure IsFraction (cs : List Char) : Prop where
  numeral : ∀ c ∈ cs, isNumeral c = true
  mark : '.' ∈ cs ∨ 'e' ∈ cs

theorem isFraction_positional (hds : ∀ c ∈ ds, isNumeral c = true) (lead : Int) :
    IsFraction (positional ds lead) := by
  have hzeros : ∀ n, ∀ c ∈ List.replicate n '0', isNumeral c = true := by
    intro n c hc
    rw [List.eq_of_mem_replicate hc]
    rfl
  have hzero : isNumeral '0' = true := rfl
  have hpoint : isNumeral '.' = true := rfl
  unfold positional
  split
  · refine ⟨?_, by simp⟩
    simp only [List.forall_mem_cons, List.forall_mem_append]
    exact ⟨hzero, hpoint, hzeros _, hds⟩
  · dsimp only
    split
    · refine ⟨?_, by simp⟩
      simp only [List.forall_mem_cons, List.forall_mem_append]
      exact ⟨⟨hds, hzeros _⟩, hpoint, hzero, by simp⟩
    · refine ⟨?_, by simp⟩
      simp only [List.forall_mem_cons, List.forall_mem_append]
      exact ⟨fun c hc => hds c (List.mem_of_mem_take hc), hpoint,
        fun c hc => hds c (List.mem_of_mem_drop hc)⟩

theorem isFraction_scientific (hds : ∀ c ∈ ds, isNumeral c = true) (lead : Int) :
    IsFraction (scientific realFormat ds lead) := by
  have hmark : (if lead < 0 then "e-" else "e" ++ realFormat.positiveExponentMark).toList =
      ['e', if lead < 0 then '-' else '+'] := by
    split <;> rfl
  have hsign : isNumeral (if lead < 0 then '-' else '+') = true := by
    split <;> rfl
  have hpoint : isNumeral '.' = true := rfl
  have hexponent : isNumeral 'e' = true := rfl
  unfold scientific
  dsimp only
  rw [hmark]
  refine ⟨?_, by simp⟩
  simp only [List.forall_mem_append, List.forall_mem_cons]
  refine ⟨⟨?_, hexponent, hsign, by simp⟩, fun c hc => isNumeral_of_mem_toDigits hc⟩
  rcases ds with _ | ⟨d, _ | ⟨e, rest⟩⟩
  · simp
  · exact hds
  · obtain ⟨hd, hrest⟩ := List.forall_mem_cons.1 hds
    exact List.forall_mem_cons.2 ⟨hd, List.forall_mem_cons.2 ⟨hpoint, hrest⟩⟩

theorem IsFraction.signed (h : IsFraction cs) (negative : Bool) :
    IsFraction ((if negative = true then ['-'] else []) ++ cs) := by
  refine ⟨?_, h.mark.imp (List.mem_append_right _) (List.mem_append_right _)⟩
  refine List.forall_mem_append.2 ⟨?_, h.numeral⟩
  split <;> simp [isNumeral]

/-- A double is written with a point or an exponent. -/
theorem isFraction_render (bits : Nat) : IsFraction (realFormat.render bits).toList := by
  unfold Format.render
  dsimp only
  rw [String.toList_ofList]
  refine IsFraction.signed ?_ _
  split
  · exact ⟨by simp [isNumeral], by simp⟩
  · have hds := fun c => isNumeral_of_mem_toDigits (c := c)
      (n := (shortest (Binary64.Magnitude.ofBits bits)).digits)
    split
    · exact isFraction_positional hds _
    · exact isFraction_scientific hds _

end Decimal

namespace Json

/-- A value whose doubles are among some. -/
inductive RealsIn (S : Set Nat) : Json → Prop
  | null : RealsIn S null
  | bool (b : Bool) : RealsIn S (bool b)
  | whole (i : Int) : RealsIn S (whole i)
  | real {bits : Nat} (h : bits ∈ S) : RealsIn S (real bits)
  | text (s : String) : RealsIn S (text s)
  | array {items : List Json} (h : ∀ v ∈ items, RealsIn S v) : RealsIn S (array items)
  | object {fields : List (String × Json)} (h : ∀ f ∈ fields, RealsIn S f.2) :
      RealsIn S (object fields)

theorem realsIn_foldl_put {S : Set Nat} {fields others : List (String × Json)}
    (h : RealsIn S (object others)) (hfields : ∀ f ∈ fields, RealsIn S f.2) :
    RealsIn S (object (fields.foldl (fun acc f => put f.1 f.2 acc) others)) := by
  induction fields generalizing others with
  | nil => exact h
  | cons f rest ih =>
      obtain ⟨hf, hrest⟩ := List.forall_mem_cons.1 hfields
      refine ih (.object fun g hg => ?_) hrest
      cases h with
      | object hothers =>
          rcases mem_put hg with rfl | hg
          · exact hf
          · exact hothers g hg

theorem realsIn_ofFields {S : Set Nat} {fields : List (String × Json)}
    (h : ∀ f ∈ fields, RealsIn S f.2) : RealsIn S (ofFields fields) :=
  realsIn_foldl_put (.object (by simp)) h

variable {α : Type} {v w : Json} {c close : Char} {rest rest' : List Char} {S : Set Nat}
  {items : List Json} {fields : List (String × Json)}

/-! ### The first character -/

/-- The first character of the text of a value; all numbers begin alike. -/
def lead : Json → Char
  | null => 'n'
  | bool b => if b then 't' else 'f'
  | whole _ => '0'
  | real _ => '0'
  | text _ => '"'
  | array _ => '['
  | object _ => '{'

/-- What a first character tells. -/
def leadOf (c : Char) : Char :=
  if isNumeral c then '0' else c

theorem leadOf_head {cs : List Char} (hne : cs ≠ []) (h : ∀ c ∈ cs, isNumeral c = true) :
    cs.head?.map leadOf = some '0' := by
  obtain ⟨c, cs, rfl⟩ := List.exists_cons_of_ne_nil hne
  simp [leadOf, h c List.mem_cons_self]

theorem real_ne_nil (bits : Nat) : (realFormat.render bits).toList ≠ [] := by
  intro hnil
  have hmark := (Decimal.isFraction_render bits).mark
  simp [hnil] at hmark

theorem leadOf_chars (v : Json) (rest : List Char) :
    (chars v ++ rest).head?.map leadOf = some v.lead := by
  have hnumber : ∀ cs : List Char, cs ≠ [] → (∀ c ∈ cs, isNumeral c = true) →
      (cs ++ rest).head?.map leadOf = some '0' := by
    intro cs hne h
    rw [List.head?_append_of_ne_nil _ hne]
    exact leadOf_head hne h
  cases v with
  | whole i => exact hnumber _ (wholeText_ne_nil i) fun c hc => isNumeral_of_mem_wholeText hc
  | real bits => exact hnumber _ (real_ne_nil bits) (Decimal.isFraction_render bits).numeral
  | bool b => cases b <;> rfl
  | array items => rw [chars_array]; rfl
  | object fields => rw [chars_object]; rfl
  | _ => rfl

theorem lead_eq (h : chars v ++ rest = chars w ++ rest') : v.lead = w.lead := by
  have hv := leadOf_chars v rest
  rw [h, leadOf_chars w rest'] at hv
  exact (Option.some.inj hv).symm

/-! ### Lists -/

/-- Texts one after the other, with commas between them. -/
def separated (write : α → List Char) : List α → List Char
  | [] => []
  | [a] => write a
  | a :: b :: rest => write a ++ ',' :: separated write (b :: rest)

theorem itemChars_eq : ∀ items, itemChars items = separated chars items
  | [] => rfl
  | [v] => by simp [itemChars, separated]
  | v :: w :: rest => by simp [itemChars, separated, itemChars_eq (w :: rest)]

/-- The text of a field. -/
def fieldText (f : String × Json) : List Char :=
  quote f.1 ++ ':' :: chars f.2

theorem fieldChars_eq : ∀ fields, fieldChars fields = separated fieldText fields
  | [] => rfl
  | [(k, v)] => by simp [fieldChars, separated, fieldText]
  | (k, v) :: f :: rest => by
      simp [fieldChars, separated, fieldText, fieldChars_eq (f :: rest)]

/-- What a written thing begins with tells which one it is and where it ends. -/
def Told (write : α → List Char) (P : α → Prop) (a : α) : Prop :=
  ∀ b rest rest', P b → Ends rest → Ends rest' → write a ++ rest = write b ++ rest' →
    a = b ∧ rest = rest'

/-- What is behind the first of some things up to the bracket at their end. -/
def behind (write : α → List Char) (close : Char) (as : List α) (rest : List Char) : List Char :=
  if as.isEmpty then close :: rest else ',' :: (separated write as ++ close :: rest)

theorem separated_cons (write : α → List Char) (a : α) (as : List α) :
    separated write (a :: as) ++ close :: rest = write a ++ behind write close as rest := by
  cases as <;> simp [separated, behind]

theorem ends_behind {write : α → List Char} {as : List α} (hclose : isNumeral close = false) :
    Ends (behind write close as rest) := by
  unfold behind
  split
  · exact ends_cons hclose
  · exact ends_cons rfl

theorem separated_cancel {write : α → List Char} {P : α → Prop} {as bs : List α}
    (hclose : isNumeral close = false ∧ close ≠ ',')
    (hlead : ∀ a rest, (write a ++ rest).head? ≠ some close)
    (has : ∀ a ∈ as, Told write P a) (hbs : ∀ b ∈ bs, P b)
    (h : separated write as ++ close :: rest = separated write bs ++ close :: rest') :
    as = bs ∧ rest = rest' := by
  induction as generalizing bs with
  | nil =>
      cases bs with
      | nil => simpa [separated] using h
      | cons b bs =>
          -- One list has come to its end, and nothing in the other begins with the bracket.
          rw [separated_cons] at h
          exact absurd (congrArg List.head? h).symm (hlead b _)
  | cons a as ih =>
      cases bs with
      | nil =>
          rw [separated_cons] at h
          exact absurd (congrArg List.head? h) (hlead a _)
      | cons b bs =>
          obtain ⟨ha, hsame⟩ := List.forall_mem_cons.1 has
          obtain ⟨hb, hothers⟩ := List.forall_mem_cons.1 hbs
          rw [separated_cons, separated_cons] at h
          obtain ⟨rfl, hbehind⟩ := ha b _ _ hb (ends_behind hclose.1) (ends_behind hclose.1) h
          -- A comma is behind an item exactly when there is another one.
          have hrests : as = bs ∧ rest = rest' := by
            cases as <;> cases bs
            · simpa [behind] using hbehind
            · simp [behind, hclose.2] at hbehind
            · simp [behind, hclose.2.symm] at hbehind
            · exact ih hsame hothers (List.cons.inj hbehind).2
          simp [hrests]

/-! ### Values -/

theorem lead_ne (v : Json) : v.lead ≠ ']' := by
  cases v with
  | bool b => cases b <;> simp [lead]
  | _ => simp [lead]

theorem head?_chars (v : Json) (rest : List Char) : (chars v ++ rest).head? ≠ some ']' := by
  intro h
  have hlead := leadOf_chars v rest
  rw [h] at hlead
  exact lead_ne v (Option.some.inj hlead).symm

theorem told_fieldText {f : String × Json} (h : Told chars (RealsIn S) f.2) :
    Told fieldText (fun f => RealsIn S f.2) f := by
  intro g rest rest' hg hrest hrest' heq
  simp only [fieldText, List.append_assoc, List.cons_append] at heq
  obtain ⟨hkey, hvalues⟩ := quote_cancel heq
  obtain ⟨hvalue, hrests⟩ := h g.2 rest rest' hg hrest hrest' (List.cons.inj hvalues).2
  exact ⟨Prod.ext hkey hvalue, hrests⟩

theorem numeral_of_whole (i : Int) : ∀ c ∈ wholeText i, isNumeral c = true := fun _ =>
  isNumeral_of_mem_wholeText

/-- A whole number is never written as a double. -/
theorem whole_ne_real (hrest : Ends rest) (hrest' : Ends rest') (i : Int) (bits : Nat) :
    wholeText i ++ rest ≠ (realFormat.render bits).toList ++ rest' := by
  intro h
  have hreal := Decimal.isFraction_render bits
  obtain ⟨heq, -⟩ := numeral_cancel (numeral_of_whole i) hreal.numeral hrest hrest' h
  have hmark := hreal.mark
  rw [← heq] at hmark
  simp [mark_not_mem_wholeText] at hmark

theorem told_array (h : ∀ v ∈ items, Told chars (RealsIn S) v) :
    Told chars (RealsIn S) (array items) := by
  intro w rest rest' hw _ _ heq
  have hlead := lead_eq heq
  cases hw with
  | array hothers =>
      simp only [chars_array, itemChars_eq, List.cons_append, List.append_assoc, List.cons.injEq,
        true_and, List.nil_append] at heq
      have hcancel := separated_cancel (by decide) head?_chars h hothers heq
      exact ⟨congrArg array hcancel.1, hcancel.2⟩
  | _ => grind [lead]

theorem told_object (h : ∀ f ∈ fields, Told chars (RealsIn S) f.2) :
    Told chars (RealsIn S) (object fields) := by
  intro w rest rest' hw _ _ heq
  have hlead := lead_eq heq
  cases hw with
  | object hothers =>
      simp only [chars_object, fieldChars_eq, List.cons_append, List.append_assoc, List.cons.injEq,
        true_and, List.nil_append] at heq
      have hcancel := separated_cancel (P := fun f => RealsIn S f.2) (by decide)
        (by simp [fieldText, quote]) (fun f hf => told_fieldText (h f hf)) hothers heq
      exact ⟨congrArg object hcancel.1, hcancel.2⟩
  | _ => grind [lead]

theorem told_number {i : Int} : Told chars (RealsIn S) (whole i) := by
  intro w rest rest' hw hrest hrest' heq
  have hlead := lead_eq heq
  cases hw with
  | whole j =>
      have hcancel := numeral_cancel (numeral_of_whole i) (numeral_of_whole j) hrest hrest' heq
      exact ⟨congrArg whole (wholeText_injective hcancel.1), hcancel.2⟩
  | real _ => exact absurd heq (whole_ne_real hrest hrest' i _)
  | _ => grind [lead]

theorem told_real (hS : S.InjOn realFormat.render) (hbits : bits ∈ S) :
    Told chars (RealsIn S) (real bits) := by
  intro w rest rest' hw hrest hrest' heq
  have hlead := lead_eq heq
  cases hw with
  | whole j => exact absurd heq.symm (whole_ne_real hrest' hrest j _)
  | @real bits' hbits' =>
      have hcancel := numeral_cancel (Decimal.isFraction_render bits).numeral
        (Decimal.isFraction_render bits').numeral hrest hrest' heq
      exact ⟨congrArg real (hS hbits hbits' (String.toList_inj.1 hcancel.1)), hcancel.2⟩
  | _ => grind [lead]

/-- What a text begins with tells which value it is the text of, and where its text ends. -/
theorem told_chars (hS : S.InjOn realFormat.render) (h : RealsIn S v) :
    Told chars (RealsIn S) v := by
  induction h with
  | null =>
      intro w rest rest' hw _ _ heq
      have hlead := lead_eq heq
      cases hw with
      | null => simpa [chars] using heq
      | _ => grind [lead]
  | bool b =>
      intro w rest rest' hw _ _ heq
      have hlead := lead_eq heq
      cases hw with
      | bool b' => cases b <;> cases b' <;> simp_all [chars]
      | _ => grind [lead]
  | whole i => exact told_number
  | real hbits => exact told_real hS hbits
  | text s =>
      intro w rest rest' hw _ _ heq
      have hlead := lead_eq heq
      cases hw with
      | text t => simpa [chars] using quote_cancel (by simpa [chars] using heq)
      | _ => grind [lead]
  | array _ ih => exact told_array ih
  | object _ ih => exact told_object ih

theorem eq_of_compact_eq (hS : S.InjOn realFormat.render) (hv : v.RealsIn S) (hw : w.RealsIn S)
    (h : v.compact = w.compact) : v = w := by
  have hchars : chars v ++ [] = chars w ++ [] := by
    rw [String.ofList_injective h]
  exact (told_chars hS hv w [] [] hw ends_nil ends_nil hchars).1

/-! ### The same values -/

/-- Two values are the same: items are at the same places, and fields under the same keys, in
whatever order the keys stand. -/
inductive Same : Json → Json → Prop
  | null : Same null null
  | bool (b : Bool) : Same (bool b) (bool b)
  | whole (i : Int) : Same (whole i) (whole i)
  | real (bits : Nat) : Same (real bits) (real bits)
  | text (s : String) : Same (text s) (text s)
  | array {items others : List Json} (hlength : items.length = others.length)
      (h : ∀ i (hi : i < items.length) (hi' : i < others.length), Same items[i] others[i]) :
      Same (array items) (array others)
  | object {fields others : List (String × Json)}
      (hkeys : ∀ key, (lookup key fields).isSome = (lookup key others).isSome)
      (h : ∀ key v w, lookup key fields = some v → lookup key others = some w → Same v w) :
      Same (object fields) (object others)

theorem Ordered.same_self (h : v.Ordered) : v.Same v := by
  induction h with
  | array _ ih => exact .array rfl fun i hi _ => ih _ (List.getElem_mem hi)
  | object _ _ ih =>
      refine .object (fun _ => rfl) fun key v w hv hw => ?_
      obtain rfl := Option.some.inj (hv.symm.trans hw)
      exact ih _ (mem_of_lookup hv)
  | _ => constructor

theorem Same.get? {key : String} {a b : Json} (h : v.Same w) (ha : v.get? key = some a)
    (hb : w.get? key = some b) : a.Same b := by
  cases h with
  | object _ h => exact h key a b ha hb
  | _ => simp [Json.get?] at ha

/-- Values in order that are the same are equal. -/
theorem Same.eq (h : v.Same w) (hv : v.Ordered) (hw : w.Ordered) : v = w := by
  induction h with
  | @array items others hlength _ ih =>
      cases hv with
      | array hitems =>
          cases hw with
          | array hothers =>
              refine congrArg Json.array (List.ext_getElem hlength fun i hi hi' => ?_)
              exact ih i hi hi' (hitems _ (List.getElem_mem hi)) (hothers _ (List.getElem_mem hi'))
  | @object fields others hkeys _ ih =>
      refine congrArg Json.object (eq_of_lookup hv.rising hw.rising fun key => ?_)
      have hsome := hkeys key
      cases hx : lookup key fields with
      | none =>
          rw [hx, Option.isSome_none, eq_comm, Option.isSome_eq_false_iff,
            Option.isNone_iff_eq_none] at hsome
          exact hsome.symm
      | some x =>
          rw [hx, Option.isSome_some, eq_comm, Option.isSome_iff_exists] at hsome
          obtain ⟨y, hy⟩ := hsome
          rw [hy, ih key x y hx hy (hv.field (mem_of_lookup hx)) (hw.field (mem_of_lookup hy))]
  | _ => rfl

/-- Whatever the order in which fields come and however often one is replaced, they make one
object when the last of each key is the same. -/
theorem ofFields_congr {others : List (String × Json)}
    (h : ∀ key, lookup key fields.reverse = lookup key others.reverse) :
    ofFields fields = ofFields others := by
  refine congrArg object (eq_of_lookup ?_ ?_ fun key => ?_)
  · exact rising_foldl_put rising_nil
  · exact rising_foldl_put rising_nil
  · rw [lookup_foldl_put, lookup_foldl_put, h]

end Json

namespace Values

open Json

variable {v w : Json} {S : Set Nat}

/-- The text that the digest is taken of tells the values. Where no two doubles of theirs are
printed alike, two values have one text exactly when they are the same, so one digest too where no
two texts of theirs have one. The order in which fields were put in makes no difference, nor does a
field that was replaced, nor the way in which documents came to the same merge. -/
theorem digest_tells_values (hS : S.InjOn realFormat.render) (hv : v.Ordered) (hw : w.Ordered)
    (hvS : v.RealsIn S) (hwS : w.RealsIn S) :
    (v.compact = w.compact ↔ v.Same w) ∧
      (∀ texts : Set String, texts.InjOn Md5.digest → v.compact ∈ texts → w.compact ∈ texts →
        (digest v = digest w ↔ v.Same w)) ∧
      (∀ fields others : List (String × Json),
        (∀ key, lookup key fields.reverse = lookup key others.reverse) →
          (ofFields fields).compact = (ofFields others).compact) ∧
      ∀ documents others : List Json, (∀ d ∈ documents, d.Ordered) → (∀ d ∈ others, d.Ordered) →
        (mergeAll documents).Same (mergeAll others) →
          (mergeAll documents).compact = (mergeAll others).compact := by
  have htext : v.compact = w.compact ↔ v.Same w := by
    constructor
    · intro h
      obtain rfl := eq_of_compact_eq hS hvS hwS h
      exact hv.same_self
    · intro h
      rw [h.eq hv hw]
  refine ⟨htext, fun texts hmd5 hvt hwt => ?_, fun fields others h => ?_,
    fun documents others hdocuments hothers h => ?_⟩
  · rw [← htext]
    exact hmd5.eq_iff hvt hwt
  · rw [ofFields_congr h]
  · rw [h.eq (ordered_mergeAll hdocuments) (ordered_mergeAll hothers)]

/-- A value beside a half and a name that has to be escaped. -/
def besideHalf (v : Json) : Json :=
  .ofFields [("na\"me\\", .text "\n\x01é"), ("größe", .array [v, .real 0x3FE0000000000000, .null])]

theorem ordered_besideHalf {v : Json} (h : v.Ordered) : (besideHalf v).Ordered := by
  apply ordered_ofFields
  simp [Ordered.text, Ordered.array, Ordered.real, Ordered.null, h]

/-- The doubles one and a half. -/
def someDoubles : Set Nat :=
  {0x3FF0000000000000, 0x3FE0000000000000}

theorem realsIn_besideHalf {v : Json} (h : v.RealsIn someDoubles) :
    (besideHalf v).RealsIn someDoubles := by
  have hhalf : RealsIn someDoubles (.real 0x3FE0000000000000) := .real (by simp [someDoubles])
  apply realsIn_ofFields
  simp [RealsIn.text, RealsIn.array, RealsIn.null, h, hhalf]

theorem get?_besideHalf (v : Json) :
    (besideHalf v).get? "größe" = some (.array [v, .real 0x3FE0000000000000, .null]) := by
  simp only [besideHalf, ofFields, get?_object, lookup_foldl_put]
  simp

/-- The whole number one and the double one have different texts and different digests. -/
theorem digest_tells_values_one :
    (besideHalf (.whole 1)).compact ≠ (besideHalf (.real 0x3FF0000000000000)).compact ∧
      digest (besideHalf (.whole 1)) ≠ digest (besideHalf (.real 0x3FF0000000000000)) := by
  have hprinted : someDoubles.InjOn realFormat.render :=
    Set.injOn_pair.2 fun h => absurd h (by decide +kernel)
  have hone : RealsIn someDoubles (.real 0x3FF0000000000000) := .real (by simp [someDoubles])
  have hmd5 : ({(besideHalf (.whole 1)).compact,
      (besideHalf (.real 0x3FF0000000000000)).compact} : Set String).InjOn Md5.digest :=
    Set.injOn_pair.2 fun h => absurd h (by decide +kernel)
  have hsame : ¬ (besideHalf (.whole 1)).Same (besideHalf (.real 0x3FF0000000000000)) := by
    intro h
    cases h.get? (get?_besideHalf _) (get?_besideHalf _) with
    | array _ hitems => cases hitems 0 (by simp) (by simp)
  obtain ⟨htext, hdigest, -⟩ := digest_tells_values hprinted (ordered_besideHalf (.whole 1))
    (ordered_besideHalf (.real _)) (realsIn_besideHalf (.whole 1)) (realsIn_besideHalf hone)
  exact ⟨mt htext.1 hsame, mt (hdigest _ hmd5 (by simp) (by simp)).1 hsame⟩

end Values

end ReleaseOperator
