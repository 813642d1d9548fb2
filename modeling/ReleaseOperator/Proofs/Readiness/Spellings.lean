import ReleaseOperator.Proofs.Estate.Sound
import ReleaseOperator.Proofs.Readiness.Verdicts

/-!
# Versions and their spellings

Selection compares versions, readiness compares texts. A version can be read from one text only,
its own, but for the blanks around it and one letter in front. So of two texts that stand for equal
versions either both have the letter or neither has, and then they are the same text, or one has it
and the other has not. In the second case a release that has reached its version is never ready.
-/

namespace ReleaseOperator

namespace Version

/-! ### Numbers -/

section Numbers

variable {part : Part} {cs rest : List Char} {n a : Nat} {c : Char} {acc : Option Nat}

theorem readNumber_of_digit (hdigit : c.isDigit = true)
    (h : readNumber part acc (c :: cs) = .ok (n, rest)) :
    acc ≠ some 0 ∧ readNumber part (some (acc.getD 0 * 10 + (c.toNat - 48))) cs = .ok (n, rest) := by
  -- The equations of `readNumber` cannot be asked for: making them would count up to the bound.
  change (if c.isDigit = true then _ else _) = _ at h
  rw [if_pos hdigit] at h
  split at h
  · cases h
  · rename_i hacc
    dsimp only at h
    split at h
    · cases h
    · exact ⟨fun hzero => hacc hzero, h⟩

theorem readNumber_of_other (hother : ¬ c.isDigit = true)
    (h : readNumber part acc (c :: cs) = .ok (n, rest)) : acc = some n ∧ rest = c :: cs := by
  change (if c.isDigit = true then _ else _) = _ at h
  rw [if_neg hother] at h
  cases acc with
  | none => cases h
  | some a =>
      obtain ⟨rfl, rfl⟩ := Prod.mk.inj (Except.ok.inj h)
      exact ⟨rfl, rfl⟩

theorem digitChar_of_isDigit (h : c.isDigit = true) :
    c.toNat - 48 < 10 ∧ Nat.digitChar (c.toNat - 48) = c := by
  obtain ⟨hlow, hhigh⟩ := Char.isDigit_iff_toNat.1 h
  change 48 ≤ c.toNat at hlow
  change c.toNat ≤ 57 at hhigh
  refine ⟨by omega, Char.toNat_inj.1 ?_⟩
  rw [Nat.toNat_digitChar_of_lt_ten (by omega)]
  omega

theorem toDigits_push (ha : 0 < a) (h : c.isDigit = true) :
    Nat.toDigits 10 (a * 10 + (c.toNat - 48)) = Nat.toDigits 10 a ++ [c] := by
  obtain ⟨hlow, hchar⟩ := digitChar_of_isDigit h
  rw [Nat.mul_comm, ← Nat.toDigits_append_toDigits (by decide) ha hlow,
    Nat.toDigits_of_lt_base hlow, hchar]

theorem toDigits_of_readNumber_some (h : readNumber part (some a) cs = .ok (n, rest)) :
    Nat.toDigits 10 a ++ cs = Nat.toDigits 10 n ++ rest := by
  induction cs generalizing a with
  | nil =>
      obtain ⟨rfl, rfl⟩ := Prod.mk.inj (Except.ok.inj h)
      rfl
  | cons c cs ih =>
      by_cases hdigit : c.isDigit = true
      · obtain ⟨hzero, h⟩ := readNumber_of_digit hdigit h
        have ha : 0 < a := Nat.pos_of_ne_zero fun ha => hzero (congrArg some ha)
        rw [← ih h, Option.getD_some, toDigits_push ha hdigit, List.append_assoc]
        rfl
      · obtain ⟨hacc, rfl⟩ := readNumber_of_other hdigit h
        rw [Option.some.inj hacc]

/-- A number is read from its digits. -/
theorem toDigits_of_readNumber (h : readNumber part none cs = .ok (n, rest)) :
    cs = Nat.toDigits 10 n ++ rest := by
  cases cs with
  | nil => cases h
  | cons c cs =>
      by_cases hdigit : c.isDigit = true
      · obtain ⟨-, h⟩ := readNumber_of_digit hdigit h
        obtain ⟨hlow, hchar⟩ := digitChar_of_isDigit hdigit
        rw [← toDigits_of_readNumber_some h, Option.getD_none, Nat.zero_mul, Nat.zero_add,
          Nat.toDigits_of_lt_base hlow, hchar]
        rfl
      · exact absurd (readNumber_of_other hdigit h).1 (by simp)

theorem eq_of_readDot (h : readDot part cs = .ok rest) : cs = '.' :: rest := by
  cases cs with
  | nil => cases h
  | cons c cs =>
      rw [readDot] at h
      split at h
      · rename_i hc
        rw [hc, Except.ok.inj h]
      · cases h

end Numbers

/-! ### Identifiers -/

section Identifiers

variable {part : Part} {mark : Char} {cs rest segment : List Char} {ids done : List String}
  {found : Option (List String)}

/-- Identifiers with dots between them. -/
def joined (ids : List String) : List Char := ['.'].intercalate (ids.map String.toList)

/-- Identifiers with a dot behind each. -/
def dotted (ids : List String) : List Char := ids.flatMap fun s => s.toList ++ ['.']

theorem joined_concat (ids : List String) (s : String) :
    joined (ids ++ [s]) = dotted ids ++ s.toList := by
  induction ids with
  | nil => simp [joined, dotted, List.intercalate]
  | cons first ids ih =>
      have hne : (ids ++ [s]).map String.toList ≠ [] := by simp
      rw [joined, List.cons_append, List.map_cons, List.intercalate_cons_of_ne_nil hne, ← joined, ih]
      simp [dotted]

theorem dotted_concat (ids : List String) (s : String) :
    dotted (ids ++ [s]) = dotted ids ++ s.toList ++ ['.'] := by
  simp [dotted]

theorem ofList_reverse_ne_empty (h : ¬ segment.isEmpty = true) :
    String.ofList segment.reverse ≠ "" := by
  intro hempty
  have hnil := congrArg String.toList hempty
  rw [String.toList_ofList] at hnil
  exact h (List.isEmpty_iff.2 (List.reverse_eq_nil_iff.1 hnil))

theorem joined_of_close (h : readIdentifiers.close part done segment cs = .ok (ids, rest))
    (hdone : "" ∉ done) :
    dotted done.reverse ++ segment.reverse ++ cs = joined ids ++ rest ∧ ids ≠ [] ∧ "" ∉ ids := by
  rw [readIdentifiers.close] at h
  split at h
  · cases h
  · rename_i hsegment
    split at h
    · cases h
    · obtain ⟨rfl, rfl⟩ := Prod.mk.inj (Except.ok.inj h)
      rw [List.reverse_cons, joined_concat, String.toList_ofList]
      refine ⟨rfl, by simp, ?_⟩
      simpa [hdone] using (ofList_reverse_ne_empty hsegment).symm

/-- Identifiers are read from their texts, and none of them is empty. -/
theorem joined_of_readIdentifiers (h : readIdentifiers part done segment cs = .ok (ids, rest))
    (hdone : "" ∉ done) :
    dotted done.reverse ++ segment.reverse ++ cs = joined ids ++ rest ∧ ids ≠ [] ∧ "" ∉ ids := by
  induction cs generalizing done segment with
  | nil => exact joined_of_close h hdone
  | cons c cs ih =>
      rw [readIdentifiers] at h
      split at h
      · have hnext := ih h hdone
        rw [List.reverse_cons, ← List.append_assoc, List.append_assoc _ [c]] at hnext
        exact hnext
      · split at h
        · rename_i hdot
          split at h
          · cases h
          · rename_i hsegment
            split at h
            · cases h
            · have hmore : "" ∉ String.ofList segment.reverse :: done := by
                simpa [hdone] using (ofList_reverse_ne_empty hsegment).symm
              have hnext := ih h hmore
              rw [List.reverse_cons, dotted_concat, String.toList_ofList, List.reverse_nil,
                List.append_nil, List.append_assoc _ ['.']] at hnext
              rw [hdot]
              exact hnext
        · exact joined_of_close h hdone

/-- The text of identifiers behind a mark, nothing where there are none. -/
def marked (mark : Char) (ids : List String) : List Char :=
  if ids.isEmpty then [] else mark :: joined ids

theorem marked_of_readMarked (h : readMarked part mark cs = .ok (found, rest)) :
    cs = marked mark (found.getD []) ++ rest ∧ "" ∉ found.getD [] := by
  cases cs with
  | nil =>
      obtain ⟨rfl, rfl⟩ := Prod.mk.inj (Except.ok.inj h)
      exact ⟨rfl, List.not_mem_nil⟩
  | cons c cs =>
      rw [readMarked] at h
      split at h
      · rename_i hmark
        obtain ⟨⟨ids, rest'⟩, hids, heq⟩ : ∃ x, readIdentifiers part [] [] cs = .ok x ∧
            (some x.1, x.2) = (found, rest) := by
          cases hids : readIdentifiers part [] [] cs with
          | error e =>
              rw [hids] at h
              cases h
          | ok x =>
              rw [hids] at h
              exact ⟨x, rfl, Except.ok.inj h⟩
        obtain ⟨rfl, rfl⟩ := Prod.mk.inj heq
        obtain ⟨htext, hne, hempty⟩ := joined_of_readIdentifiers hids List.not_mem_nil
        refine ⟨?_, hempty⟩
        have htext : cs = joined ids ++ rest' := by simpa [dotted] using htext
        rw [Option.getD_some, marked, if_neg (by simpa using hne), hmark, List.cons_append, ← htext]
      · obtain ⟨rfl, rfl⟩ := Prod.mk.inj (Except.ok.inj h)
        exact ⟨rfl, List.not_mem_nil⟩

end Identifiers

/-! ### Whole versions -/

section Versions

variable {cs : List Char} {v w : Version} {as bs : List String} {a b s left right : String}

theorem toList_text (v : Version) :
    v.text.toList = Nat.toDigits 10 v.major ++ '.' :: (Nat.toDigits 10 v.minor ++
      '.' :: (Nat.toDigits 10 v.patch ++ (marked '-' v.pre ++ marked '+' v.build))) := by
  have hpre : (if v.pre.isEmpty then "" else "-" ++ v.preText).toList = marked '-' v.pre := by
    rw [marked]
    split
    · rfl
    · rw [String.toList_append, preText, String.toList_intercalate]
      rfl
  have hbuild : (if v.build.isEmpty then "" else "+" ++ v.buildText).toList = marked '+' v.build := by
    rw [marked]
    split
    · rfl
    · rw [String.toList_append, buildText, String.toList_intercalate]
      rfl
  simp only [text, String.toList_append, String.toList_intercalate, hpre, hbuild, List.map_cons,
    List.map_nil, Nat.toString_eq_ofList_toDigits, String.toList_ofList]
  simp [List.intercalate]

/-- A version is read from its own text only. -/
theorem text_of_readAll (h : readAll cs = .ok v) : v.text.toList = cs ∧ "" ∉ v.build := by
  rw [readAll] at h
  split at h
  · cases h
  · obtain ⟨⟨major, cs₁⟩, hmajor, h⟩ := Manifest.ok_of_bind h
    obtain ⟨cs₂, hdot, h⟩ := Manifest.ok_of_bind h
    obtain ⟨⟨minor, cs₃⟩, hminor, h⟩ := Manifest.ok_of_bind h
    obtain ⟨cs₄, hdot', h⟩ := Manifest.ok_of_bind h
    obtain ⟨⟨patch, cs₅⟩, hpatch, h⟩ := Manifest.ok_of_bind h
    obtain ⟨⟨pre, cs₆⟩, hpre, h⟩ := Manifest.ok_of_bind h
    obtain ⟨⟨build, cs₇⟩, hbuild, h⟩ := Manifest.ok_of_bind h
    dsimp only at h
    split at h
    · obtain rfl := Except.ok.inj h
      obtain ⟨rfl, -⟩ := marked_of_readMarked hpre
      obtain ⟨rfl, hempty⟩ := marked_of_readMarked hbuild
      rw [toDigits_of_readNumber hmajor, eq_of_readDot hdot, toDigits_of_readNumber hminor,
        eq_of_readDot hdot', toDigits_of_readNumber hpatch, toList_text, List.append_nil]
      exact ⟨rfl, hempty⟩
    · cases h

/-! ### Equal versions -/

theorem eq_of_compareText (h : compareText a b = .eq) : a = b := by
  change compare a b = .eq at h
  exact Std.LawfulEqOrd.eq_of_compare h

theorem eq_of_comparePreIdentifier (h : comparePreIdentifier a b = .eq) : a = b := by
  unfold comparePreIdentifier at h
  split at h
  · cases h
  · cases h
  · exact eq_of_compareText h
  · exact eq_of_compareText (Ordering.then_eq_eq.1 h).2

theorem toList_dropZeros (s : String) :
    s.toList = List.replicate (s.length - (dropZeros s).length) '0' ++ (dropZeros s).toList := by
  have hsplit := List.takeWhile_append_dropWhile (p := fun c => decide (c = '0')) (l := s.toList)
  have hzeros : s.toList.takeWhile (fun c => decide (c = '0')) =
      List.replicate (s.toList.takeWhile fun c => decide (c = '0')).length '0' := by
    refine List.eq_replicate_iff.2 ⟨rfl, fun c hc => ?_⟩
    have hzero := List.mem_takeWhile_imp hc
    exact of_decide_eq_true hzero
  have hlength := congrArg List.length hsplit
  rw [List.length_append] at hlength
  rw [dropZeros, String.length_ofList, String.toList_ofList, ← String.length_toList, ← hlength,
    Nat.add_sub_cancel, ← hzeros, hsplit]

theorem eq_of_compareBuildIdentifier (h : compareBuildIdentifier a b = .eq) : a = b := by
  unfold compareBuildIdentifier at h
  split at h
  · cases h
  · cases h
  · exact eq_of_compareText h
  · obtain ⟨hrest, hlength⟩ := Ordering.then_eq_eq.1 h
    have hdropped := eq_of_compareText (Ordering.then_eq_eq.1 hrest).2
    rw [Nat.compare_eq_eq] at hlength
    refine String.toList_injective ?_
    rw [toList_dropZeros a, toList_dropZeros b, hdropped, hlength]

theorem eq_of_compareIdentifiers {cmp : String → String → Ordering}
    (hcmp : ∀ {a b}, cmp a b = .eq → a = b) (h : compareIdentifiers cmp as bs = .eq) : as = bs := by
  induction as generalizing bs with
  | nil =>
      cases bs with
      | nil => rfl
      | cons b bs => cases h
  | cons a as ih =>
      cases bs with
      | nil => cases h
      | cons b bs =>
          obtain ⟨hfirst, hrest⟩ := Ordering.then_eq_eq.1 h
          rw [hcmp hfirst, ih hrest]

theorem eq_of_comparePre (h : comparePre as bs = .eq) : as = bs := by
  cases as <;> cases bs
  · rfl
  · cases h
  · cases h
  · exact eq_of_compareIdentifiers eq_of_comparePreIdentifier h

theorem eq_of_compareBuild (has : "" ∉ as) (hbs : "" ∉ bs) (h : compareBuild as bs = .eq) :
    as = bs := by
  have hfilled := eq_of_compareIdentifiers eq_of_compareBuildIdentifier h
  cases as <;> cases bs <;> simp_all

/-- Only equal versions compare equal. -/
theorem eq_of_order (hv : "" ∉ v.build) (hw : "" ∉ w.build) (h : v.order w = .eq) : v = w := by
  rw [order] at h
  obtain ⟨hmajor, h⟩ := Ordering.then_eq_eq.1 h
  obtain ⟨hminor, h⟩ := Ordering.then_eq_eq.1 h
  obtain ⟨hpatch, h⟩ := Ordering.then_eq_eq.1 h
  obtain ⟨hpre, hbuild⟩ := Ordering.then_eq_eq.1 h
  rcases v with ⟨_, _, _, _, _⟩
  rcases w with ⟨_, _, _, _, _⟩
  obtain rfl := Nat.compare_eq_eq.1 hmajor
  obtain rfl := Nat.compare_eq_eq.1 hminor
  obtain rfl := Nat.compare_eq_eq.1 hpatch
  obtain rfl := eq_of_comparePre hpre
  obtain rfl := eq_of_compareBuild hv hw hbuild
  rfl

/-! ### Texts of equal versions -/

/-- A text has the letter that may stand in front of a version. -/
def Lettered (s : String) : Prop := ∃ cs, (Text.trim s).toList = 'v' :: cs

/-- A version is read from the text without blanks, after the letter in front where there is one. -/
theorem exists_readAll_of_parse (h : parse s = .ok v) : ∃ cs, readAll cs = .ok v ∧
    ((Text.trim s).toList = cs ∧ ¬ Lettered s ∨ (Text.trim s).toList = 'v' :: cs ∧ Lettered s) := by
  have htrim : (Text.trim s).toList = Text.trimChars s.toList := String.toList_ofList
  rw [parse] at h
  cases hdrop : Text.dropStart? ['v'] (Text.trimChars s.toList) with
  | some cs =>
      rw [hdrop] at h
      rw [Text.dropStart?_eq_some_iff, ← htrim] at hdrop
      exact ⟨cs, h, .inr ⟨hdrop, cs, hdrop⟩⟩
  | none =>
      rw [hdrop] at h
      refine ⟨_, h, .inl ⟨htrim, fun ⟨cs, hcs⟩ => ?_⟩⟩
      rw [htrim] at hcs
      rw [Text.dropStart?_eq_some_iff.2 hcs] at hdrop
      cases hdrop

/-- Texts that stand for equal versions are the same without blanks exactly when both or none of
them have the letter in front. -/
theorem trim_eq_iff (h : compareTexts left right = .ok .eq) :
    Text.trim left = Text.trim right ↔ (Lettered left ↔ Lettered right) := by
  obtain ⟨v, w, hleft, hright, horder⟩ := compareTexts_eq_ok.1 h
  obtain ⟨cs, hcs, hspelled⟩ := exists_readAll_of_parse hleft
  obtain ⟨cs', hcs', hspelled'⟩ := exists_readAll_of_parse hright
  obtain ⟨htext, hbuild⟩ := text_of_readAll hcs
  obtain ⟨htext', hbuild'⟩ := text_of_readAll hcs'
  obtain rfl := eq_of_order hbuild hbuild' horder
  obtain rfl : cs = cs' := htext.symm.trans htext'
  rw [← String.toList_inj]
  rcases hspelled with ⟨hl, hno⟩ | ⟨hl, hyes⟩ <;> rcases hspelled' with ⟨hr, hno'⟩ | ⟨hr, hyes'⟩
  · exact iff_of_true (hl.trans hr.symm) (iff_of_false hno hno')
  · refine iff_of_false (fun heq => ?_) fun hiff => hno (hiff.2 hyes')
    rw [hl, hr] at heq
    exact absurd (congrArg List.length heq) (by simp)
  · refine iff_of_false (fun heq => ?_) fun hiff => hno' (hiff.1 hyes)
    rw [hl, hr] at heq
    exact absurd (congrArg List.length heq) (by simp)
  · exact iff_of_true (hl.trans hr.symm) (iff_of_true hyes hyes')

end Versions

end Version

/-! ### Releases at an equal version -/

/-- Helm reports a release as deployed at a version and tells a manifest that is read, and every
workload that the manifest speaks of is ready. -/
structure Release.Serves (release : Release) (installed : String)
    (answer : (c : Call) → c.Answer) : Prop where
  deployed : ∃ info : ReleaseInfo,
    answer (.helm (.releaseInfo release.name release.namespaceName)) = .ok (some info) ∧
      info.status = .deployed ∧ info.chartVersion = installed
  workloads : ∃ text documents,
    answer (.helm (.manifest release.name release.namespaceName)) = .ok text ∧
      Manifest.Reads text documents ∧
      ∀ w, Manifest.Speaks documents release.namespaceName w →
        answer (.cluster (.workloadReady w)) = .ok true

/-- A release that serves is called ready at the desired version, and otherwise not ready yet. -/
theorem Release.Serves.verdict {release : Release} {installed : String}
    {answer : (c : Call) → c.Answer} (h : release.Serves installed answer) (desired : String) :
    Pass.resultWith answer (Pass.releaseReady release desired) = (true, .done) ∧
        (desired = "" ∨ Text.trim installed = desired) ∨
      Pass.resultWith answer (Pass.releaseReady release desired) = (false, .done) ∧
        ¬ (desired = "" ∨ Text.trim installed = desired) := by
  obtain ⟨info, hinfo, hdeployed, rfl⟩ := h.deployed
  by_cases hversion : desired = "" ∨ Text.trim info.chartVersion = desired
  · have hconfirmed : release.Confirmed desired answer :=
      ⟨⟨info, hinfo, hdeployed, hversion⟩, h.workloads⟩
    exact .inl ⟨hconfirmed.ready, hversion⟩
  · have hnot : ¬ info.IsAt desired := fun hat => hversion hat.2
    exact .inr ⟨resultWith_releaseReady_of_reported hinfo hnot, hversion⟩

/-- Helm reports the release of a job as deployed at a version that is equal to the one that is
desired, and its workloads are ready. Then it is found ready exactly when the two versions are
spelled alike, both with the letter in front or both without, and otherwise it is not ready yet. -/
theorem Job.ready_iff_spelled_alike {setup : Setup} {j : Job} {installed : String}
    {answer : (c : Call) → c.Answer} (hwet : setup.dryRun = false)
    (hequal : Version.compareTexts installed j.resource.desiredVersion = .ok .eq)
    (hserves : j.release.Serves installed answer) :
    (Pass.resultWith answer (j.isReady setup) = (true, .done) ↔
      (Version.Lettered installed ↔ Version.Lettered j.resource.desiredVersion)) ∧
    (Pass.resultWith answer (j.isReady setup) = (false, .done) ↔
      ¬ (Version.Lettered installed ↔ Version.Lettered j.resource.desiredVersion)) := by
  have hnamed : j.resource.desiredVersion ≠ "" := by
    intro hempty
    obtain ⟨_, w, -, hdesired, -⟩ := Version.compareTexts_eq_ok.1 hequal
    rw [hempty] at hdesired
    cases hdesired
  have hspelled := Version.trim_eq_iff hequal
  rw [Situation.trim_desiredVersion] at hspelled
  rw [← hspelled, isReady, hwet, if_neg Bool.false_ne_true]
  rcases hserves.verdict j.resource.desiredVersion with ⟨h, hsame⟩ | ⟨h, hother⟩
  · have hsame := hsame.resolve_left hnamed
    rw [h]
    refine ⟨iff_of_true rfl hsame, iff_of_false ?_ (not_not_intro hsame)⟩
    rintro ⟨⟩
  · have hother := fun hsame => hother (.inr hsame)
    rw [h]
    refine ⟨iff_of_false ?_ hother, iff_of_true rfl hother⟩
    rintro ⟨⟩

/-- The work on the module `web`, which asks for a version that is written with the letter. -/
def letteredJob : Job :=
  .start trialSetup { trialModule with spec := trialSpec "v0.1.0" 1 } (.fresh 1 .start)

/-- Helm has deployed the release `web` at a version, and it has no workloads. -/
def webAt (installed : String) (c : Call) : c.Answer :=
  (Contest.wellAnswered .module (some ⟨"web", "default", .deployed, installed⟩)
    (trialStore trialModule) c).1

theorem serves_webAt (installed : String) :
    letteredJob.release.Serves installed (webAt installed) := by
  have hlist : Manifest.workloads "" letteredJob.release.namespaceName = .ok [] := rfl
  obtain ⟨documents, hreads⟩ := Manifest.exists_workloads_iff.1 ⟨_, hlist⟩
  refine ⟨⟨_, rfl, rfl, rfl⟩, "", documents, rfl, hreads, fun w hw => ?_⟩
  exact absurd ((Manifest.mem_workloads_iff hlist hreads.1 w).2 hw) List.not_mem_nil

/-- The release is ready when Helm spells the version in the same way but for blanks. -/
theorem ready_iff_spelled_alike_web :
    Pass.resultWith (webAt " v0.1.0 ") (letteredJob.isReady trialSetup) = (true, .done) := by
  have hwet : trialSetup.dryRun = false := rfl
  have hequal : Version.compareTexts " v0.1.0 " letteredJob.resource.desiredVersion = .ok .eq := rfl
  have halike : Version.Lettered " v0.1.0 " ↔ Version.Lettered letteredJob.resource.desiredVersion :=
    iff_of_true ⟨_, rfl⟩ ⟨_, rfl⟩
  exact (Job.ready_iff_spelled_alike hwet hequal (serves_webAt _)).1.2 halike

/-- A chart has its version without the letter. The version is then equal to the one that the module
asks for, and the release is never ready. -/
theorem equal_version_never_ready :
    ¬ ∀ (setup : Setup) (j : Job) (installed : String) (answer : (c : Call) → c.Answer),
      setup.dryRun = false →
      Version.compareTexts installed j.resource.desiredVersion = .ok .eq →
      j.release.Serves installed answer →
      Pass.resultWith answer (j.isReady setup) = (true, .done) := by
  intro h
  have hready := h trialSetup letteredJob "0.1.0" (webAt "0.1.0") rfl rfl (serves_webAt _)
  have hnot : Pass.resultWith (webAt "0.1.0") (letteredJob.isReady trialSetup) = (false, .done) :=
    rfl
  rw [hnot] at hready
  cases hready

end ReleaseOperator
