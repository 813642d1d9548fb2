import Mathlib.Data.List.DropRight
import ReleaseOperator.Proofs.History

/-!
# Which conditions are kept

A condition leaves a history for two reasons: a later one on the same topic takes its place, or
five newer ones are there. Whether a new one is taken in, and what it replaces, is decided on what
is still there, so what has left must make no difference later. It makes none: a history is at all
times the end of the list of all that it ever took in, less what was replaced.
-/

namespace ReleaseOperator.Condition

/-- The history that observations leave when they are made one after the other, the first of them
on none. -/
def recorded (observed : List Condition) : List Condition :=
  observed.foldl append []

/-- Those of some observations that are taken in by a history. -/
def takenIn : List Condition → List Condition → List Condition
  | _, [] => []
  | cs, c :: rest => if repeats cs c then takenIn cs rest else c :: takenIn (append cs c) rest

/-- The observations that are taken in when the first of them is made on no history. -/
def accepted (observed : List Condition) : List Condition :=
  takenIn [] observed

/-- Those of some observations behind which there is none on the same topic. -/
def lastOfEach : List Condition → List Condition
  | [] => []
  | c :: rest => if rest.any (sameTopic c) then lastOfEach rest else c :: lastOfEach rest

/-- The newest of some conditions of a type. -/
def IsNewest (type : String) (cs : List Condition) (d : Condition) : Prop :=
  ∃ older newer, cs = older ++ d :: newer ∧ d.type = type ∧ ∀ e ∈ newer, e.type ≠ type

variable {c d : Condition} {cs observed : List Condition}

theorem sameTopic_iff : c.sameTopic d = true ↔ c.type = d.type ∧ c.reason = d.reason := by
  rw [sameTopic, Bool.and_eq_true, decide_eq_true_eq, decide_eq_true_eq]

theorem sameObservation_iff : d.sameObservation c = true ↔
    d.type = c.type ∧ d.reason = c.reason ∧ d.verdict = c.verdict ∧ d.message = c.message := by
  simp only [sameObservation, Bool.and_eq_true, decide_eq_true_eq, and_assoc]

/-! ### What is taken in -/

theorem newest?_eq_some_iff {type : String} : newest? type cs = some d ↔ IsNewest type cs d := by
  rw [newest?, List.find?_eq_some_iff_append, decide_eq_true_eq]
  constructor
  · rintro ⟨htype, newer, older, hsplit, hnewer⟩
    refine ⟨older.reverse, newer.reverse, ?_, htype, fun e he => ?_⟩
    · rw [← List.reverse_reverse cs, hsplit]
      simp
    · simpa using hnewer e (List.mem_reverse.1 he)
  · rintro ⟨older, newer, rfl, htype, hnewer⟩
    refine ⟨htype, newer.reverse, older.reverse, by simp, fun e he => ?_⟩
    simpa using hnewer e (List.mem_reverse.1 he)

/-- An observation is refused when the newest condition of its type says the same. -/
theorem repeats_iff : repeats cs c = true ↔
    ∃ d, IsNewest c.type cs d ∧ d.reason = c.reason ∧ d.verdict = c.verdict ∧
      d.message = c.message := by
  unfold repeats
  constructor
  · intro h
    split at h
    · rename_i d hd
      exact ⟨d, newest?_eq_some_iff.1 hd, (sameObservation_iff.1 h).2⟩
    · exact absurd h Bool.false_ne_true
  · rintro ⟨d, hd, hsame⟩
    have htype : d.type = c.type := by
      obtain ⟨_, _, _, htype, _⟩ := hd
      exact htype
    rw [newest?_eq_some_iff.2 hd]
    exact sameObservation_iff.2 ⟨htype, hsame⟩

theorem recorded_concat (observed : List Condition) (c : Condition) :
    recorded (observed ++ [c]) = append (recorded observed) c :=
  List.foldl_concat _ _ _ _

theorem takenIn_concat (cs observed : List Condition) (c : Condition) :
    takenIn cs (observed ++ [c]) =
      takenIn cs observed ++ if repeats (observed.foldl append cs) c then [] else [c] := by
  induction observed generalizing cs with
  | nil => rfl
  | cons d rest ih =>
      rw [List.cons_append, takenIn, takenIn, List.foldl_cons]
      cases hrep : repeats cs d with
      | true =>
          rw [append_of_repeats hrep]
          exact ih cs
      | false =>
          rw [if_neg Bool.false_ne_true, if_neg Bool.false_ne_true, ih, List.cons_append]

theorem accepted_concat_of_repeats (h : repeats (recorded observed) c = true) :
    accepted (observed ++ [c]) = accepted observed := by
  rw [accepted, takenIn_concat, ← recorded, if_pos h, List.append_nil]
  rfl

theorem accepted_concat_of_not_repeats (h : repeats (recorded observed) c = false) :
    accepted (observed ++ [c]) = accepted observed ++ [c] := by
  rw [accepted, takenIn_concat, ← recorded, h, if_neg Bool.false_ne_true]
  rfl

/-! ### The last of each topic -/

theorem lastOfEach_concat (cs : List Condition) (c : Condition) :
    lastOfEach (cs ++ [c]) = (lastOfEach cs).filter (fun d => !d.sameTopic c) ++ [c] := by
  induction cs with
  | nil => rfl
  | cons d rest ih =>
      have hany : (rest ++ [c]).any (sameTopic d) = (rest.any (sameTopic d) || d.sameTopic c) := by
        simp
      rw [List.cons_append, lastOfEach, lastOfEach, hany, ih]
      cases hrest : rest.any (sameTopic d) with
      | true => simp
      | false => cases htopic : d.sameTopic c <;> simp [htopic]

theorem lastOfEach_sublist (cs : List Condition) : (lastOfEach cs).Sublist cs := by
  induction cs with
  | nil => exact List.Sublist.refl _
  | cons c rest ih =>
      rw [lastOfEach]
      split
      · exact ih.cons c
      · exact ih.cons_cons c

theorem pairwise_lastOfEach (cs : List Condition) :
    (lastOfEach cs).Pairwise fun c d => c.sameTopic d = false := by
  induction cs with
  | nil => exact List.Pairwise.nil
  | cons c rest ih =>
      rw [lastOfEach]
      split
      · exact ih
      · rename_i hnone
        rw [Bool.not_eq_true, List.any_eq_false] at hnone
        refine List.pairwise_cons.2 ⟨fun d hd => ?_, ih⟩
        exact Bool.not_eq_true _ ▸ hnone d ((lastOfEach_sublist rest).subset hd)

/-- Of conditions on different topics an observation replaces one at most. -/
theorem length_le_length_filter (h : cs.Pairwise fun c d => c.sameTopic d = false)
    (c : Condition) : cs.length ≤ (cs.filter fun d => !d.sameTopic c).length + 1 := by
  induction cs with
  | nil => exact Nat.zero_le _
  | cons d rest ih =>
      obtain ⟨hd, hrest⟩ := List.pairwise_cons.1 h
      cases htopic : d.sameTopic c with
      | false =>
          rw [List.filter_cons_of_pos (by simp [htopic]), List.length_cons, List.length_cons]
          exact Nat.succ_le_succ (ih hrest)
      | true =>
          -- The one replaced is `d`, so all others stay.
          have hstay : ∀ e ∈ rest, (!e.sameTopic c) = true := by
            intro e he
            rw [Bool.not_eq_true', Bool.eq_false_iff]
            intro hec
            have hde : d.sameTopic e = true := by
              obtain ⟨htype, hreason⟩ := sameTopic_iff.1 htopic
              obtain ⟨htype', hreason'⟩ := sameTopic_iff.1 hec
              exact sameTopic_iff.2 ⟨htype.trans htype'.symm, hreason.trans hreason'.symm⟩
            exact absurd ((hd e he).symm.trans hde) (by decide)
          rw [List.filter_cons_of_neg (by simp [htopic]), List.filter_eq_self.2 hstay,
            List.length_cons]

/-! ### The end of the list -/

theorem trim_append_of_le {newer : List Condition} (h : limit ≤ newer.length)
    (older : List Condition) : trim (older ++ newer) = trim newer := by
  have hlength : (older ++ newer).length - limit = older.length + (newer.length - limit) := by
    rw [List.length_append]
    omega
  rw [trim, trim, hlength, List.drop_length_add_append]

/-- What was trimmed away makes no difference to what is trimmed later: all of it was older than
as many conditions as are kept, and an observation replaces only one of these. -/
theorem trim_filter_trim (h : cs.Pairwise fun c d => c.sameTopic d = false) (c : Condition) :
    trim ((trim cs).filter (fun d => !d.sameTopic c) ++ [c]) =
      trim (cs.filter (fun d => !d.sameTopic c) ++ [c]) := by
  by_cases hshort : cs.length ≤ limit
  · rw [show trim cs = cs by rw [trim, Nat.sub_eq_zero_of_le hshort, List.drop_zero]]
  · have hfull : (trim cs).length = limit := by
      rw [trim, List.length_drop]
      omega
    have hlong : limit ≤ ((trim cs).filter (fun d => !d.sameTopic c) ++ [c]).length := by
      have hpairwise : (trim cs).Pairwise fun c d => c.sameTopic d = false :=
        h.sublist (List.drop_sublist _ _)
      rw [List.length_append, List.length_singleton, ← hfull]
      exact length_le_length_filter hpairwise c
    have hsplit : cs.filter (fun d => !d.sameTopic c) =
        (cs.take (cs.length - limit)).filter (fun d => !d.sameTopic c) ++
          (trim cs).filter (fun d => !d.sameTopic c) := by
      rw [trim, ← List.filter_append, List.take_append_drop]
    rw [hsplit, List.append_assoc, trim_append_of_le hlong]

/-- A history is the end of all that it took in, less what was replaced. -/
theorem recorded_eq_trim (observed : List Condition) :
    recorded observed = trim (lastOfEach (accepted observed)) := by
  induction observed using List.reverseRecOn with
  | nil => rfl
  | append_singleton observed c ih =>
      rw [recorded_concat]
      cases hrep : repeats (recorded observed) c with
      | true => rw [append_of_repeats hrep, accepted_concat_of_repeats hrep, ih]
      | false =>
          rw [append_of_not_repeats hrep, accepted_concat_of_not_repeats hrep, lastOfEach_concat,
            ih, trim_filter_trim (pairwise_lastOfEach _)]

theorem getLast?_trim (cs : List Condition) : (trim cs).getLast? = cs.getLast? := by
  rw [trim, List.getLast?_drop]
  split
  · rename_i hle
    have hnil : cs.length = 0 := by
      unfold limit at hle
      omega
    rw [List.length_eq_zero_iff.1 hnil, List.getLast?_nil]
  · rfl

theorem getLast?_lastOfEach (cs : List Condition) : (lastOfEach cs).getLast? = cs.getLast? := by
  induction cs using List.reverseRecOn with
  | nil => rfl
  | append_singleton cs c _ => rw [lastOfEach_concat, List.getLast?_concat, List.getLast?_concat]

theorem getLast?_append_of_not_repeats (h : repeats cs c = false) :
    (append cs c).getLast? = some c := by
  rw [append_of_not_repeats h, getLast?_trim, List.getLast?_concat]

/-- An observation is refused exactly when the newest condition of its type that is still kept says
the same, and then the history stays as it is, times included. After any observations the history
consists of the last five of those that were not refused, of which each is left out that another
one on its topic follows. -/
theorem history_of_accepted (observed : List Condition) :
    (∀ c, repeats (recorded observed) c = true ↔
      ∃ d, IsNewest c.type (recorded observed) d ∧ d.reason = c.reason ∧ d.verdict = c.verdict ∧
        d.message = c.message) ∧
    (∀ c, repeats (recorded observed) c = true →
      recorded (observed ++ [c]) = recorded observed ∧
        accepted (observed ++ [c]) = accepted observed) ∧
    (∀ c, repeats (recorded observed) c = false →
      (recorded (observed ++ [c])).getLast? = some c ∧
        accepted (observed ++ [c]) = accepted observed ++ [c]) ∧
    recorded observed = (lastOfEach (accepted observed)).rtake 5 ∧
    (recorded observed).length ≤ 5 ∧
    ((recorded observed).Pairwise fun c d => ¬ (c.type = d.type ∧ c.reason = d.reason)) ∧
    (recorded observed).getLast? = (accepted observed).getLast? := by
  have heq := recorded_eq_trim observed
  refine ⟨fun c => repeats_iff, fun c h => ⟨?_, accepted_concat_of_repeats h⟩,
    fun c h => ⟨?_, accepted_concat_of_not_repeats h⟩, heq, ?_, ?_, ?_⟩
  · rw [recorded_concat, append_of_repeats h]
  · rw [recorded_concat, getLast?_append_of_not_repeats h]
  · rw [heq]
    exact length_trim_le _
  · rw [heq]
    refine ((pairwise_lastOfEach _).sublist (List.drop_sublist _ _)).imp fun hother hsame => ?_
    rw [sameTopic_iff.2 hsame] at hother
    exact Bool.false_ne_true hother.symm
  · rw [heq, getLast?_trim, getLast?_lastOfEach]

end ReleaseOperator.Condition
