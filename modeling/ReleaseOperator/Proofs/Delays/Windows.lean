import Mathlib.Order.MinMax
import ReleaseOperator.Proofs.Pinning.Course

/-!
# Delays that are drawn

A delay is drawn between two multiples of a unit. The unit is cut to whole milliseconds before it
is multiplied, and a whole number of milliseconds is drawn, so the delay lies between the multiples
of the cut unit. There is always something to draw, and as long as the multiples can be told in a
word of milliseconds no delay is longer than the larger of them. But the shortest delay is no
shorter than the smaller of them only when that is zero or the unit is whole.
-/

namespace ReleaseOperator

open Program

namespace Duration

/-- A duration without what is left over after its last whole millisecond. -/
def wholeMillis (d : Duration) : Duration := ofMillis (d / ofMillis 1)

variable {d : Duration} {k m n : Nat}

theorem wholeMillis_le (d : Duration) : d.wholeMillis ≤ d :=
  Nat.div_mul_le_self d (ofMillis 1)

theorem wholeMillis_eq_self_iff : d.wholeMillis = d ↔ ofMillis 1 ∣ d :=
  (Nat.dvd_iff_div_mul_eq d (ofMillis 1)).symm

theorem mul_ofMillis (k n : Nat) : k * ofMillis n = ofMillis (k * n) :=
  (Nat.mul_assoc k n 1000000).symm

theorem ofMillis_le_ofMillis : ofMillis m ≤ ofMillis n ↔ m ≤ n :=
  Nat.mul_le_mul_right_iff (by decide)

/-- Nothing is lost by cutting a unit when none of it is taken or it is whole. -/
theorem mul_le_mul_wholeMillis_iff : k * d ≤ k * d.wholeMillis ↔ k = 0 ∨ ofMillis 1 ∣ d := by
  rw [← wholeMillis_eq_self_iff]
  constructor
  · intro h
    refine (Nat.eq_zero_or_pos k).imp_right fun hk => ?_
    exact Nat.le_antisymm d.wholeMillis_le (Nat.le_of_mul_le_mul_left h hk)
  · rintro (rfl | hwhole)
    · rw [Nat.zero_mul, Nat.zero_mul]
    · rw [hwhole]

end Duration

namespace Outcome

variable {min max k : Nat} {unit : Duration}

/-- No word overflows where a multiple of the unit can be told in a word of milliseconds. -/
theorem ofMillis_bound (h : k * unit ≤ Duration.ofMillis maxWord) :
    Duration.ofMillis (Nat.min (k * Nat.min (unit / 1000000) maxWord) maxWord) =
      k * unit.wholeMillis := by
  have hwhole : k * (unit / 1000000) ≤ maxWord := by
    rw [← Duration.ofMillis_le_ofMillis, ← Duration.mul_ofMillis]
    exact Nat.le_trans (Nat.mul_le_mul_left k unit.wholeMillis_le) h
  have hcut : k * Nat.min (unit / 1000000) maxWord = k * (unit / 1000000) := by
    cases k with
    | zero => rw [Nat.zero_mul, Nat.zero_mul]
    | succ k =>
        have hunit : unit / 1000000 ≤ maxWord :=
          Nat.le_trans (Nat.le_mul_of_pos_left _ k.succ_pos) hwhole
        exact congrArg _ (Nat.min_eq_left hunit)
  rw [hcut]
  exact (congrArg Duration.ofMillis (Nat.min_eq_left hwhole)).trans
    (Duration.mul_ofMillis k _).symm

/-- The window reaches from the smaller to the larger multiple of the cut unit. -/
theorem ofMillis_window (hmin : min * unit ≤ Duration.ofMillis maxWord)
    (hmax : max * unit ≤ Duration.ofMillis maxWord) :
    Duration.ofMillis (window min max unit).1 = Nat.min min max * unit.wholeMillis ∧
      Duration.ofMillis (window min max unit).2 = Nat.max min max * unit.wholeMillis := by
  have htold : ∀ k, k = min ∨ k = max → k * unit ≤ Duration.ofMillis maxWord := by
    rintro k (rfl | rfl)
    · exact hmin
    · exact hmax
  exact ⟨ofMillis_bound (htold _ (min_choice min max)),
    ofMillis_bound (htold _ (max_choice min max))⟩

end Outcome

namespace Pass

variable {min max : Nat} {unit : Duration} {es : Story} {post : Outcome → Prop}

/-- Any number of the window may be drawn, and what is drawn is the time to come back after. -/
theorem always_delay_unruled :
    Always Conduct.unruled (delay min max unit) es (fun o _ => post o) ↔
      ∀ n, (Outcome.window min max unit).1 ≤ n → n ≤ (Outcome.window min max unit).2 →
        post (.after (Duration.ofMillis n)) := by
  rw [delay, always_map, always_drawDelay]
  constructor
  · intro h n hlow hhigh
    exact h ⟨n, hlow, hhigh⟩ _ rfl
  · intro h n _ _
    exact h n.1 n.2.1 n.2.2

/-- Between bounds in either order, whose multiples of the unit can be told in a word of
milliseconds, there is always something to draw, and no delay is longer than the larger multiple
or shorter than the smaller multiple of the cut unit. All delays lie between the multiples of the
unit itself exactly when a bound is zero or the unit is a whole number of milliseconds. -/
theorem delay_between_multiples_iff (hmin : min * unit ≤ Duration.ofMillis Outcome.maxWord)
    (hmax : max * unit ≤ Duration.ofMillis Outcome.maxWord) :
    (∃ n, (Outcome.window min max unit).1 ≤ n ∧ n ≤ (Outcome.window min max unit).2) ∧
      Always Conduct.unruled (delay min max unit) es (fun o _ =>
        Nat.min min max * unit.wholeMillis ≤ o.delay ∧ o.delay ≤ Nat.max min max * unit) ∧
      (Always Conduct.unruled (delay min max unit) es (fun o _ =>
        Nat.min min max * unit ≤ o.delay ∧ o.delay ≤ Nat.max min max * unit) ↔
          min = 0 ∨ max = 0 ∨ Duration.ofMillis 1 ∣ unit) := by
  obtain ⟨hlow, hhigh⟩ := Outcome.ofMillis_window hmin hmax
  have hdrawn : Always Conduct.unruled (delay min max unit) es (fun o _ =>
      Nat.min min max * unit.wholeMillis ≤ o.delay ∧ o.delay ≤ Nat.max min max * unit) := by
    refine always_delay_unruled.2 fun n hn hn' => ⟨?_, ?_⟩
    · rw [← hlow]
      exact Duration.ofMillis_le_ofMillis.2 hn
    · calc Duration.ofMillis n
        _ ≤ Duration.ofMillis (Outcome.window min max unit).2 := Duration.ofMillis_le_ofMillis.2 hn'
        _ = Nat.max min max * unit.wholeMillis := hhigh
        _ ≤ Nat.max min max * unit := Nat.mul_le_mul_left _ unit.wholeMillis_le
  have hzero : min = 0 ∨ max = 0 ∨ Duration.ofMillis 1 ∣ unit ↔
      Nat.min min max = 0 ∨ Duration.ofMillis 1 ∣ unit := by
    rw [← or_assoc, ← Nat.min_eq_zero_iff]
  rw [hzero, ← Duration.mul_le_mul_wholeMillis_iff]
  refine ⟨⟨_, Nat.le_refl _, Outcome.window_le min max unit⟩, hdrawn, ?_, fun hwhole => ?_⟩
  · intro h
    rw [← hlow]
    exact (always_delay_unruled.1 h _ (Nat.le_refl _) (Outcome.window_le min max unit)).1
  · exact hdrawn.mono fun _ _ ⟨hshort, hlong⟩ => ⟨Nat.le_trans hwhole hshort, hlong⟩

/-- Five and three times ten milliseconds. -/
theorem delay_between_multiples_iff_swapped :
    5 * Duration.ofMillis 10 ≤ Duration.ofMillis Outcome.maxWord ∧
      3 * Duration.ofMillis 10 ≤ Duration.ofMillis Outcome.maxWord ∧
      Duration.ofMillis 1 ∣ Duration.ofMillis 10 ∧
      Always Conduct.unruled (delay 5 3 (Duration.ofMillis 10)) [] fun o _ =>
        Duration.ofMillis 30 ≤ o.delay ∧ o.delay ≤ Duration.ofMillis 50 := by
  have hmin : 5 * Duration.ofMillis 10 ≤ Duration.ofMillis Outcome.maxWord := by decide
  have hmax : 3 * Duration.ofMillis 10 ≤ Duration.ofMillis Outcome.maxWord := by decide
  have hwhole : Duration.ofMillis 1 ∣ Duration.ofMillis 10 := by decide
  obtain ⟨-, -, hall⟩ := delay_between_multiples_iff hmin hmax
  exact ⟨hmin, hmax, hwhole, hall.2 (Or.inr (Or.inr hwhole))⟩

/-- Ten times one and a half milliseconds are fifteen, but ten are drawn. -/
theorem delay_shorter_than_multiples :
    ¬ ∀ (min max : Nat) (unit : Duration),
      min * unit ≤ Duration.ofMillis Outcome.maxWord →
      max * unit ≤ Duration.ofMillis Outcome.maxWord →
      Always Conduct.unruled (delay min max unit) [] fun o _ =>
        Nat.min min max * unit ≤ o.delay ∧ o.delay ≤ Nat.max min max * unit := by
  intro h
  have hall := h 10 10 1500000 (by decide) (by decide)
  have hten := (always_delay_unruled.1 hall 10 (by decide) (by decide)).1
  exact absurd hten (by decide)

end Pass

end ReleaseOperator
