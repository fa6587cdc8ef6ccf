import Mathlib.Tactic
import ConfigNotation.Number.Shortest

/-!
Rounding to a magnitude. Every rational number of units inside the rounding
interval of a magnitude is rounded to that magnitude, from whichever numerator
and denominator it is given. The interval reaches less far down below a power of
two, where the magnitudes below lie closer together.
-/

namespace ConfigNotation.Magnitude

/-- The quotient is rounded to a given integer if it lies no further than one
half from it, and closer than that if the integer is odd. -/
theorem roundQuotient_eq {numerator denominator result : Nat}
    (hpositive : 0 < denominator)
    (hlow : 2 * (result * denominator) ≤ 2 * numerator + denominator)
    (hhigh : 2 * numerator ≤ 2 * (result * denominator) + denominator)
    (hstrict : result % 2 = 1 →
      2 * (result * denominator) < 2 * numerator + denominator ∧
        2 * numerator < 2 * (result * denominator) + denominator) :
    roundQuotient numerator denominator = result := by
  have hdivision : denominator * (numerator / denominator) + numerator % denominator = numerator :=
    Nat.div_add_mod numerator denominator
  have hrest : numerator % denominator < denominator := Nat.mod_lt numerator hpositive
  unfold roundQuotient
  generalize numerator / denominator = whole at hdivision ⊢
  generalize numerator % denominator = rest at hdivision hrest ⊢
  have hcases : result = whole ∨ result = whole + 1 := by
    have hupper : result < whole + 2 := by
      by_contra hlarge
      have hproduct : (whole + 2) * denominator ≤ result * denominator :=
        Nat.mul_le_mul_right denominator (by omega)
      nlinarith
    have hlower : whole < result + 1 := by
      by_contra hsmall
      have hproduct : (result + 1) * denominator ≤ whole * denominator :=
        Nat.mul_le_mul_right denominator (by omega)
      nlinarith
    omega
  rcases hcases with rfl | rfl
  · have hproduct : result * denominator = denominator * result := Nat.mul_comm _ _
    have hnear : 2 * rest < denominator ∨ 2 * rest = denominator ∧ result % 2 = 0 := by omega
    simp only [Bool.or_eq_true, decide_eq_true_eq, Bool.and_eq_true, beq_iff_eq, hnear, if_true]
  · have hproduct : (whole + 1) * denominator = denominator * whole + denominator := by ring
    have hfar : ¬(2 * rest < denominator ∨ 2 * rest = denominator ∧ whole % 2 = 0) := by omega
    simp only [Bool.or_eq_true, decide_eq_true_eq, Bool.and_eq_true, beq_iff_eq, hfar, if_false]

/-- Whether a rational number of units lies in the rounding interval of a
magnitude. -/
def InInterval (magnitude : Magnitude) (units : ℚ) : Prop :=
  if magnitude.significand % 2 = 0 then
    magnitude.roundingInterval.1 ≤ 4 * units ∧ 4 * units ≤ magnitude.roundingInterval.2
  else magnitude.roundingInterval.1 < 4 * units ∧ 4 * units < magnitude.roundingInterval.2

structure Bounds (magnitude : Magnitude) (wanted denominator : Nat) : Prop where
  low : magnitude.roundingInterval.1 * denominator ≤ 4 * wanted
  high : 4 * wanted ≤ magnitude.roundingInterval.2 * denominator
  strict : magnitude.significand % 2 = 1 →
    magnitude.roundingInterval.1 * denominator < 4 * wanted ∧
      4 * wanted < magnitude.roundingInterval.2 * denominator

theorem bounds_of_inInterval {magnitude : Magnitude} {wanted denominator : Nat}
    (hpositive : 0 < denominator)
    (hinside : magnitude.InInterval ((wanted : ℚ) / denominator)) :
    magnitude.Bounds wanted denominator := by
  have hdenominator : (0 : ℚ) < denominator := by exact_mod_cast hpositive
  have hquotient : 4 * ((wanted : ℚ) / denominator) = (4 * wanted : Nat) / denominator := by
    push_cast
    ring
  unfold InInterval at hinside
  rw [hquotient] at hinside
  simp only [le_div_iff₀ hdenominator, div_le_iff₀ hdenominator, lt_div_iff₀ hdenominator,
    div_lt_iff₀ hdenominator] at hinside
  norm_cast at hinside
  split at hinside
  · next heven => exact ⟨hinside.1, hinside.2, fun hodd => absurd hodd (by omega)⟩
  · exact ⟨hinside.1.le, hinside.2.le, fun _ => hinside⟩

/-- The step between the magnitudes at a scale is even finer below a power of
two. -/
theorem roundingInterval_low (magnitude : Magnitude) :
    magnitude.roundingInterval.1 =
      4 * (magnitude.significand * 2 ^ magnitude.scale) -
        (if magnitude.significand = 2 ^ 52 ∧ magnitude.scale ≠ 0 then 2 ^ magnitude.scale
          else 2 * 2 ^ magnitude.scale) := by
  simp [roundingInterval, units]

theorem roundingInterval_high (magnitude : Magnitude) :
    magnitude.roundingInterval.2 =
      4 * (magnitude.significand * 2 ^ magnitude.scale) + 2 * 2 ^ magnitude.scale := by
  simp [roundingInterval, units]

theorem step_pos (magnitude : Magnitude) : 0 < 2 ^ magnitude.scale := Nat.two_pow_pos _

/-- A quotient inside the interval is not below the middle between the magnitude
and the next smaller one of the same scale. -/
theorem Bounds.middle_le {magnitude : Magnitude} {wanted denominator : Nat}
    (bounds : magnitude.Bounds wanted denominator) :
    2 * (magnitude.significand * (denominator * 2 ^ magnitude.scale)) ≤
      2 * wanted + denominator * 2 ^ magnitude.scale := by
  have hlow := bounds.low
  rw [roundingInterval_low] at hlow
  have hstep := step_pos magnitude
  have hreach : (if magnitude.significand = 2 ^ 52 ∧ magnitude.scale ≠ 0 then 2 ^ magnitude.scale
      else 2 * 2 ^ magnitude.scale) ≤ 2 * 2 ^ magnitude.scale := by
    split <;> omega
  have hmiddle : 4 * (magnitude.significand * 2 ^ magnitude.scale) * denominator ≤
      4 * wanted + 2 * 2 ^ magnitude.scale * denominator := by
    calc 4 * (magnitude.significand * 2 ^ magnitude.scale) * denominator
        ≤ (4 * (magnitude.significand * 2 ^ magnitude.scale) -
            (if magnitude.significand = 2 ^ 52 ∧ magnitude.scale ≠ 0 then 2 ^ magnitude.scale
              else 2 * 2 ^ magnitude.scale) + 2 * 2 ^ magnitude.scale) * denominator :=
          Nat.mul_le_mul_right _ (by omega)
      _ ≤ 4 * wanted + 2 * 2 ^ magnitude.scale * denominator := by
          rw [Nat.add_mul]
          omega
  nlinarith

theorem Bounds.le_middle {magnitude : Magnitude} {wanted denominator : Nat}
    (bounds : magnitude.Bounds wanted denominator) :
    2 * wanted ≤ 2 * (magnitude.significand * (denominator * 2 ^ magnitude.scale)) +
      denominator * 2 ^ magnitude.scale := by
  have hhigh := bounds.high
  rw [roundingInterval_high] at hhigh
  nlinarith

/-- An odd significand is not the first one of its scale, so that its interval
reaches as far down as up. -/
theorem Bounds.between_middles {magnitude : Magnitude} {wanted denominator : Nat}
    (bounds : magnitude.Bounds wanted denominator)
    (hodd : magnitude.significand % 2 = 1) :
    2 * (magnitude.significand * (denominator * 2 ^ magnitude.scale)) <
        2 * wanted + denominator * 2 ^ magnitude.scale ∧
      2 * wanted < 2 * (magnitude.significand * (denominator * 2 ^ magnitude.scale)) +
        denominator * 2 ^ magnitude.scale := by
  obtain ⟨hlow, hhigh⟩ := bounds.strict hodd
  rw [roundingInterval_high] at hhigh
  rw [roundingInterval_low, if_neg (by omega)] at hlow
  have hwhole : 2 * 2 ^ magnitude.scale ≤ 4 * (magnitude.significand * 2 ^ magnitude.scale) := by
    have hone : 1 * 2 ^ magnitude.scale ≤ magnitude.significand * 2 ^ magnitude.scale :=
      Nat.mul_le_mul_right _ (by omega)
    omega
  constructor
  · zify [hwhole] at hlow ⊢
    nlinarith
  · nlinarith

/-- Inside the interval a quotient keeps below the first magnitude of the next
scale. -/
theorem Bounds.lt_next_scale {magnitude : Magnitude} {wanted denominator : Nat}
    (bounds : magnitude.Bounds wanted denominator) (hpositive : 0 < denominator) :
    wanted < 2 ^ (53 + magnitude.scale) * denominator := by
  have hsignificand : magnitude.significand < 2 ^ 53 := magnitude.canonical.1
  have hunit : 0 < denominator * 2 ^ magnitude.scale := Nat.mul_pos hpositive (step_pos magnitude)
  have hgoal : 2 ^ (53 + magnitude.scale) * denominator =
      2 ^ 53 * (denominator * 2 ^ magnitude.scale) := by ring
  rw [hgoal]
  rcases Nat.mod_two_eq_zero_or_one magnitude.significand with heven | hodd
  · have hmiddle := bounds.le_middle
    have hproduct : magnitude.significand * (denominator * 2 ^ magnitude.scale) ≤
        (2 ^ 53 - 2) * (denominator * 2 ^ magnitude.scale) :=
      Nat.mul_le_mul_right _ (by omega)
    omega
  · have hmiddle := (bounds.between_middles hodd).2
    have hproduct : magnitude.significand * (denominator * 2 ^ magnitude.scale) ≤
        (2 ^ 53 - 1) * (denominator * 2 ^ magnitude.scale) :=
      Nat.mul_le_mul_right _ (by omega)
    omega

/-- The scale that a quotient is rounded at. -/
theorem log2_quotient {wanted denominator scale : Nat} (hpositive : 0 < denominator)
    (hlow : scale = 0 ∨ 2 ^ (52 + scale) * denominator ≤ wanted)
    (hhigh : wanted < 2 ^ (53 + scale) * denominator) :
    (wanted / denominator).log2 - 52 = scale := by
  have hbelow : wanted / denominator < 2 ^ (53 + scale) :=
    (Nat.div_lt_iff_lt_mul hpositive).2 hhigh
  by_cases hzero : wanted / denominator = 0
  · rcases hlow with rfl | hlow
    · simp [hzero]
    · have hquotient := (Nat.le_div_iff_mul_le hpositive).2 hlow
      have hstep := Nat.two_pow_pos (52 + scale)
      omega
  · have hupper : (wanted / denominator).log2 < 53 + scale := (Nat.log2_lt hzero).2 hbelow
    rcases hlow with rfl | hlow
    · omega
    · have hlower : 52 + scale ≤ (wanted / denominator).log2 :=
        (Nat.le_log2 hzero).2 ((Nat.le_div_iff_mul_le hpositive).2 hlow)
      omega

theorem ofRounded?_self (magnitude : Magnitude) :
    ofRounded? magnitude.significand magnitude.scale = some magnitude := by
  simp [ofRounded?, magnitude.canonical]

/-- A significand that was rounded up to the next power of two moves to the next
scale. -/
theorem ofRounded?_carry (magnitude : Magnitude) {scale : Nat}
    (hsignificand : magnitude.significand = 2 ^ 52) (hscale : magnitude.scale = scale + 1) :
    ofRounded? (2 ^ 53) scale = some magnitude := by
  obtain ⟨significand, _, hcanonical⟩ := magnitude
  simp only at hsignificand hscale
  subst hsignificand hscale
  have hlarge : ¬IsCanonical (2 ^ 53) scale := fun hfits => absurd hfits.1 (by decide)
  have hhalf : 2 ^ 53 / 2 = 2 ^ 52 := by decide
  simp only [ofRounded?, hlarge, dite_false, hhalf, hcanonical, dite_true]

/-- Only the least significand has an interval that reaches below a power of
two. -/
theorem Bounds.significand_eq {magnitude : Magnitude} {wanted denominator : Nat}
    (bounds : magnitude.Bounds wanted denominator) (hscale : magnitude.scale ≠ 0)
    (hbelow : wanted < 2 ^ (52 + magnitude.scale) * denominator) :
    magnitude.significand = 2 ^ 52 := by
  have hleast : 2 ^ 52 ≤ magnitude.significand := magnitude.canonical.2.2.resolve_left hscale
  have hsplit : 2 ^ (52 + magnitude.scale) * denominator =
      2 ^ 52 * (denominator * 2 ^ magnitude.scale) := by ring
  have hmiddle := bounds.middle_le
  by_contra hother
  have hproduct : (2 ^ 52 + 1) * (denominator * 2 ^ magnitude.scale) ≤
      magnitude.significand * (denominator * 2 ^ magnitude.scale) :=
    Nat.mul_le_mul_right _ (by omega)
  omega

/-- The interval of a power of two ends a quarter of a step below it. -/
theorem Bounds.quarter_le {magnitude : Magnitude} {wanted denominator scale : Nat}
    (bounds : magnitude.Bounds wanted denominator) (hfirst : magnitude.significand = 2 ^ 52)
    (hscale : magnitude.scale = scale + 1) :
    (2 ^ 55 - 2) * (denominator * 2 ^ scale) ≤ 4 * wanted := by
  have hlow := bounds.low
  have hpower : 2 ^ magnitude.scale = 2 * 2 ^ scale := by rw [hscale, Nat.pow_succ]; ring
  rw [roundingInterval_low, if_pos ⟨hfirst, by omega⟩, hfirst, hpower] at hlow
  have hfactor : 4 * (2 ^ 52 * (2 * 2 ^ scale)) - 2 * 2 ^ scale =
      (2 ^ 55 - 2) * 2 ^ scale := by omega
  rw [hfactor] at hlow
  calc (2 ^ 55 - 2) * (denominator * 2 ^ scale)
      = (2 ^ 55 - 2) * 2 ^ scale * denominator := by ring
    _ ≤ 4 * wanted := hlow

/-- A quotient inside the rounding interval of a magnitude is rounded to it. -/
theorem ofQuotient?_eq_of_bounds {magnitude : Magnitude} {numerator denominator : Nat}
    (hpositive : 0 < denominator)
    (bounds : magnitude.Bounds (numerator * unitsPerOne) denominator) :
    ofQuotient? numerator denominator = some magnitude := by
  have hnext := bounds.lt_next_scale hpositive
  simp only [ofQuotient?, Nat.pow_eq]
  generalize numerator * unitsPerOne = wanted at bounds hnext ⊢
  by_cases hlow : magnitude.scale = 0 ∨ 2 ^ (52 + magnitude.scale) * denominator ≤ wanted
  · rw [log2_quotient hpositive hlow hnext,
      roundQuotient_eq (Nat.mul_pos hpositive (step_pos magnitude)) bounds.middle_le
        bounds.le_middle bounds.between_middles]
    exact ofRounded?_self magnitude
  · -- Only below a power of two does the interval reach into the scale before.
    rw [not_or, Nat.not_le] at hlow
    obtain ⟨hscale, hbelow⟩ := hlow
    have hfirst := bounds.significand_eq hscale hbelow
    obtain ⟨scale, hsucc⟩ := Nat.exists_eq_succ_of_ne_zero hscale
    have hunit : 0 < denominator * 2 ^ scale := Nat.mul_pos hpositive (Nat.two_pow_pos scale)
    have hquarter := bounds.quarter_le hfirst hsucc
    have hunder : wanted < 2 ^ 53 * (denominator * 2 ^ scale) := by
      calc wanted
          < 2 ^ (52 + magnitude.scale) * denominator := hbelow
        _ = 2 ^ 53 * (denominator * 2 ^ scale) := by rw [hsucc, Nat.succ_eq_add_one]; ring
    have hhalfway : 2 ^ (52 + scale) * denominator ≤ wanted := by
      have hsplit : 2 ^ (52 + scale) * denominator = 2 ^ 52 * (denominator * 2 ^ scale) := by ring
      omega
    have hupper : wanted < 2 ^ (53 + scale) * denominator := by
      have hsplit : 2 ^ (53 + scale) * denominator = 2 ^ 53 * (denominator * 2 ^ scale) := by ring
      omega
    have hrounded : roundQuotient wanted (denominator * 2 ^ scale) = 2 ^ 53 :=
      roundQuotient_eq hunit (by omega) (by omega) (fun hodd => absurd hodd (by decide))
    rw [log2_quotient hpositive (.inr hhalfway) hupper, hrounded]
    exact ofRounded?_carry magnitude hfirst hsucc

/-- A quotient whose number of units lies in the rounding interval of a
magnitude is rounded to it. -/
theorem ofQuotient?_eq_of_inInterval {magnitude : Magnitude} {numerator denominator : Nat}
    (hpositive : 0 < denominator)
    (hinside : magnitude.InInterval ((numerator * unitsPerOne : Nat) / denominator)) :
    ofQuotient? numerator denominator = some magnitude :=
  ofQuotient?_eq_of_bounds hpositive (bounds_of_inInterval hpositive hinside)

end ConfigNotation.Magnitude
