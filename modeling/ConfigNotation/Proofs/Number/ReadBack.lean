import ConfigNotation.Proofs.Number.Rounding

/-!
Reading a decimal back. Every decimal whose value lies in the rounding interval
of a magnitude is read as that magnitude, however its digits are split between
digits and exponent, and the shortest decimal of a magnitude is one of them.
-/

namespace ConfigNotation

/-- The rational number that a decimal stands for. -/
def Decimal.value (decimal : Decimal) : ℚ := decimal.digits * (10 : ℚ) ^ decimal.exponent

theorem digitCount_pos (n : Nat) : 0 < digitCount n := Nat.length_toDigits_pos

theorem lt_pow_digitCount (n : Nat) : n < 10 ^ digitCount n :=
  (Nat.length_toDigits_le_iff (by decide) (digitCount_pos n)).1 (Nat.le_refl _)

theorem lt_digitCount {n count : Nat} (h : 10 ^ count ≤ n) : count < digitCount n := by
  rcases Nat.eq_zero_or_pos count with rfl | hpositive
  · exact digitCount_pos n
  · by_contra hshort
    have hbelow := (Nat.length_toDigits_le_iff (by decide) hpositive).1 (not_lt.1 hshort)
    omega

theorem pow_digitCount_le {n : Nat} (h : n ≠ 0) : 10 ^ (digitCount n - 1) ≤ n := by
  rcases Nat.lt_or_ge 1 (digitCount n) with hlong | hshort
  · by_contra hbelow
    have hcount := (Nat.length_toDigits_le_iff (by decide) (by omega)).2 (not_le.1 hbelow)
    unfold digitCount at hcount hlong
    omega
  · have hcount : digitCount n - 1 = 0 := by omega
    rw [hcount]
    omega

namespace Decimal

/-- A decimal lies below the power of ten that its digits and its exponent
give. -/
theorem value_lt_pow_pointPlace (decimal : Decimal) :
    decimal.value < (10 : ℚ) ^ ((digitCount decimal.digits : Int) + decimal.exponent) := by
  have hdigits : (decimal.digits : ℚ) < (10 : ℚ) ^ digitCount decimal.digits := by
    exact_mod_cast lt_pow_digitCount decimal.digits
  rw [value, zpow_add₀ (by norm_num), zpow_natCast]
  exact mul_lt_mul_of_pos_right hdigits (by positivity)

/-- A decimal that is not zero reaches the power of ten below that. The two
bounds fix the place of its point. -/
theorem pow_pointPlace_le_value {decimal : Decimal} (h : decimal.digits ≠ 0) :
    (10 : ℚ) ^ ((digitCount decimal.digits : Int) + decimal.exponent - 1) ≤ decimal.value := by
  have hdigits : (10 : ℚ) ^ (digitCount decimal.digits - 1) ≤ (decimal.digits : ℚ) := by
    exact_mod_cast pow_digitCount_le h
  have hcount := digitCount_pos decimal.digits
  have hsplit : (digitCount decimal.digits : Int) + decimal.exponent - 1 =
      ((digitCount decimal.digits - 1 : Nat) : Int) + decimal.exponent := by omega
  rw [hsplit, value, zpow_add₀ (by norm_num), zpow_natCast]
  exact mul_le_mul_of_nonneg_right hdigits (by positivity)

end Decimal

namespace Magnitude

theorem unitsPerOne_pos : 0 < unitsPerOne := by decide +kernel

/-- Half of the smallest magnitude is still no less than `10 ^ -decimalShift`. -/
theorem two_mul_unitsPerOne_le : 2 * unitsPerOne ≤ 10 ^ decimalShift := by decide +kernel

def largestScale : Nat := 2045

/-- All finite magnitudes lie below `10 ^ decimalShift`. -/
theorem limit_le_unitsPerOne :
    2 ^ 53 * 2 ^ largestScale ≤ 10 ^ decimalShift * unitsPerOne := by decide +kernel

theorem step_le (magnitude : Magnitude) : 2 ^ magnitude.scale ≤ 2 ^ largestScale :=
  Nat.pow_le_pow_right (by decide) magnitude.canonical.2.1

/-- Scaled by `10 ^ decimalShift` the smallest magnitude has more than seventeen
digits. -/
theorem pow_mul_unitsPerOne_le : 10 ^ 16 * unitsPerOne ≤ 10 ^ decimalShift := by decide +kernel

theorem one_le_units {magnitude : Magnitude} (h : magnitude.isZero = false) :
    1 ≤ magnitude.significand * 2 ^ magnitude.scale := by
  have hsignificand : magnitude.significand ≠ 0 := by simpa [isZero] using h
  exact Nat.mul_pos (Nat.pos_of_ne_zero hsignificand) (step_pos magnitude)

theorem InInterval.low_le {magnitude : Magnitude} {units : ℚ} (h : magnitude.InInterval units) :
    magnitude.roundingInterval.1 ≤ 4 * units := by
  unfold InInterval at h
  split at h
  · exact h.1
  · exact h.1.le

theorem InInterval.le_high {magnitude : Magnitude} {units : ℚ} (h : magnitude.InInterval units) :
    4 * units ≤ magnitude.roundingInterval.2 := by
  unfold InInterval at h
  split at h
  · exact h.2
  · exact h.2.le

/-- Nothing below half a unit rounds to a magnitude other than zero. -/
theorem InInterval.half_le {magnitude : Magnitude} {units : ℚ}
    (hinside : magnitude.InInterval units) (hzero : magnitude.isZero = false) :
    1 ≤ 2 * units := by
  have hone := one_le_units hzero
  have hstep := step_pos magnitude
  have hwhole : 2 ^ magnitude.scale ≤ magnitude.significand * 2 ^ magnitude.scale :=
    Nat.le_mul_of_pos_left _ (Nat.pos_of_mul_pos_right hone)
  have hinterval : 2 ≤ magnitude.roundingInterval.1 := by
    rw [roundingInterval_low]
    split <;> omega
  have hlow : (2 : ℚ) ≤ magnitude.roundingInterval.1 := by exact_mod_cast hinterval
  have hunits := hinside.low_le
  linarith

/-- What rounds to a finite magnitude is below a power of ten that all of them
stay below, so that the exponents of decimals are bounded. -/
theorem InInterval.lt_shift {magnitude : Magnitude} {units : ℚ}
    (hinside : magnitude.InInterval units) :
    units < (10 ^ decimalShift * unitsPerOne : Nat) := by
  have hlimit : 2 ^ 53 * 2 ^ magnitude.scale ≤ 10 ^ decimalShift * unitsPerOne :=
    (Nat.mul_le_mul_left _ (step_le magnitude)).trans limit_le_unitsPerOne
  have hsignificand : magnitude.significand ≤ 2 ^ 53 - 1 :=
    Nat.le_sub_one_of_lt magnitude.canonical.1
  have hproduct : magnitude.significand * 2 ^ magnitude.scale ≤
      (2 ^ 53 - 1) * 2 ^ magnitude.scale :=
    Nat.mul_le_mul_right _ hsignificand
  have hinterval : magnitude.roundingInterval.2 < 4 * (10 ^ decimalShift * unitsPerOne) := by
    rw [roundingInterval_high]
    have hpositive := step_pos magnitude
    omega
  generalize 10 ^ decimalShift * unitsPerOne = limit at hinterval ⊢
  have hhigh : (magnitude.roundingInterval.2 : ℚ) < 4 * limit := by exact_mod_cast hinterval
  have hunits := hinside.le_high
  linarith

theorem InInterval.digits_ne_zero {magnitude : Magnitude} {decimal : Decimal}
    (hzero : magnitude.isZero = false)
    (hinside : magnitude.InInterval (decimal.value * unitsPerOne)) :
    decimal.digits ≠ 0 := by
  have hhalf := hinside.half_le hzero
  intro hnone
  rw [Decimal.value, hnone, Nat.cast_zero, zero_mul, zero_mul, mul_zero] at hhalf
  exact absurd hhalf (by norm_num)

/-- A decimal in the interval of a magnitude other than zero has its point in
the range that is read. -/
theorem InInterval.neg_shift_le {magnitude : Magnitude} {decimal : Decimal}
    (hzero : magnitude.isZero = false)
    (hinside : magnitude.InInterval (decimal.value * unitsPerOne)) :
    -(decimalShift : Int) ≤ digitCount decimal.digits + decimal.exponent := by
  have hunits : (0 : ℚ) < unitsPerOne := by exact_mod_cast unitsPerOne_pos
  have hhalf := hinside.half_le hzero
  by_contra hplace
  rw [not_le] at hplace
  have hvalue : decimal.value < (10 : ℚ) ^ (-(decimalShift : Int)) :=
    decimal.value_lt_pow_pointPlace.trans_le (zpow_le_zpow_right₀ (by norm_num) hplace.le)
  have hshift : (2 : ℚ) * unitsPerOne ≤ 10 ^ decimalShift := by
    exact_mod_cast two_mul_unitsPerOne_le
  rw [zpow_neg, zpow_natCast, lt_inv_comm₀ (by nlinarith) (by positivity)] at hvalue
  have hinverse : decimal.value⁻¹ ≤ 2 * unitsPerOne := by
    rw [inv_le_iff_one_le_mul₀ (by nlinarith)]
    linarith
  linarith

theorem InInterval.le_shift {magnitude : Magnitude} {decimal : Decimal}
    (hdigits : decimal.digits ≠ 0)
    (hinside : magnitude.InInterval (decimal.value * unitsPerOne)) :
    (digitCount decimal.digits : Int) + decimal.exponent ≤ decimalShift := by
  have hunits : (0 : ℚ) < unitsPerOne := by exact_mod_cast unitsPerOne_pos
  by_contra hplace
  have hvalue : (10 : ℚ) ^ (decimalShift : Int) ≤ decimal.value :=
    (zpow_le_zpow_right₀ (by norm_num) (by omega)).trans
      (Decimal.pow_pointPlace_le_value hdigits)
  rw [zpow_natCast] at hvalue
  have hproduct : (10 : ℚ) ^ decimalShift * unitsPerOne ≤ decimal.value * unitsPerOne :=
    mul_le_mul_of_nonneg_right hvalue hunits.le
  have hlimit := hinside.lt_shift
  push_cast at hlimit
  linarith

/-- A magnitude that is not zero is read from every decimal in its rounding
interval. -/
theorem ofDecimal?_eq_of_inInterval {magnitude : Magnitude} {decimal : Decimal}
    (hzero : magnitude.isZero = false)
    (hinside : magnitude.InInterval (decimal.value * unitsPerOne)) :
    ofDecimal? decimal = some magnitude := by
  have hdigits := hinside.digits_ne_zero hzero
  have hsmall := (hinside.neg_shift_le hzero).not_gt
  have hlarge := (hinside.le_shift hdigits).not_gt
  simp only [ofDecimal?, hdigits, hsmall, hlarge, or_self, if_false, Nat.pow_eq]
  split
  · next hexponent =>
    obtain ⟨exponent, hexponent⟩ := Int.eq_ofNat_of_zero_le hexponent
    have hvalue : decimal.value * unitsPerOne =
        ((decimal.digits * 10 ^ exponent * unitsPerOne : Nat) : ℚ) / (1 : Nat) := by
      rw [Decimal.value, hexponent, zpow_natCast]
      push_cast
      ring
    rw [hexponent, Int.toNat_natCast]
    apply ofQuotient?_eq_of_inInterval (by decide)
    rwa [hvalue] at hinside
  · next hexponent =>
    obtain ⟨exponent, hexponent⟩ : ∃ exponent : Nat, decimal.exponent = -exponent :=
      ⟨(-decimal.exponent).toNat, by omega⟩
    have hvalue : decimal.value * unitsPerOne =
        ((decimal.digits * unitsPerOne : Nat) : ℚ) / (10 ^ exponent : Nat) := by
      rw [Decimal.value, hexponent, zpow_neg, zpow_natCast]
      push_cast
      ring
    rw [hexponent, neg_neg, Int.toNat_natCast]
    apply ofQuotient?_eq_of_inInterval (Nat.pow_pos (by decide))
    rwa [hvalue] at hinside

/-- The test in integers that the search for digits makes says that the decimal
lies in the rounding interval. -/
theorem inInterval_of_readsBack {magnitude : Magnitude} {point unit : Nat}
    (h : magnitude.readsBack point unit = true) :
    magnitude.InInterval (((point * unit : Nat) : ℚ) / (4 * 10 ^ decimalShift)) := by
  simp only [readsBack, Nat.pow_eq] at h
  generalize decimalShift = shift at h ⊢
  have hshift : (0 : ℚ) < 10 ^ shift := by positivity
  have hquarter : 4 * (((point * unit : Nat) : ℚ) / (4 * 10 ^ shift)) =
      (point * unit : Nat) / 10 ^ shift := by
    field_simp
  unfold InInterval
  rw [hquarter]
  simp only [le_div_iff₀ hshift, div_le_iff₀ hshift, lt_div_iff₀ hshift, div_lt_iff₀ hshift]
  norm_cast
  split at h
  · next heven =>
    rw [if_pos heven]
    simpa only [Bool.and_eq_true, decide_eq_true_eq] using h
  · next hodd =>
    rw [if_neg hodd]
    simpa only [Bool.and_eq_true, decide_eq_true_eq] using h

/-- A magnitude lies in its own rounding interval. -/
theorem inInterval_units (magnitude : Magnitude) :
    magnitude.InInterval (magnitude.significand * 2 ^ magnitude.scale : Nat) := by
  have hstep := step_pos magnitude
  have hlow : magnitude.roundingInterval.1 ≤ 4 * (magnitude.significand * 2 ^ magnitude.scale) := by
    rw [roundingInterval_low]
    omega
  have hhigh : 4 * (magnitude.significand * 2 ^ magnitude.scale) <
      magnitude.roundingInterval.2 := by
    rw [roundingInterval_high]
    omega
  unfold InInterval
  norm_cast
  split
  · exact ⟨hlow, hhigh.le⟩
  · next hodd =>
    refine ⟨?_, hhigh⟩
    have hwhole : 2 ^ magnitude.scale ≤ magnitude.significand * 2 ^ magnitude.scale :=
      Nat.le_mul_of_pos_left _ (by omega)
    rw [roundingInterval_low]
    split <;> omega

theorem seventeen_le_scaledWidth {magnitude : Magnitude} (hzero : magnitude.isZero = false) :
    17 ≤ magnitude.scaledWidth := by
  apply lt_digitCount
  rw [Nat.le_div_iff_mul_le unitsPerOne_pos]
  have hunits : 1 * 10 ^ decimalShift ≤ magnitude.units * 10 ^ decimalShift :=
    Nat.mul_le_mul_right _ (one_le_units hzero)
  calc 10 ^ 16 * unitsPerOne ≤ 10 ^ decimalShift := pow_mul_unitsPerOne_le
    _ ≤ magnitude.units * Nat.pow 10 decimalShift := by simpa using hunits

/-- A decimal that is found at some width rounds to the magnitude, whether or
not a shorter one would have done. -/
theorem inInterval_of_width {magnitude : Magnitude} {count : Nat} {decimal : Decimal}
    (hzero : magnitude.isZero = false) (hcount : count ≤ 17)
    (h : magnitude.decimalOfWidth? count = some decimal) :
    magnitude.InInterval (decimal.value * unitsPerOne) := by
  have hwidth := seventeen_le_scaledWidth hzero
  have hpoint (point : Nat)
      (hreads : magnitude.readsBack point
        (10 ^ (magnitude.scaledWidth - count) * (4 * unitsPerOne)) = true) :
      magnitude.InInterval
        (Decimal.value ⟨point, (magnitude.scaledWidth - count : Int) - decimalShift⟩ *
          unitsPerOne) := by
    have hexponent : (magnitude.scaledWidth - count : Int) =
        ((magnitude.scaledWidth - count : Nat) : Int) := by omega
    have hinside := inInterval_of_readsBack hreads
    convert hinside using 1
    rw [Decimal.value, hexponent, zpow_sub₀ (by norm_num), zpow_natCast, zpow_natCast]
    generalize unitsPerOne = unit
    generalize decimalShift = shift
    push_cast
    field_simp
  simp only [decimalOfWidth?, Nat.pow_eq] at h
  split at h
  · next hbelow habove =>
    obtain rfl := Option.some.inj h
    split
    · exact hpoint _ hbelow
    · exact hpoint _ habove
  · next hbelow _ =>
    obtain rfl := Option.some.inj h
    exact hpoint _ hbelow
  · next _ habove =>
    obtain rfl := Option.some.inj h
    exact hpoint _ habove
  · contradiction

theorem value_mul_five_pow (units places : Nat) {exponent : Int} (h : exponent = -places) :
    Decimal.value ⟨units * Nat.pow 5 places, exponent⟩ * (Nat.pow 2 places : Nat) = units := by
  have hten : (10 : ℚ) ^ places = 5 ^ places * 2 ^ places := by
    rw [← mul_pow]
    norm_num
  rw [Decimal.value, h, zpow_neg, zpow_natCast, hten, Nat.pow_eq, Nat.pow_eq]
  push_cast
  field_simp

/-- All digits of a magnitude denote the magnitude itself, so there always is a
decimal to fall back on. -/
theorem inInterval_exactDecimal (magnitude : Magnitude) :
    magnitude.InInterval (magnitude.exactDecimal.value * unitsPerOne) := by
  have hvalue : magnitude.exactDecimal.value * unitsPerOne = (magnitude.units : ℚ) := by
    unfold exactDecimal unitsPerOne
    apply value_mul_five_pow
    rfl
  rw [hvalue]
  exact inInterval_units magnitude

/-- The shortest decimal lies in the rounding interval. -/
theorem inInterval_shortest {magnitude : Magnitude} (hzero : magnitude.isZero = false) :
    magnitude.InInterval (magnitude.shortest.value * unitsPerOne) := by
  unfold shortest
  cases hfound : (List.range 17).findSome? fun count => magnitude.decimalOfWidth? (count + 1) with
  | none => exact inInterval_exactDecimal magnitude
  | some decimal =>
      obtain ⟨count, hmember, hdecimal⟩ := List.exists_of_findSome?_eq_some hfound
      have hcount := List.mem_range.1 hmember
      exact inInterval_of_width hzero (by omega) hdecimal

/-- Every decimal with the value of the shortest one is read as the magnitude. -/
theorem ofDecimal?_eq_of_value_eq {magnitude : Magnitude} {decimal : Decimal}
    (hzero : magnitude.isZero = false) (hvalue : decimal.value = magnitude.shortest.value) :
    ofDecimal? decimal = some magnitude := by
  apply ofDecimal?_eq_of_inInterval hzero
  rw [hvalue]
  exact inInterval_shortest hzero

end Magnitude

end ConfigNotation
