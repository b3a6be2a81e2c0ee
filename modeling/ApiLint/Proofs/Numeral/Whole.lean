import ApiLint.Numeral.Binary64
import Mathlib

/-! Which numbers have the value of a whole number. A finite number is a whole number of the smallest
steps that there are, and as the bits go up so does the number of steps (`strictMono_steps`), so that two
numbers with one whole value are equal (`beq_of_hasValue`); they need not have the same bits, as zero has
two signs. The lemmas on floating point numbers that this rests on come with the whole of Mathlib, and with
no part of it. -/
namespace ApiLint.Numeral

/-! ### Steps -/

/-- How many of the smallest steps above zero a finite number is away from it, from its bits without
the sign. -/
def steps (bits : Nat) : Nat :=
  if bits / 2 ^ 52 = 0 then bits % 2 ^ 52 else (2 ^ 52 + bits % 2 ^ 52) * 2 ^ (bits / 2 ^ 52 - 1)

/-- As the bits go up by one, so does the number of steps, also where the exponent changes. -/
theorem strictMono_steps : StrictMono steps := by
  refine strictMono_nat_of_lt_succ fun bits => ?_
  by_cases hlast : bits % 2 ^ 52 = 2 ^ 52 - 1
  · -- the next exponent starts where the steps of this one end
    have hnext : (bits + 1) / 2 ^ 52 = bits / 2 ^ 52 + 1 ∧ (bits + 1) % 2 ^ 52 = 0 := by omega
    rw [steps, steps, hnext.1, hnext.2, hlast, if_neg (Nat.succ_ne_zero _)]
    split
    · next hzero =>
      rw [hzero]
      decide
    · next hstored =>
      obtain ⟨e, he⟩ := Nat.exists_eq_succ_of_ne_zero hstored
      rw [he, Nat.add_sub_cancel, Nat.succ_eq_add_one, Nat.add_sub_cancel, pow_succ]
      have := Nat.two_pow_pos e
      omega
  · have hsame : (bits + 1) / 2 ^ 52 = bits / 2 ^ 52 ∧
        (bits + 1) % 2 ^ 52 = bits % 2 ^ 52 + 1 := by omega
    rw [steps, steps, hsame.1, hsame.2]
    split
    · exact Nat.lt_succ_self _
    · exact Nat.mul_lt_mul_of_pos_right (Nat.lt_succ_self _) (Nat.two_pow_pos _)

def unsigned (x : Float) : Nat :=
  x.toBits.toNat % 2 ^ 63

theorem twoTo_eq (n : Nat) : twoTo n = 2 ^ n := rfl

theorem isNegative_iff {x : Float} : isNegative x = true ↔ 2 ^ 63 ≤ x.toBits.toNat := by
  rw [isNegative]
  exact decide_eq_true_iff

/-- The size of a number in steps, from its mantissa and exponent. -/
theorem magnitude_steps (x : Float) :
    minExponent ≤ (magnitude x).exponent ∧
      (magnitude x).mantissa * 2 ^ ((magnitude x).exponent - minExponent).toNat =
        steps (unsigned x) := by
  have hmagnitude : magnitude x = if unsigned x / 2 ^ 52 = 0 then ⟨unsigned x % 2 ^ 52, minExponent⟩
      else ⟨2 ^ 52 + unsigned x % 2 ^ 52, (unsigned x / 2 ^ 52 : Nat) - 1 + minExponent⟩ := rfl
  by_cases hstored : unsigned x / 2 ^ 52 = 0
  · rw [hmagnitude, if_pos hstored, steps, if_pos hstored]
    refine ⟨le_refl _, ?_⟩
    rw [sub_self, Int.toNat_zero, pow_zero, mul_one]
  · have hexponent : ((unsigned x / 2 ^ 52 : Nat) - 1 + minExponent - minExponent).toNat =
        unsigned x / 2 ^ 52 - 1 := by omega
    rw [hmagnitude, if_neg hstored, steps, if_neg hstored]
    refine ⟨?_, congrArg _ (congrArg _ hexponent)⟩
    show minExponent ≤ (unsigned x / 2 ^ 52 : Nat) - 1 + minExponent
    omega

/-- A size as a fraction is as many steps as its mantissa and exponent say. -/
theorem fraction_steps {d : Dyadic} (h : minExponent ≤ d.exponent) :
    0 < d.fraction.2 ∧ d.fraction.1 * 2 ^ 1074 =
      d.fraction.2 * (d.mantissa * 2 ^ (d.exponent - minExponent).toNat) := by
  rw [Dyadic.fraction]
  split
  · next hpos =>
    refine ⟨Nat.one_pos, ?_⟩
    have hexponent : (d.exponent - minExponent).toNat = d.exponent.toNat + 1074 := by
      rw [minExponent]
      omega
    rw [hexponent, twoTo_eq, pow_add, one_mul, mul_assoc]
  · next hneg =>
    have hexponent : 1074 = (-d.exponent).toNat + (d.exponent - minExponent).toNat := by
      rw [minExponent] at h ⊢
      omega
    refine ⟨Nat.two_pow_pos _, ?_⟩
    show d.mantissa * 2 ^ 1074 = 2 ^ (-d.exponent).toNat * _
    rw [hexponent, pow_add]
    ring

/-! ### Whole values -/

theorem hasValue_iff {x : Float} {n : Int} : hasValue x n = true ↔
    x.isFinite = true ∧ truncate x = n ∧
      (magnitude x).fraction.1 % (magnitude x).fraction.2 = 0 := by
  simp only [hasValue, Bool.and_eq_true, decide_eq_true_eq, and_assoc]

/-- The size of a number without its fraction. -/
def whole (x : Float) : Nat :=
  (magnitude x).fraction.1 / (magnitude x).fraction.2

theorem truncate_eq (x : Float) :
    truncate x = if isNegative x then -(whole x : Int) else (whole x : Int) := rfl

/-- A number that has the value of a whole number is as many steps away from zero as make it up. -/
theorem steps_of_hasValue {x : Float} {n : Int} (h : hasValue x n = true) :
    steps (unsigned x) = n.natAbs * 2 ^ 1074 := by
  obtain ⟨-, rfl, hwhole⟩ := hasValue_iff.mp h
  obtain ⟨hexponent, hsteps⟩ := magnitude_steps x
  obtain ⟨hpos, hfraction⟩ := fraction_steps hexponent
  have hsize : (truncate x).natAbs = whole x := by
    rw [truncate_eq]
    split
    · rw [Int.natAbs_neg, Int.natAbs_natCast]
    · rw [Int.natAbs_natCast]
  have hmultiple : (magnitude x).fraction.1 = (magnitude x).fraction.2 * (truncate x).natAbs := by
    rw [hsize, whole, Nat.mul_div_cancel' (Nat.dvd_of_mod_eq_zero hwhole)]
  rw [hsteps, hmultiple, mul_assoc] at hfraction
  exact (Nat.eq_of_mul_eq_mul_left hpos hfraction).symm

theorem isNegative_of_hasValue {x : Float} {n : Int} (h : hasValue x n = true) (hn : n ≠ 0) :
    isNegative x = true ↔ n < 0 := by
  obtain ⟨-, rfl, -⟩ := hasValue_iff.mp h
  rw [truncate_eq] at hn ⊢
  by_cases hneg : isNegative x = true
  · rw [if_pos hneg] at hn ⊢
    exact iff_of_true hneg (by omega)
  · rw [if_neg hneg] at hn ⊢
    exact iff_of_false hneg (by omega)

/-- A number has the value of one whole number at most. -/
theorem hasValue_unique {x : Float} {m n : Int} (hm : hasValue x m = true)
    (hn : hasValue x n = true) : m = n :=
  (hasValue_iff.mp hm).2.1.symm.trans (hasValue_iff.mp hn).2.1

theorem ne_nan_of_hasValue {x : Float} {n : Int} (h : hasValue x n = true) : x ≠ .nan := by
  intro hnan
  have hfinite := (hasValue_iff.mp h).1
  rw [hnan, show Float.nan.isFinite = false by decide +kernel] at hfinite
  cases hfinite

/-- Zero has two signs. -/
theorem zero_of_hasValue {x : Float} (h : hasValue x 0 = true) : x = 0 ∨ x = -0 := by
  have hbits : unsigned x = 0 := by
    refine strictMono_steps.injective ?_
    rw [steps_of_hasValue h, Int.natAbs_zero, zero_mul]
    rfl
  have := x.toBits.toNat_lt
  rw [unsigned] at hbits
  obtain hplus | hminus : x.toBits.toNat = 0 ∨ x.toBits.toNat = 2 ^ 63 := by omega
  · refine .inl (Float.toBits_inj.mp (UInt64.toNat_inj.mp (hplus.trans ?_)))
    decide +kernel
  · refine .inr (Float.toBits_inj.mp (UInt64.toNat_inj.mp (hminus.trans ?_)))
    decide +kernel

/-- **Numbers with one whole value are equal.** -/
theorem beq_of_hasValue {x y : Float} {n : Int} (hx : hasValue x n = true)
    (hy : hasValue y n = true) : (x == y) = true := by
  refine Float.beq_iff_ne_nan_and_eq.mpr ⟨ne_nan_of_hasValue hx, ne_nan_of_hasValue hy, ?_⟩
  by_cases hn : n = 0
  · rw [hn] at hx hy
    obtain rfl | rfl := zero_of_hasValue hx <;> obtain rfl | rfl := zero_of_hasValue hy <;> simp
  · refine .inl (Float.toBits_inj.mp (UInt64.toNat_inj.mp ?_))
    have hunsigned : unsigned x = unsigned y :=
      strictMono_steps.injective ((steps_of_hasValue hx).trans (steps_of_hasValue hy).symm)
    have hsign := (isNegative_of_hasValue hx hn).trans (isNegative_of_hasValue hy hn).symm
    have := x.toBits.toNat_lt
    have := y.toBits.toNat_lt
    rw [isNegative_iff, isNegative_iff] at hsign
    rw [unsigned, unsigned] at hunsigned
    omega

/-- Equal numbers have one value. -/
theorem hasValue_of_beq {x y : Float} {n : Int} (hxy : (x == y) = true)
    (hx : hasValue x n = true) : hasValue y n = true := by
  obtain ⟨-, -, rfl | ⟨rfl, rfl⟩ | ⟨rfl, rfl⟩⟩ := Float.beq_iff_ne_nan_and_eq.mp hxy
  · exact hx
  · obtain rfl := hasValue_unique hx (show hasValue 0 0 = true by decide +kernel)
    decide +kernel
  · obtain rfl := hasValue_unique hx (show hasValue (-0) 0 = true by decide +kernel)
    decide +kernel

/-! ### What a number stands for -/

/-- The whole number whose value a number has, or else the number itself. -/
def standing (x : Float) : Int ⊕ Float :=
  if hasValue x (truncate x) then .inl (truncate x) else .inr x

theorem standing_of_hasValue {x : Float} {n : Int} (h : hasValue x n = true) :
    standing x = .inl n := by
  obtain rfl : truncate x = n := (hasValue_iff.mp h).2.1
  rw [standing, if_pos h]

theorem standing_eq_inl {x : Float} {n : Int} : standing x = .inl n ↔ hasValue x n = true := by
  refine ⟨fun h => ?_, standing_of_hasValue⟩
  rw [standing] at h
  split at h
  · next hvalue => exact Sum.inl.inj h ▸ hvalue
  · cases h

theorem inl_eq_standing {x : Float} {n : Int} : .inl n = standing x ↔ hasValue x n = true :=
  eq_comm.trans standing_eq_inl

/-- Two numbers are equal when they stand for one thing. -/
theorem beq_iff_standing {x y : Float} (hx : (x == x) = true) :
    (x == y) = true ↔ standing x = standing y := by
  cases hvalue : hasValue x (truncate x) with
  | true =>
    rw [standing_of_hasValue hvalue]
    exact ⟨fun hxy => (standing_of_hasValue (hasValue_of_beq hxy hvalue)).symm,
      fun heq => beq_of_hasValue hvalue (standing_eq_inl.mp heq.symm)⟩
  | false =>
    have hself : standing x = .inr x := by rw [standing, hvalue, if_neg Bool.false_ne_true]
    have hnot : ¬∃ n, hasValue x n = true := by
      intro hexists
      obtain ⟨n, hn⟩ := hexists
      rw [standing_of_hasValue hn] at hself
      cases hself
    constructor
    · intro hxy
      obtain ⟨-, -, rfl | ⟨rfl, -⟩ | ⟨rfl, -⟩⟩ := Float.beq_iff_ne_nan_and_eq.mp hxy
      · rfl
      · exact absurd ⟨0, by decide +kernel⟩ hnot
      · exact absurd ⟨0, by decide +kernel⟩ hnot
    · intro heq
      rw [hself, eq_comm, standing] at heq
      split at heq
      · cases heq
      · rw [Sum.inr.inj heq]
        exact hx

end ApiLint.Numeral
