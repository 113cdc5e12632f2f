import Mathlib.Algebra.Field.ZMod
import Mathlib.Algebra.Polynomial.FieldDivision
import Mathlib.Algebra.CharP.Two
import Mathlib.RingTheory.PrincipalIdealDomain
import Mathlib.Tactic.Ring
import Mathlib.Tactic.LinearCombination

/-! Shift registers as polynomial division over GF(2), for any width and
feedback taps. A register holds a remainder; one shift multiplies it by `X`
modulo the generator. What a generator detects is read off its divisibility. -/
noncomputable section
namespace Flipper.Binary.CyclicCode
open Polynomial

/-- One shift: the bit that falls out of the top feeds the taps back. -/
def shift (taps register : BitVec w) : BitVec w :=
  if register.msb then (register <<< 1) ^^^ taps else register <<< 1

def bit (b : Bool) : ZMod 2 := if b then 1 else 0

/-- Bit `i` of the register is the coefficient of `X ^ i`. -/
def toPoly (register : BitVec w) : (ZMod 2)[X] :=
  ∑ i ∈ Finset.range w, C (bit (register.getLsbD i)) * X ^ i

def generator (taps : BitVec w) : (ZMod 2)[X] := X ^ w + toPoly taps

@[simp] theorem bit_false : bit false = 0 := rfl

@[simp] theorem bit_true : bit true = 1 := rfl

theorem bit_xor (a b : Bool) : bit (a ^^ b) = bit a + bit b := by
  cases a <;> cases b <;> decide

theorem bit_injective : Function.Injective bit := by decide

@[simp] theorem toPoly_coeff (register : BitVec w) (k : Nat) :
    (toPoly register).coeff k = bit (register.getLsbD k) := by
  simp only [toPoly, finsetSum_coeff, coeff_C_mul_X_pow, Finset.sum_ite_eq, Finset.mem_range]
  split
  · rfl
  · rw [BitVec.getLsbD_of_ge register k (by omega), bit_false]

@[simp] theorem toPoly_zero : toPoly (0#w) = 0 := by
  ext k
  simp

theorem toPoly_injective : Function.Injective (toPoly : BitVec w → (ZMod 2)[X]) := by
  intro a b same
  apply BitVec.eq_of_getLsbD_eq
  intro i _
  have coefficient := congrArg (fun p => p.coeff i) same
  simp only [toPoly_coeff] at coefficient
  exact bit_injective coefficient

theorem toPoly_xor (a b : BitVec w) : toPoly (a ^^^ b) = toPoly a + toPoly b := by
  ext k
  rw [coeff_add, toPoly_coeff, toPoly_coeff, toPoly_coeff, BitVec.getLsbD_xor, bit_xor]

theorem toPoly_degree_lt (register : BitVec w) : (toPoly register).degree < w := by
  apply (degree_lt_iff_coeff_zero _ _).mpr
  intro k beyond
  rw [toPoly_coeff, BitVec.getLsbD_of_ge register k beyond, bit_false]

theorem generator_degree (taps : BitVec w) : (generator taps).degree = w := by
  rw [generator, degree_add_eq_left_of_degree_lt, degree_X_pow]
  rw [degree_X_pow]
  exact toPoly_degree_lt taps

theorem shift_bit (taps register : BitVec w) (k : Nat) :
    (shift taps register).getLsbD k =
      ((decide (k < w) && !decide (k < 1) && register.getLsbD (k - 1)) ^^
        (register.msb && taps.getLsbD k)) := by
  cases top : register.msb <;> simp [shift, top, BitVec.getLsbD_shiftLeft]

/-- What the top bit subtracts, coefficient by coefficient. -/
theorem feedback_coeff (taps register : BitVec w) (k : Nat) :
    (if register.msb then generator taps else 0).coeff k =
      bit (register.msb && (decide (k = w) ^^ taps.getLsbD k)) := by
  cases register.msb
  · simp
  · rw [if_pos rfl, generator, coeff_add, toPoly_coeff, coeff_X_pow, Bool.true_and, bit_xor]
    by_cases top : k = w <;> simp [top]

/-- A shift multiplies by `X` and cancels what leaves the register. -/
theorem toPoly_shift (taps register : BitVec w) :
    toPoly (shift taps register) =
      X * toPoly register + if register.msb then generator taps else 0 := by
  ext k
  rw [toPoly_coeff, shift_bit, coeff_add, feedback_coeff]
  cases k with
  | zero =>
    cases w with
    | zero => simp [BitVec.of_length_zero]
    | succ w => simp
  | succ k =>
    rw [coeff_X_mul, toPoly_coeff, ← bit_xor]
    congr 1
    rcases Nat.lt_trichotomy (k + 1) w with inside | top | beyond
    · simp [inside, Nat.ne_of_lt inside]
    · subst top
      simp [BitVec.msb_eq_getLsbD_last]
    · have untapped := BitVec.getLsbD_of_ge taps (k + 1) (by omega)
      have empty := BitVec.getLsbD_of_ge register k (by omega)
      simp [untapped, empty, Nat.ne_of_gt beyond]

/-- `n` shifts multiply by `X ^ n` modulo the generator. -/
theorem generator_dvd_shifts (taps register : BitVec w) (n : Nat) :
    generator taps ∣ X ^ n * toPoly register - toPoly ((shift taps)^[n] register) := by
  induction n generalizing register with
  | zero => simp
  | succ n ih =>
    have later := ih (shift taps register)
    rw [toPoly_shift] at later
    have fed : generator taps ∣ X ^ n * if register.msb then generator taps else 0 := by
      split
      · exact dvd_mul_left _ _
      · simp
    have total := dvd_sub later fed
    rw [Function.iterate_succ_apply]
    convert total using 1
    ring

/-- Registers are reduced: congruent ones are equal. -/
theorem eq_of_generator_dvd {taps a b : BitVec w} (divides : generator taps ∣ toPoly a - toPoly b) :
    a = b := by
  have small : (toPoly a - toPoly b).degree < (generator taps).degree := by
    rw [generator_degree]
    exact lt_of_le_of_lt (degree_sub_le _ _)
      (max_lt (toPoly_degree_lt a) (toPoly_degree_lt b))
  exact toPoly_injective (sub_eq_zero.mp (eq_zero_of_dvd_of_degree_lt divides small))

theorem generator_monic (taps : BitVec w) : (generator taps).Monic :=
  monic_X_pow_add (toPoly_degree_lt taps)

/-- A register congruent to a polynomial is its remainder. -/
theorem modByMonic_eq_toPoly {taps register : BitVec w} {p : (ZMod 2)[X]}
    (divides : generator taps ∣ p - toPoly register) : p %ₘ generator taps = toPoly register := by
  obtain ⟨q, factor⟩ := divides
  refine (div_modByMonic_unique q (toPoly register) (generator_monic taps) ⟨?_, ?_⟩).2
  · rw [← factor]
    ring
  · rw [generator_degree]
    exact toPoly_degree_lt register

theorem toPoly_one (positive : 0 < w) : toPoly (1 : BitVec w) = 1 := by
  ext k
  rw [toPoly_coeff, coeff_one]
  by_cases low : k = 0
  · subst low
    simp [positive]
  · simp [low]

/-- The generator divides `X ^ d - 1` only when `d` shifts bring the unit register back. -/
theorem unit_register_returns {taps : BitVec w} (positive : 0 < w)
    (divides : generator taps ∣ X ^ d - 1) : (shift taps)^[d] (1 : BitVec w) = 1 := by
  have shifted := generator_dvd_shifts taps (1 : BitVec w) d
  rw [toPoly_one positive, mul_one] at shifted
  have same : generator taps ∣ toPoly (1 : BitVec w) - toPoly ((shift taps)^[d] 1) := by
    rw [toPoly_one positive]
    convert dvd_sub shifted divides using 1
    ring
  exact (eq_of_generator_dvd same).symm

/-- None of the first `n` registers of the orbit is the unit. -/
def avoidsUnit (taps : BitVec w) : Nat → BitVec w → Bool
  | 0, _ => true
  | n + 1, register => register != 1 && avoidsUnit taps n (shift taps register)

theorem avoidsUnit_iterate {taps register : BitVec w} (avoids : avoidsUnit taps n register = true)
    (inside : d < n) : (shift taps)^[d] register ≠ 1 := by
  induction n generalizing register d with
  | zero => omega
  | succ n ih =>
    simp only [avoidsUnit, Bool.and_eq_true, bne_iff_ne] at avoids
    cases d with
    | zero => exact avoids.1
    | succ d =>
      rw [Function.iterate_succ_apply]
      exact ih avoids.2 (by omega)

section Detection
variable {g e : (ZMod 2)[X]}

theorem dvd_of_dvd_X_pow_mul (unit : g.coeff 0 ≠ 0) (divides : g ∣ X ^ m * e) : g ∣ e := by
  have coprime : IsCoprime (X : (ZMod 2)[X]) g :=
    (irreducible_X (R := ZMod 2)).coprime_iff_not_dvd.mpr fun divisor => unit (X_dvd_iff.mp divisor)
  exact coprime.pow_left.symm.dvd_of_dvd_mul_left divides

/-- An error confined to fewer places than the degree is no multiple. -/
theorem burst_not_dvd (unit : g.coeff 0 ≠ 0) (error : e ≠ 0)
    (window : ∀ k, e.coeff k ≠ 0 → low ≤ k ∧ k < low + g.natDegree) : ¬ g ∣ e := by
  intro divides
  obtain ⟨b, factor⟩ : X ^ low ∣ e := by
    apply X_pow_dvd_iff.mpr
    intro k below
    by_contra set
    exact absurd (window k set).1 (by omega)
  rw [factor] at divides
  have divides := dvd_of_dvd_X_pow_mul unit divides
  have nonzero : g ≠ 0 := fun zero => unit (by rw [zero, coeff_zero])
  have small : b.degree < g.degree := by
    rw [degree_eq_natDegree nonzero]
    apply (degree_lt_iff_coeff_zero _ _).mpr
    intro k beyond
    by_contra set
    have shifted : e.coeff (k + low) ≠ 0 := by rwa [factor, coeff_X_pow_mul]
    exact absurd (window _ shifted).2 (by omega)
  exact error (by rw [factor, eq_zero_of_dvd_of_degree_lt divides small, mul_zero])

/-- A generator with root one has only multiples of even weight. -/
theorem odd_not_dvd (root : g.eval 1 = 0) (odd : e.eval 1 ≠ 0) : ¬ g ∣ e := by
  rintro ⟨q, factor⟩
  exact odd (by rw [factor, eval_mul, root, zero_mul])

/-- Two places apart by less than the period of `X` are no multiple. -/
theorem pair_not_dvd {taps : BitVec w} (positive : 0 < w) (unit : (generator taps).coeff 0 ≠ 0)
    (period : (shift taps)^[d] (1 : BitVec w) ≠ 1) :
    ¬ generator taps ∣ X ^ (low + d) + X ^ low := by
  intro divides
  apply period
  apply unit_register_returns positive
  apply dvd_of_dvd_X_pow_mul (m := low) unit
  convert divides using 1
  rw [CharTwo.sub_eq_add, mul_add, ← pow_add, mul_one]

end Detection
end Flipper.Binary.CyclicCode

end
