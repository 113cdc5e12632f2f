import Flipper.Fmr.Packet
import Flipper.Binary.CyclicCode
import Flipper.Binary.Memory

/-! The checksum of `lib/crc.c` and its polynomial reading: division of the
message, most significant bit first, by `X ^ 16 + X ^ 12 + X ^ 5 + 1`. -/
namespace Flipper.Fmr
open Binary

/-- `POLY`: the generator without its leading term. -/
def crcPoly : BitVec 16 := 0x1021

def crcShift (crc : BitVec 16) : BitVec 16 :=
  if crc &&& 0x8000 ≠ 0 then (crc <<< 1) ^^^ crcPoly else crc <<< 1

/-- `(uint16_t)*ptr`: plain char is widened with its sign on some platforms. -/
def charWord (signed : Bool) (char : Byte) : BitVec 16 :=
  if signed then char.signExtend 16 else char.setWidth 16

def crcByte (signed : Bool) (crc : BitVec 16) (char : Byte) : BitVec 16 :=
  crcShift^[8] (crc ^^^ (charWord signed char <<< 8))

def calcrc (signed : Bool) (ptr : Mem) : Nat → BitVec 16
  | 0 => 0
  | count + 1 => crcByte signed (calcrc signed ptr count) (ptr count)

/-- `lf_crc` on a platform whose plain char is signed. -/
def lfCrc (src : Mem) (length : Nat) : BitVec 16 := calcrc true src length

/-- `lf_crc(packet, hdr->len, &crc); hdr->crc = crc;` -/
def storeCrc (m : Mem) : Mem := setCrc m (lfCrc m (hdrLen m).toNat)

theorem calcrc_congr {p q : Mem} (same : ∀ i < n, p i = q i) :
    calcrc signed p n = calcrc signed q n := by
  induction n with
  | zero => rfl
  | succ n ih =>
    rw [calcrc, calcrc, ih fun i less => same i (by omega), same n (by omega)]

theorem lfCrc_congr {p q : Mem} (same : ∀ i < n, p i = q i) : lfCrc p n = lfCrc q n :=
  calcrc_congr same

/-- Bit `b` of a message, counted from its most significant bit. -/
def bitAt (m : Mem) (b : Nat) : Bool := (m (b / 8)).getMsbD (b % 8)

noncomputable section
open Polynomial CyclicCode

def messagePoly (m : Mem) : Nat → (ZMod 2)[X]
  | 0 => 0
  | n + 1 => X ^ 8 * messagePoly m n + toPoly (m n)

theorem crcShift_eq (crc : BitVec 16) : crcShift crc = shift crcPoly crc := by
  have top : crc &&& 0x8000 ≠ 0 ↔ crc.msb = true := by
    change crc &&& BitVec.twoPow 16 15 ≠ 0 ↔ _
    rw [BitVec.and_twoPow, BitVec.msb_eq_getLsbD_last]
    cases crc.getLsbD 15 <;> decide
  simp only [crcShift, shift, top]

/-- Only the low byte of the widened char survives the shift, signed or not. -/
theorem charWord_shift (signed : Bool) (char : Byte) :
    charWord signed char <<< 8 = char.setWidth 16 <<< 8 := by
  cases signed
  · rfl
  · apply BitVec.eq_of_getLsbD_eq
    intro i inside
    simp only [charWord, if_true, BitVec.getLsbD_shiftLeft, BitVec.getLsbD_signExtend,
      BitVec.getLsbD_setWidth]
    by_cases low : i < 8
    · simp [low]
    · simp [inside, low, show i - 8 < 8 by omega]

theorem toPoly_charWord (signed : Bool) (char : Byte) :
    toPoly (charWord signed char <<< 8) = X ^ 8 * toPoly char := by
  rw [charWord_shift]
  ext k
  rw [toPoly_coeff, coeff_X_pow_mul', toPoly_coeff, BitVec.getLsbD_shiftLeft,
    BitVec.getLsbD_setWidth]
  by_cases low : k < 8
  · simp [low, show ¬ 8 ≤ k by omega]
  · by_cases inside : k < 16
    · simp [low, inside, show 8 ≤ k by omega, show k - 8 < 16 by omega]
    · have empty := BitVec.getLsbD_of_ge char (k - 8) (by omega)
      simp [inside, low, empty, show 8 ≤ k by omega]

theorem crcByte_dvd (signed : Bool) (crc : BitVec 16) (char : Byte) :
    generator crcPoly ∣
      X ^ 8 * (toPoly crc + X ^ 8 * toPoly char) - toPoly (crcByte signed crc char) := by
  have shifts := generator_dvd_shifts crcPoly (crc ^^^ (charWord signed char <<< 8)) 8
  have same : crcShift = shift crcPoly := funext crcShift_eq
  rwa [toPoly_xor, toPoly_charWord, ← same] at shifts

/-- The checksum is congruent to the message times `X ^ 16`. -/
theorem calcrc_dvd (signed : Bool) (m : Mem) (n : Nat) :
    generator crcPoly ∣ X ^ 16 * messagePoly m n - toPoly (calcrc signed m n) := by
  induction n with
  | zero =>
    change generator crcPoly ∣ X ^ 16 * 0 - toPoly (0#16)
    simp
  | succ n ih =>
    have step := crcByte_dvd signed (calcrc signed m n) (m n)
    have total := dvd_add (dvd_mul_of_dvd_right ih (X ^ 8)) step
    rw [messagePoly, calcrc]
    convert total using 1
    ring

theorem messagePoly_coeff (m : Mem) (n k : Nat) :
    (messagePoly m n).coeff k = bit (decide (k < 8 * n) && bitAt m (8 * n - 1 - k)) := by
  induction n generalizing k with
  | zero => simp [messagePoly]
  | succ n ih =>
    rw [messagePoly, coeff_add, coeff_X_pow_mul', toPoly_coeff]
    by_cases low : k < 8
    · have byte : (8 * (n + 1) - 1 - k) / 8 = n := by omega
      have place : (8 * (n + 1) - 1 - k) % 8 = 7 - k := by omega
      have less : k < 8 * (n + 1) := by omega
      rw [if_neg (by omega), zero_add, bitAt, byte, place, BitVec.getMsbD_eq_getLsbD]
      simp [less, show 7 - k < 8 by omega, show 7 - (7 - k) = k by omega]
    · have empty := BitVec.getLsbD_of_ge (m n) k (by omega)
      have place : 8 * n - 1 - (k - 8) = 8 * (n + 1) - 1 - k := by omega
      have less : k - 8 < 8 * n ↔ k < 8 * (n + 1) := by omega
      rw [if_pos (by omega), ih, empty, bit_false, add_zero, place]
      simp only [less]

theorem generator_unit : (generator crcPoly).coeff 0 ≠ 0 := by
  simp [generator, crcPoly, coeff_X_pow]

/-- `X + 1` divides the generator. -/
theorem generator_root : (generator crcPoly).eval 1 = 0 := by
  simp only [generator, toPoly, crcPoly, eval_add, eval_pow, eval_X, one_pow, eval_finsetSum,
    eval_mul, eval_C, mul_one]
  decide

theorem generator_natDegree : (generator crcPoly).natDegree = 16 :=
  natDegree_eq_of_degree_eq_some (generator_degree crcPoly)

/-- No power of `X` below `512` is one modulo the generator. -/
theorem crc_period (positive : 0 < d) (bound : d < 512) :
    (shift crcPoly)^[d] (1 : BitVec 16) ≠ 1 := by
  have orbit : avoidsUnit crcPoly 511 (shift crcPoly 1) = true := by decide +kernel
  obtain ⟨d, rfl⟩ := Nat.exists_eq_add_one.mpr positive
  rw [Function.iterate_succ_apply]
  exact avoidsUnit_iterate orbit (by omega)

/-- The bits of `q` are those of `p` with exactly the positions in `flips` inverted. -/
def Flipped (flips : Finset Nat) (p q : Mem) : Prop :=
  ∀ b, bitAt q b = (bitAt p b ^^ decide (b ∈ flips))

/-- Error patterns within sixteen consecutive positions, of odd weight, or of weight two. -/
def Detectable (flips : Finset Nat) : Prop :=
  (∃ first, ∀ b ∈ flips, first ≤ b ∧ b < first + 16) ∨ Odd flips.card ∨ flips.card = 2

theorem flipped_coeff {flips : Finset Nat} {p q : Mem} (flipped : Flipped flips p q) (n k : Nat) :
    (messagePoly p n + messagePoly q n).coeff k =
      bit (decide (k < 8 * n) && decide (8 * n - 1 - k ∈ flips)) := by
  rw [coeff_add, messagePoly_coeff, messagePoly_coeff, ← bit_xor, flipped]
  congr 1
  cases decide (k < 8 * n) <;> cases bitAt p (8 * n - 1 - k) <;> simp

/-- The error polynomial has one term for each flipped position. -/
def errorPoly (flips : Finset Nat) (n : Nat) : (ZMod 2)[X] := ∑ b ∈ flips, X ^ (8 * n - 1 - b)

theorem errorPoly_coeff {flips : Finset Nat} (inside : ∀ b ∈ flips, b < 8 * n) (k : Nat) :
    (errorPoly flips n).coeff k = bit (decide (k < 8 * n) && decide (8 * n - 1 - k ∈ flips)) := by
  simp only [errorPoly, finsetSum_coeff, coeff_X_pow]
  by_cases mem : k < 8 * n ∧ 8 * n - 1 - k ∈ flips
  · rw [Finset.sum_eq_single (8 * n - 1 - k)]
    · have back : k = 8 * n - 1 - (8 * n - 1 - k) := by omega
      simp [mem, ← back]
    · intro b member other
      have := inside b member
      exact if_neg (by omega)
    · exact fun absent => absurd mem.2 absent
  · have clear : (decide (k < 8 * n) && decide (8 * n - 1 - k ∈ flips)) = false := by
      simpa using mem
    rw [clear, bit_false]
    apply Finset.sum_eq_zero
    intro b member
    apply if_neg
    rintro rfl
    have bound := inside b member
    exact mem ⟨by omega, by rwa [show 8 * n - 1 - (8 * n - 1 - b) = b by omega]⟩

theorem flipped_sum {flips : Finset Nat} {p q : Mem} (flipped : Flipped flips p q)
    (inside : ∀ b ∈ flips, b < 8 * n) : messagePoly p n + messagePoly q n = errorPoly flips n := by
  ext k
  rw [flipped_coeff flipped, errorPoly_coeff inside]

theorem errorPoly_ne_zero {flips : Finset Nat} (inside : ∀ b ∈ flips, b < 8 * n)
    (nonempty : flips.Nonempty) : errorPoly flips n ≠ 0 := by
  obtain ⟨b, member⟩ := nonempty
  have bound := inside b member
  intro zero
  have coefficient := errorPoly_coeff inside (8 * n - 1 - b)
  rw [zero, show 8 * n - 1 - (8 * n - 1 - b) = b by omega] at coefficient
  simp [member, show 8 * n - 1 - b < 8 * n by omega] at coefficient

theorem burst_detected {flips : Finset Nat} (inside : ∀ b ∈ flips, b < 8 * n)
    (nonempty : flips.Nonempty) (window : ∀ b ∈ flips, first ≤ b ∧ b < first + 16) :
    ¬ generator crcPoly ∣ errorPoly flips n := by
  have places : ∀ k, (errorPoly flips n).coeff k ≠ 0 →
      8 * n - 16 - first ≤ k ∧ k < 8 * n - 16 - first + (generator crcPoly).natDegree := by
    intro k set
    rw [errorPoly_coeff inside] at set
    have member : (decide (k < 8 * n) && decide (8 * n - 1 - k ∈ flips)) = true := by
      by_contra absent
      exact set (by rw [Bool.eq_false_iff.mpr absent, bit_false])
    simp only [Bool.and_eq_true, decide_eq_true_eq] at member
    have range := window _ member.2
    rw [generator_natDegree]
    omega
  exact burst_not_dvd generator_unit (errorPoly_ne_zero inside nonempty) places

theorem odd_detected {flips : Finset Nat} (odd : Odd flips.card) :
    ¬ generator crcPoly ∣ errorPoly flips n := by
  apply odd_not_dvd generator_root
  simp only [errorPoly, eval_finsetSum, eval_pow, eval_X, one_pow, Finset.sum_const, nsmul_eq_mul,
    mul_one]
  exact ZMod.natCast_ne_zero_iff_odd.mpr odd

theorem pair_detected (less : a < b) (inside : b < 8 * n) (short : n ≤ 64) :
    ¬ generator crcPoly ∣ X ^ (8 * n - 1 - a) + X ^ (8 * n - 1 - b) := by
  have apart : 8 * n - 1 - a = (8 * n - 1 - b) + (b - a) := by omega
  rw [apart]
  exact pair_not_dvd (by decide) generator_unit (crc_period (by omega) (by omega))

theorem detectable_not_dvd {flips : Finset Nat} (nonempty : flips.Nonempty)
    (inside : ∀ b ∈ flips, b < 8 * n) (short : n ≤ 64) (detectable : Detectable flips) :
    ¬ generator crcPoly ∣ errorPoly flips n := by
  rcases detectable with ⟨first, window⟩ | odd | pair
  · exact burst_detected inside nonempty window
  · exact odd_detected odd
  · obtain ⟨a, b, distinct, rfl⟩ := Finset.card_eq_two.mp pair
    rw [errorPoly, Finset.sum_pair distinct]
    rcases Nat.lt_or_gt_of_ne distinct with less | less
    · exact pair_detected less (inside b (by simp)) short
    · rw [add_comm]
      exact pair_detected less (inside a (by simp)) short

/-- A detectable change of the message changes the checksum. -/
theorem calcrc_detects {flips : Finset Nat} {p q : Mem} (flipped : Flipped flips p q)
    (nonempty : flips.Nonempty) (inside : ∀ b ∈ flips, b < 8 * n) (short : n ≤ 64)
    (detectable : Detectable flips) : calcrc signed p n ≠ calcrc signed q n := by
  intro same
  have first := calcrc_dvd signed p n
  have second := calcrc_dvd signed q n
  rw [same] at first
  have divides := dvd_sub first second
  have factored : generator crcPoly ∣ X ^ 16 * (messagePoly p n + messagePoly q n) := by
    convert divides using 1
    rw [← CharTwo.sub_eq_add (messagePoly p n)]
    ring
  rw [flipped_sum flipped inside] at factored
  exact detectable_not_dvd nonempty inside short detectable
    (dvd_of_dvd_X_pow_mul generator_unit factored)

end
end Flipper.Fmr
