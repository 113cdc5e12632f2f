import Flipper.Fmr.Crc

/-! `calcrc` as division: its value is the remainder of the message, and a message that
ends with its own checksum has the remainder zero. -/
noncomputable section
namespace Flipper.Fmr
open Binary Polynomial CyclicCode

theorem generator_crcPoly : generator crcPoly = X ^ 16 + X ^ 12 + X ^ 5 + 1 := by
  have taps : toPoly crcPoly = X ^ 12 + X ^ 5 + 1 := by
    simp [toPoly, Finset.sum_range_succ, crcPoly, BitVec.getLsbD_ofNat, Nat.testBit, bit]
    ring
  rw [generator, taps]
  ring

/-- The bits of the message, most significant first, are its coefficients, leading one first. -/
theorem messagePoly_eq_sum (m : Mem) (n : Nat) :
    messagePoly m n = ∑ b ∈ Finset.range (8 * n), C (bit (bitAt m b)) * X ^ (8 * n - 1 - b) := by
  ext k
  rw [messagePoly_coeff, finsetSum_coeff]
  simp only [coeff_C_mul_X_pow]
  by_cases inside : k < 8 * n
  · have place : 8 * n - 1 - k ∈ Finset.range (8 * n) := Finset.mem_range.mpr (by omega)
    rw [Finset.sum_eq_single_of_mem _ place, if_pos (by omega)]
    · simp [inside]
    · intro b member other
      have bound := Finset.mem_range.mp member
      exact if_neg (by omega)
  · rw [Finset.sum_eq_zero]
    · simp [inside]
    · intro b member
      have bound := Finset.mem_range.mp member
      exact if_neg (by omega)

/-- A word is its high byte followed by its low byte. -/
theorem toPoly_bytes (word : BitVec 16) :
    X ^ 8 * toPoly (byteOf word 1) + toPoly (byteOf word 0) = toPoly word := by
  ext k
  rw [coeff_add, coeff_X_pow_mul']
  simp only [toPoly_coeff, byteOf, BitVec.getLsbD_setWidth, BitVec.getLsbD_ushiftRight]
  by_cases low : k < 8
  · simp [low, show ¬ 8 ≤ k by omega]
  · by_cases inside : k < 16
    · simp [low, show 8 ≤ k by omega, show k - 8 < 8 by omega, show 8 + (k - 8) = k by omega]
    · have empty := BitVec.getLsbD_of_ge word k (by omega)
      simp [low, empty, show 8 ≤ k by omega, show ¬ k - 8 < 8 by omega]

theorem messagePoly_congr {m m' : Mem} (same : ∀ i < n, m i = m' i) :
    messagePoly m n = messagePoly m' n := by
  induction n with
  | zero => rfl
  | succ n ih =>
    rw [messagePoly, messagePoly, ih fun i less => same i (by omega), same n (by omega)]

/-- A message followed by its checksum, high byte first, checks to zero. -/
theorem calcrc_checked (signed : Bool) (message : List Byte) (rest : Mem) :
    let n := message.length
    let c := calcrc signed (rest.overlay message) n
    calcrc signed (rest.overlay (message ++ [byteOf c 1, byteOf c 0])) (n + 2) = 0 := by
  intro n c
  let m := rest.overlay message
  let m' := rest.overlay (message ++ [byteOf c 1, byteOf c 0])
  have divides : generator crcPoly ∣ X ^ 16 * messagePoly m n - toPoly c := calcrc_dvd signed m n
  have body : messagePoly m' n = messagePoly m n := by
    apply messagePoly_congr
    intro i inside
    simp [m, m', Mem.overlay, List.getElem?_append_left inside]
  have high : m' n = byteOf c 1 := by simp [m', n, Mem.overlay]
  have low : m' (n + 1) = byteOf c 0 := by simp [m', n, Mem.overlay]
  -- The longer message is the shorter one times `X ^ 16` plus the checksum.
  have longer : messagePoly m' (n + 2) = X ^ 16 * messagePoly m n - toPoly c := by
    rw [messagePoly, messagePoly, body, high, low, CharTwo.sub_eq_add, ← toPoly_bytes c]
    ring
  have whole := calcrc_dvd signed m' (n + 2)
  rw [longer] at whole
  have vanishes : generator crcPoly ∣ toPoly (calcrc signed m' (n + 2)) - toPoly (0#16) := by
    rw [toPoly_zero]
    convert dvd_sub (dvd_mul_of_dvd_right divides (X ^ 16)) whole using 1
    ring
  exact eq_of_generator_dvd vanishes

/-- Whether plain char is signed or not, `calcrc` divides the message times `X ^ 16`, and a
message followed by its checksum, high byte first, checks to zero. -/
theorem crc_remainder (signed : Bool) (message : List Byte) (rest : Mem) :
    let m := rest.overlay message
    let n := message.length
    let c := calcrc signed m n
    toPoly c = (X ^ 16 * ∑ b ∈ Finset.range (8 * n), C (bit (bitAt m b)) * X ^ (8 * n - 1 - b)) %ₘ
        (X ^ 16 + X ^ 12 + X ^ 5 + 1) ∧
      calcrc signed (rest.overlay (message ++ [byteOf c 1, byteOf c 0])) (n + 2) = 0 := by
  intro m n c
  constructor
  · rw [← messagePoly_eq_sum, ← generator_crcPoly, modByMonic_eq_toPoly (calcrc_dvd signed m n)]
  · exact calcrc_checked signed message rest

end Flipper.Fmr

end
