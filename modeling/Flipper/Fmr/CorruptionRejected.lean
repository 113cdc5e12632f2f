import Flipper.Fmr.Perform

/-! Packets damaged in transit. Whatever a detectable error pattern hits, `fmr_perform`
stops at the magic number or at the checksum, before any handler. -/
namespace Flipper.Fmr
open Binary Effect

def fieldBits : Finset Nat := Finset.Ico 8 40

theorem flipped_byte {flips : Finset Nat} {m m' : Mem} (flipped : Flipped flips m m')
    (spared : ∀ b ∈ flips, b / 8 ≠ k) : m' k = m k := by
  apply BitVec.eq_of_getMsbD_eq
  intro j inside
  have bit := flipped (8 * k + j)
  have absent : 8 * k + j ∉ flips := fun member => spared _ member (by omega)
  simpa [bitAt, absent, Nat.mul_add_div, Nat.div_eq_of_lt inside, Nat.mod_eq_of_lt inside] using bit

/-- Clearing the checksum of both packets keeps the error pattern. -/
theorem flipped_setCrc {flips : Finset Nat} {m m' : Mem} (flipped : Flipped flips m m')
    (spared : Disjoint flips fieldBits) : Flipped flips (setCrc m 0) (setCrc m' 0) := by
  intro b
  by_cases field : b / 8 = 1 ∨ b / 8 = 2
  · have absent : b ∉ flips := by
      intro member
      have outside := Finset.disjoint_left.mp spared member
      rw [fieldBits, Finset.mem_Ico] at outside
      omega
    have same : setCrc m' 0 (b / 8) = setCrc m 0 (b / 8) := by
      rcases field with first | second
      · rw [first]; rfl
      · rw [second]; rfl
    rw [bitAt, bitAt, same]
    simp [absent]
  · have other : b / 8 ≠ 1 ∧ b / 8 ≠ 2 := by omega
    rw [bitAt, bitAt, setCrc_at m 0 other, setCrc_at m' 0 other]
    exact flipped b

/-- The damaged packet still carries the old checksum and length, and these no
longer fit it. -/
theorem flipped_checksum {flips : Finset Nat} {m m' : Mem} (valid : ChecksumOk m)
    (short : (hdrLen m).toNat ≤ fmrPacketSize) (flipped : Flipped flips m m')
    (nonempty : flips.Nonempty) (inside : ∀ b ∈ flips, b < 8 * (hdrLen m).toNat)
    (spared : Disjoint flips fieldBits) (detectable : Detectable flips) : ¬ ChecksumOk m' := by
  have kept : ∀ k, 1 ≤ k → k < 5 → m' k = m k := by
    intro k lower upper
    apply flipped_byte flipped
    intro b member hit
    have outside := Finset.disjoint_left.mp spared member
    rw [fieldBits, Finset.mem_Ico] at outside
    omega
  have crc : hdrCrc m' = hdrCrc m := by
    rw [hdrCrc, hdrCrc, kept 1 (by decide) (by decide), kept 2 (by decide) (by decide)]
  have len : hdrLen m' = hdrLen m := by
    rw [hdrLen, hdrLen, kept 3 (by decide) (by decide), kept 4 (by decide) (by decide)]
  have differ : lfCrc (setCrc m 0) (hdrLen m).toNat ≠ lfCrc (setCrc m' 0) (hdrLen m).toNat :=
    calcrc_detects (flipped_setCrc flipped spared) nonempty inside short detectable
  intro valid'
  unfold ChecksumOk at valid valid'
  rw [crc, len, valid] at valid'
  exact differ valid'

/-- The bits of byte `k` that differ from those of another byte. -/
def byteFlips (m : Mem) (k : Nat) (byte : Byte) : Finset Nat :=
  (Finset.Ico (8 * k) (8 * k + 8)).filter fun b => byte.getMsbD (b % 8) ≠ bitAt m b

theorem mem_byteFlips : b ∈ byteFlips m k byte ↔ b / 8 = k ∧ byte.getMsbD (b % 8) ≠ bitAt m b := by
  simp only [byteFlips, Finset.mem_filter, Finset.mem_Ico]
  constructor
  · rintro ⟨inside, differs⟩
    exact ⟨by omega, differs⟩
  · rintro ⟨inside, differs⟩
    exact ⟨by omega, differs⟩

theorem byteFlips_flipped (m : Mem) (k : Nat) (byte : Byte) :
    Flipped (byteFlips m k byte) m (m.set k byte) := by
  intro b
  by_cases hit : b / 8 = k
  · have after : bitAt (m.set k byte) b = byte.getMsbD (b % 8) := by rw [bitAt, hit, Mem.set_self]
    rw [after]
    by_cases same : byte.getMsbD (b % 8) = bitAt m b
    · simp [mem_byteFlips, same]
    · simp [mem_byteFlips, hit, Bool.eq_not.mpr same]
  · rw [bitAt, bitAt, Mem.set_other _ _ hit]
    simp [mem_byteFlips, hit]

theorem byteFlips_nonempty (differs : byte ≠ m k) : (byteFlips m k byte).Nonempty := by
  by_contra empty
  apply differs
  apply BitVec.eq_of_getMsbD_eq
  intro j inside
  by_contra bit
  refine empty ⟨8 * k + j, mem_byteFlips.mpr ⟨by omega, ?_⟩⟩
  simpa [bitAt, Nat.mul_add_div, Nat.div_eq_of_lt inside, Nat.mod_eq_of_lt inside] using bit

/-- No byte behind the `len` field can be changed under the checksum. -/
theorem changed_byte_checksum (valid : ChecksumOk m) (short : (hdrLen m).toNat ≤ fmrPacketSize)
    (behind : 5 ≤ k) (inside : k < (hdrLen m).toNat) (differs : byte ≠ m k) :
    ¬ ChecksumOk (m.set k byte) := by
  apply flipped_checksum valid short (byteFlips_flipped m k byte) (byteFlips_nonempty differs)
  · intro b member
    have hit := (mem_byteFlips.mp member).1
    omega
  · rw [Finset.disjoint_left]
    intro b member field
    have hit := (mem_byteFlips.mp member).1
    rw [fieldBits, Finset.mem_Ico] at field
    omega
  · refine Or.inl ⟨8 * k, fun b member => ?_⟩
    have hit := (mem_byteFlips.mp member).1
    omega

/-- A detectable error outside `crc` and `len` is answered with `E_CHECKSUM`, and
no handler runs. -/
theorem corruption_rejected (registry : Registry) (device : LfDevice) (world : World fmr σ) (s : σ)
    {m m' : Mem} {flips : Finset Nat} (valid : ChecksumOk m)
    (short : (hdrLen m).toNat ≤ fmrPacketSize) (flipped : Flipped flips m m')
    (nonempty : flips.Nonempty) (inside : ∀ b ∈ flips, b < 8 * (hdrLen m).toNat)
    (spared : Disjoint flips fieldBits) (detectable : Detectable flips) :
    let trace := ((fmrPerform registry device m').run world s).trace
    dispatched trace = [] ∧ sent trace = [FmrResult.bytes ⟨0, LfErr.eChecksum.code⟩] := by
  by_cases magic : hdrMagic m' = fmrMagicNumber
  · have damaged := flipped_checksum valid short flipped nonempty inside spared detectable
    rw [run_bad_checksum registry device world s magic damaged]
    exact ⟨rfl, rfl⟩
  · rw [run_bad_magic registry device world s magic]
    exact ⟨rfl, rfl⟩

/-- The call with the top bit of its function number flipped. -/
def damagedCall : Mem := configureCall.set 7 0x80

theorem damagedCall_flipped : Flipped {56} configureCall damagedCall := by
  intro b
  by_cases hit : b / 8 = 7
  · have zero : configureCall 7 = 0 := by decide +kernel
    have set : damagedCall 7 = 0x80 := rfl
    rw [bitAt, bitAt, hit, zero, set]
    have bits : ∀ j < 8, (0x80 : Byte).getMsbD ((56 + j) % 8) =
        ((0 : Byte).getMsbD ((56 + j) % 8) ^^ decide (56 + j ∈ ({56} : Finset Nat))) := by decide
    have position : b = 56 + (b - 56) := by omega
    rw [position]
    exact bits _ (by omega)
  · have absent : b ∉ ({56} : Finset Nat) := by
      rw [Finset.mem_singleton]
      omega
    rw [bitAt, bitAt, damagedCall, Mem.set_other _ _ hit]
    simp [absent]

theorem damaged_call_rejected :
    ChecksumOk configureCall ∧
      dispatched ((fmrPerform (fmrInit fun _ => none) ⟨fvmModules⟩ damagedCall).run obliging
        ()).trace = [] ∧
      sent ((fmrPerform (fmrInit fun _ => none) ⟨fvmModules⟩ damagedCall).run obliging ()).trace =
        [FmrResult.bytes ⟨0, LfErr.eChecksum.code⟩] := by
  have valid : ChecksumOk configureCall := by decide +kernel
  have inside : ∀ b ∈ ({56} : Finset Nat), b < 8 * (hdrLen configureCall).toNat := by decide +kernel
  exact ⟨valid, corruption_rejected _ _ obliging () valid (by decide +kernel) damagedCall_flipped
    ⟨56, by decide⟩ inside (by decide) (Or.inr (Or.inl (by decide)))⟩

end Flipper.Fmr
