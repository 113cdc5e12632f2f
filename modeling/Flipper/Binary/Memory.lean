import Mathlib.Tactic.Ring
import Mathlib.Data.List.Basic

/-! Byte memory seen from one base address, block copies into it and
little-endian words held in it. Offsets are unbounded: a read or a write past
the end of an object is a read or a write of what lies there. -/
namespace Flipper.Binary

abbrev Byte := BitVec 8

/-- The byte at each offset from a base address. -/
abbrev Mem := Nat → Byte

namespace Mem

/-- `memcpy(dst + offset, src, count)`. -/
def copy (dst : Mem) (offset count : Nat) (src : Mem) : Mem :=
  fun i => if offset ≤ i ∧ i < offset + count then src (i - offset) else dst i

def set (m : Mem) (offset : Nat) (byte : Byte) : Mem :=
  fun i => if i = offset then byte else m i

def slice (m : Mem) (offset count : Nat) : List Byte :=
  (List.range count).map fun i => m (offset + i)

/-- The bytes replace a prefix; what they do not reach keeps its old content. -/
def overlay (m : Mem) (bytes : List Byte) : Mem := fun i => bytes.getD i (m i)

theorem copy_inside (dst : Mem) (offset count : Nat) (src : Mem) (lower : offset ≤ i)
    (upper : i < offset + count) : copy dst offset count src i = src (i - offset) :=
  if_pos ⟨lower, upper⟩

theorem copy_outside (dst : Mem) (offset count : Nat) (src : Mem)
    (outside : i < offset ∨ offset + count ≤ i) : copy dst offset count src i = dst i :=
  if_neg (by omega)

@[simp] theorem set_self (m : Mem) (offset : Nat) (byte : Byte) : set m offset byte offset = byte :=
  if_pos rfl

theorem set_other (m : Mem) (byte : Byte) (other : i ≠ offset) : set m offset byte i = m i :=
  if_neg other

@[simp] theorem slice_length (m : Mem) (offset count : Nat) :
    (slice m offset count).length = count := by
  simp [slice]

/-- Equal slices agree byte by byte. -/
theorem slice_inj {m m' : Mem} (same : slice m offset count = slice m' offset count)
    (inside : i < count) : m (offset + i) = m' (offset + i) := by
  have bytes := congrArg (fun l => l[i]?) same
  simpa [slice, inside] using bytes

theorem slice_congr {m m' : Mem} (same : ∀ i, offset ≤ i → i < offset + count → m i = m' i) :
    slice m offset count = slice m' offset count := by
  apply List.map_congr_left
  intro i inside
  exact same _ (Nat.le_add_right _ _) (Nat.add_lt_add_left (List.mem_range.mp inside) _)

theorem slice_append (m : Mem) (offset count more : Nat) :
    slice m offset (count + more) = slice m offset count ++ slice m (offset + count) more := by
  simp [slice, List.range_add, Nat.add_assoc]

/-- A block copied to the end of a prefix is appended to it. -/
theorem slice_copy (dst src : Mem) (offset count : Nat) :
    slice (copy dst offset count src) 0 (offset + count) = slice dst 0 offset ++
      slice src 0 count := by
  rw [slice_append]
  congr 1
  · exact slice_congr fun i _ upper => copy_outside _ _ _ _ (by omega)
  · apply List.map_congr_left
    intro i inside
    have upper := List.mem_range.mp inside
    rw [copy_inside _ _ _ _ (by omega) (by omega)]
    congr 1
    omega

theorem slice_set (m : Mem) (offset : Nat) (byte : Byte) :
    slice (set m offset byte) 0 (offset + 1) = slice m 0 offset ++ [byte] := by
  rw [slice_append]
  congr 1
  · exact slice_congr fun i _ upper => set_other m byte (by omega)
  · simp [slice]

theorem overlay_inside (m : Mem) {bytes : List Byte} (inside : i < bytes.length) :
    overlay m bytes i = bytes[i] := by
  simp [overlay, inside]

theorem overlay_outside (m : Mem) {bytes : List Byte} (outside : bytes.length ≤ i) :
    overlay m bytes i = m i := by
  simp [overlay, outside]

theorem overlay_slice (m src : Mem) (inside : i < count) :
    overlay m (slice src 0 count) i = src i := by
  rw [overlay_inside m (by simpa using inside)]
  simp [slice]

theorem slice_overlay (m : Mem) {bytes : List Byte} (long : bytes.length = count) :
    slice (overlay m bytes) 0 count = bytes := by
  subst long
  apply List.ext_getElem
  · simp
  · intro i _ inside
    simpa [slice] using overlay_inside m inside

end Mem

def byteOf (word : BitVec w) (k : Nat) : Byte := (word >>> (8 * k)).setWidth 8

def leNat (m : Mem) : Nat → Nat
  | 0 => 0
  | n + 1 => leNat m n + 256 ^ n * (m n).toNat

def word64 (m : Mem) : BitVec 64 := BitVec.ofNat 64 (leNat m 8)

theorem byteOf_toNat (word : BitVec w) (k : Nat) :
    (byteOf word k).toNat = word.toNat / 256 ^ k % 256 := by
  simp only [byteOf, BitVec.toNat_setWidth, BitVec.toNat_ushiftRight, Nat.shiftRight_eq_div_pow,
    Nat.pow_mul]

theorem leNat_congr {m m' : Mem} (same : ∀ i < n, m i = m' i) : leNat m n = leNat m' n := by
  induction n with
  | zero => rfl
  | succ n ih => rw [leNat, leNat, ih fun i less => same i (by omega), same n (by omega)]

theorem leNat_lt (m : Mem) (n : Nat) : leNat m n < 256 ^ n := by
  induction n with
  | zero => simp [leNat]
  | succ n ih =>
    have digit : (m n).toNat + 1 ≤ 256 := (m n).isLt
    calc leNat m n + 256 ^ n * (m n).toNat < 256 ^ n + 256 ^ n * (m n).toNat := by omega
      _ = 256 ^ n * ((m n).toNat + 1) := by ring
      _ ≤ 256 ^ n * 256 := Nat.mul_le_mul_left _ digit
      _ = 256 ^ (n + 1) := by ring

/-- Dropping the high bytes is reduction modulo their base. -/
theorem leNat_mod (m : Mem) (shorter : k ≤ n) : leNat m n % 256 ^ k = leNat m k := by
  induction n with
  | zero =>
    obtain rfl : k = 0 := by omega
    simp [leNat, Nat.mod_one]
  | succ n ih =>
    rcases Nat.eq_or_lt_of_le shorter with rfl | less
    · exact Nat.mod_eq_of_lt (leNat_lt m (n + 1))
    · obtain ⟨rest, power⟩ : 256 ^ k ∣ 256 ^ n := Nat.pow_dvd_pow _ (by omega)
      rw [leNat, power, Nat.mul_assoc, Nat.add_mul_mod_self_left, ih (by omega)]

/-- Equal numbers have equal bytes. -/
theorem leNat_inj {m m' : Mem} (same : leNat m n = leNat m' n) (inside : i < n) : m i = m' i := by
  have below : leNat m i = leNat m' i := by
    rw [← leNat_mod m (Nat.le_of_lt inside), same, leNat_mod m' (Nat.le_of_lt inside)]
  have through : leNat m (i + 1) = leNat m' (i + 1) := by
    rw [← leNat_mod m inside, same, leNat_mod m' inside]
  rw [leNat, leNat, below] at through
  have digits := Nat.eq_of_mul_eq_mul_left (Nat.pow_pos (by decide)) (Nat.add_left_cancel through)
  exact BitVec.eq_of_toNat_eq digits

/-- The bytes of a word spell the word, up to how many of them are kept. -/
theorem leNat_byteOf (word : BitVec w) (n : Nat) :
    leNat (byteOf word) n = word.toNat % 256 ^ n := by
  induction n with
  | zero => simp [leNat, Nat.mod_one]
  | succ n ih => rw [leNat, ih, byteOf_toNat, Nat.pow_succ, Nat.mod_mul]

theorem word64_toNat (m : Mem) : (word64 m).toNat = leNat m 8 := by
  have bound : leNat m 8 < 2 ^ 64 := leNat_lt m 8
  rw [word64, BitVec.toNat_ofNat, Nat.mod_eq_of_lt bound]

@[simp] theorem word64_byteOf (word : BitVec 64) : word64 (byteOf word) = word := by
  apply BitVec.eq_of_toNat_eq
  rw [word64_toNat, leNat_byteOf]
  exact Nat.mod_eq_of_lt word.isLt

theorem word64_inj {m m' : Mem} (same : word64 m = word64 m') (inside : i < 8) : m i = m' i := by
  apply leNat_inj _ inside
  rw [← word64_toNat, same, word64_toNat]

theorem byteOf_word64 (m : Mem) (inside : i < 8) : byteOf (word64 m) i = m i :=
  word64_inj (word64_byteOf _) inside

/-- Words equal modulo a power of 256 share that many bytes. -/
theorem byteOf_congr {word word' : BitVec w}
    (same : word.toNat % 2 ^ (8 * n) = word'.toNat % 2 ^ (8 * n)) (inside : i < n) :
    byteOf word i = byteOf word' i := by
  have base : (2 : Nat) ^ (8 * n) = 256 ^ n := pow_mul 2 8 n
  apply leNat_inj _ inside
  rw [leNat_byteOf, leNat_byteOf, ← base, same]

theorem word64_congr {m m' : Mem} (same : ∀ i < 8, m i = m' i) : word64 m = word64 m' := by
  rw [word64, word64, leNat_congr same]

end Flipper.Binary
