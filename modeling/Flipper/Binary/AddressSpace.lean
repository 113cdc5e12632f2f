import Flipper.Binary.Memory
import Mathlib.Data.BitVec

/-! Blocks of bytes at machine addresses. Addresses wrap around, so a block is a
run of cells and not an interval; a block shorter than the address space still
meets every cell at most once. -/
namespace Flipper.Binary

/-- The byte at every address. -/
abbrev AddressSpace (w : Nat) := BitVec w → Byte

def cells (address : BitVec w) (length : Nat) : List (BitVec w) :=
  (List.range length).map fun i => address + BitVec.ofNat w i

namespace AddressSpace

def load (memory : AddressSpace w) (address : BitVec w) (length : Nat) : List Byte :=
  (cells address length).map memory

def store (memory : AddressSpace w) (address : BitVec w) (bytes : List Byte) : AddressSpace w :=
  fun cell => bytes.getD (cell - address).toNat (memory cell)

section Store
variable (memory : AddressSpace w) {address cell : BitVec w} {bytes : List Byte}

theorem store_inside (inside : (cell - address).toNat < bytes.length) :
    memory.store address bytes cell = bytes[(cell - address).toNat] := by
  rw [store, List.getD_eq_getElem?_getD, List.getElem?_eq_getElem inside, Option.getD_some]

theorem store_outside (outside : bytes.length ≤ (cell - address).toNat) :
    memory.store address bytes cell = memory cell := by
  rw [store, List.getD_eq_getElem?_getD, List.getElem?_eq_none outside, Option.getD_none]

end Store

/-- Loads that agree in every memory read the same cells. -/
theorem cells_of_loads {read read' : List (BitVec w)}
    (same : ∀ memory : AddressSpace w, read.map memory = read'.map memory) : read = read' := by
  have length : read.length = read'.length := by simpa using congrArg List.length (same fun _ => 0)
  apply List.ext_getElem length
  intro i inside inside'
  -- A memory that marks one cell tells it from every other.
  have marked := congrArg (fun bytes => bytes[i]?)
    (same fun cell => if cell = read'[i] then 1 else 0)
  simpa [inside, inside'] using marked

section Stores
variable {address address' : BitVec w} {bytes bytes' : List Byte}

/-- Stores that agree in every memory write the same cells. -/
theorem covered_of_stores
    (same : ∀ memory : AddressSpace w, memory.store address bytes = memory.store address' bytes')
    (cell : BitVec w) (inside : (cell - address).toNat < bytes.length) :
    (cell - address').toNat < bytes'.length := by
  by_contra outside
  have kept : ∀ byte : Byte, bytes[(cell - address).toNat] = byte := by
    intro byte
    have stores := congrFun (same fun _ => byte) cell
    rwa [store_inside _ inside, store_outside _ (Nat.le_of_not_lt outside)] at stores
  exact absurd ((kept 0).symm.trans (kept 1)) (by decide)

theorem address_of_stores (nonempty : bytes ≠ []) (nonempty' : bytes' ≠ [])
    (short : bytes.length + bytes'.length ≤ 2 ^ w)
    (same : ∀ memory : AddressSpace w, memory.store address bytes = memory.store address' bytes') :
    address = address' := by
  have ahead : (address - address').toNat < bytes'.length :=
    covered_of_stores same address (by simpa using List.length_pos_of_ne_nil nonempty)
  have behind : (address' - address).toNat < bytes.length :=
    covered_of_stores (fun memory => (same memory).symm) address'
      (by simpa using List.length_pos_of_ne_nil nonempty')
  by_contra apart
  have distance : address - address' ≠ 0 := sub_ne_zero.mpr apart
  have positive : (address - address').toNat ≠ 0 :=
    fun zero => distance (BitVec.eq_of_toNat_eq zero)
  have around : (address' - address).toNat = 2 ^ w - (address - address').toNat := by
    rw [← neg_sub, BitVec.toNat_neg]
    exact Nat.mod_eq_of_lt (by omega)
  omega

theorem offset_toNat (address : BitVec w) (inside : i < 2 ^ w) :
    (address + BitVec.ofNat w i - address).toNat = i := by
  rw [add_sub_cancel_left, BitVec.toNat_ofNat, Nat.mod_eq_of_lt inside]

theorem length_of_stores (short : bytes.length < 2 ^ w)
    (same : ∀ memory : AddressSpace w, memory.store address bytes = memory.store address bytes') :
    bytes'.length ≤ bytes.length := by
  by_contra longer
  have offset := offset_toNat address short
  have inside := covered_of_stores (fun memory => (same memory).symm)
    (address + BitVec.ofNat w bytes.length) (by omega)
  omega

/-- Stores of short blocks that agree in every memory are the same store. -/
theorem store_injective (nonempty : bytes ≠ []) (nonempty' : bytes' ≠ [])
    (short : bytes.length + bytes'.length ≤ 2 ^ w)
    (same : ∀ memory : AddressSpace w, memory.store address bytes = memory.store address' bytes') :
    address = address' ∧ bytes = bytes' := by
  obtain rfl := address_of_stores nonempty nonempty' short same
  have positive := List.length_pos_of_ne_nil nonempty
  have positive' := List.length_pos_of_ne_nil nonempty'
  have length : bytes.length = bytes'.length :=
    Nat.le_antisymm (length_of_stores (by omega) fun memory => (same memory).symm)
      (length_of_stores (by omega) same)
  refine ⟨rfl, List.ext_getElem length fun i inside inside' => ?_⟩
  have offset := offset_toNat address (by omega : i < 2 ^ w)
  have stores := congrFun (same fun _ => 0) (address + BitVec.ofNat w i)
  rw [store_inside _ (by omega), store_inside _ (by omega)] at stores
  simpa only [offset] using stores

/-- A store that no memory shows wrote nothing. -/
theorem nil_of_store (same : ∀ memory : AddressSpace w, memory.store address bytes = memory) :
    bytes = [] := by
  by_contra nonempty
  have positive := List.length_pos_of_ne_nil nonempty
  have unchanged : ∀ memory : AddressSpace w,
      memory.store address bytes = memory.store address [] := same
  have inside := covered_of_stores unchanged address (by simpa using positive)
  exact absurd inside (Nat.not_lt_zero _)

end Stores

/-! Words of four bytes. -/

/-- What a pointer to the address sees. -/
def view (memory : AddressSpace w) (address : BitVec w) : Mem :=
  fun i => memory (address + BitVec.ofNat w i)

def word (memory : AddressSpace w) (address : BitVec w) : BitVec 32 :=
  BitVec.ofNat 32 (leNat (memory.view address) 4)

def storeWord (memory : AddressSpace w) (address : BitVec w) (value : BitVec 32) : AddressSpace w :=
  memory.store address (Mem.slice (byteOf value) 0 4)

section Words
variable (memory : AddressSpace w) {address cell : BitVec w} (value : BitVec 32)

theorem storeWord_outside (outside : 4 ≤ (cell - address).toNat) :
    memory.storeWord address value cell = memory cell :=
  store_outside memory (by rwa [Mem.slice_length])

theorem word_congr {memory memory' : AddressSpace w}
    (same : ∀ i < 4, memory.view address i = memory'.view address i) :
    memory.word address = memory'.word address := by
  rw [word, word, leNat_congr same]

theorem word_storeWord (wide : 4 ≤ 2 ^ w) :
    (memory.storeWord address value).word address = value := by
  have bytes : ∀ i < 4, (memory.storeWord address value).view address i = byteOf value i := by
    intro i inside
    have offset := offset_toNat address (by omega : i < 2 ^ w)
    rw [view, storeWord, store_inside memory (by rw [Mem.slice_length, offset]; exact inside)]
    simp only [offset]
    simp [Mem.slice]
  apply BitVec.eq_of_toNat_eq
  rw [word, leNat_congr bytes, leNat_byteOf, BitVec.toNat_ofNat]
  have bound : value.toNat < 2 ^ 32 := value.isLt
  omega

theorem byteOf_word (memory : AddressSpace w) (address : BitVec w) (inside : i < 4) :
    byteOf (memory.word address) i = memory (address + BitVec.ofNat w i) := by
  refine leNat_inj (m := byteOf (memory.word address)) (n := 4)
    (?_ : _ = leNat (memory.view address) 4) inside
  rw [leNat_byteOf, word, BitVec.toNat_ofNat]
  have bound := leNat_lt (memory.view address) 4
  omega

/-- A word carried from one address to another takes its bytes along. -/
theorem storeWord_word (memory' : AddressSpace w) (address' : BitVec w) :
    memory.storeWord address (memory'.word address') cell =
      if (cell - address).toNat < 4 then memory' (address' + (cell - address))
      else memory cell := by
  split
  · rename_i inside
    rw [storeWord, store_inside memory (by rwa [Mem.slice_length])]
    simp only [Mem.slice, List.getElem_map, List.getElem_range, Nat.zero_add]
    rw [byteOf_word memory' address' inside, BitVec.ofNat_toNat, BitVec.setWidth_eq]
  · rename_i outside
    exact storeWord_outside memory _ (Nat.le_of_not_lt outside)

end Words

/-! Words of eight bytes, and what a base address sees of a store nearby. -/

def quad (memory : AddressSpace w) (address : BitVec w) : BitVec 64 := word64 (memory.view address)

def storeQuad (memory : AddressSpace w) (address : BitVec w) (value : BitVec 64) : AddressSpace w :=
  memory.store address (Mem.slice (byteOf value) 0 8)

section Quads
variable (memory : AddressSpace w) {base cell : BitVec w} (value : BitVec 64)

theorem view_add (base : BitVec w) (offset i : Nat) :
    memory.view (base + BitVec.ofNat w offset) i = memory.view base (offset + i) := by
  rw [view, view, BitVec.add_assoc, ← BitVec.ofNat_add]

theorem storeQuad_outside (outside : 8 ≤ (cell - base).toNat) :
    memory.storeQuad base value cell = memory cell :=
  store_outside memory (by rwa [Mem.slice_length])

theorem quad_storeQuad (wide : 8 ≤ 2 ^ w) : (memory.storeQuad base value).quad base = value := by
  refine (word64_congr fun i inside => ?_).trans (word64_byteOf value)
  have offset := offset_toNat base (by omega : i < 2 ^ w)
  rw [view, storeQuad, store_inside memory (by rw [Mem.slice_length, offset]; exact inside)]
  simp only [offset]
  simp [Mem.slice]

/-- A quad does not see a store on either side of it. -/
theorem quad_storeQuad_apart (near : j + 8 ≤ 2 ^ w) (near' : i + 8 ≤ 2 ^ w)
    (apart : i + 8 ≤ j ∨ j + 8 ≤ i) :
    (memory.storeQuad (base + BitVec.ofNat w j) value).quad (base + BitVec.ofNat w i) =
      memory.quad (base + BitVec.ofNat w i) := by
  refine word64_congr fun k inside => ?_
  rw [view_add, view_add, view]
  refine storeQuad_outside memory value ?_
  have distance : base + BitVec.ofNat w (i + k) - (base + BitVec.ofNat w j) =
      BitVec.ofNat w (i + k) - BitVec.ofNat w j := by ring
  rw [distance, BitVec.toNat_sub, BitVec.toNat_ofNat, BitVec.toNat_ofNat,
    Nat.mod_eq_of_lt (by omega : i + k < 2 ^ w), Nat.mod_eq_of_lt (by omega : j < 2 ^ w)]
  rcases apart with before | behind
  · rw [Nat.mod_eq_of_lt (by omega)]
    omega
  · rw [show 2 ^ w - j + (i + k) = 2 ^ w + (i + k - j) by omega, Nat.add_mod_left,
      Nat.mod_eq_of_lt (by omega)]
    omega

end Quads
end AddressSpace

def words (start : BitVec w) (count : Nat) : List (BitVec w) :=
  (List.range count).map fun i => start + BitVec.ofNat w (4 * i)

theorem words_append (start : BitVec w) (count more : Nat) :
    words start (count + more) = words start count ++ words (start + BitVec.ofNat w (4 * count))
      more := by
  simp [words, List.range_add, Nat.mul_add, BitVec.ofNat_add, BitVec.add_assoc]

/-- A run no longer than the address space meets the addresses ahead of its start. -/
theorem mem_words {start address : BitVec w} (short : 4 * count ≤ 2 ^ w) :
    address ∈ words start count ↔
      (address - start).toNat < 4 * count ∧ (address - start).toNat % 4 = 0 := by
  constructor
  · intro member
    obtain ⟨i, inside, rfl⟩ := List.mem_map.mp member
    rw [List.mem_range] at inside
    rw [AddressSpace.offset_toNat start (by omega)]
    omega
  · rintro ⟨ahead, aligned⟩
    refine List.mem_map.mpr ⟨(address - start).toNat / 4, List.mem_range.mpr (by omega), ?_⟩
    rw [show 4 * ((address - start).toNat / 4) = (address - start).toNat by omega,
      BitVec.ofNat_toNat, BitVec.setWidth_eq, add_sub_cancel]

theorem words_nodup (start : BitVec w) (short : 4 * count ≤ 2 ^ w) : (words start count).Nodup := by
  refine List.Nodup.map_on ?_ List.nodup_range
  intro i inside j inside' same
  rw [List.mem_range] at inside inside'
  have distance := congrArg (fun address => (address - start).toNat) same
  rw [AddressSpace.offset_toNat start (by omega),
    AddressSpace.offset_toNat start (by omega)] at distance
  omega

end Flipper.Binary
