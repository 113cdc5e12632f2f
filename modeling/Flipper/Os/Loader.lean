import Flipper.Binary.AddressSpace
import Flipper.Fmr.Error
import Mathlib.Data.List.Perm.Basic

/-! `os_load_image` of `os/src/loader.c` up to the registration of a module: the three
loops that patch an image. The header they take their bounds from lies in the memory they
patch, and every turn reads its bound again. -/
namespace Flipper.Os
open Binary Fmr

structure LfAbiHeader where
  nameSize : BitVec 32
  nameOffset : BitVec 32
  entry : BitVec 32
  moduleSize : BitVec 32
  moduleOffset : BitVec 32
  dataSize : BitVec 32
  dataOffset : BitVec 32
  bssSize : BitVec 32
  bssOffset : BitVec 32
  gotSize : BitVec 32
  gotOffset : BitVec 32
  deriving DecidableEq

def abiHeaderSize : Nat := 44

def abiHeader (memory : AddressSpace 32) (header : BitVec 32) : LfAbiHeader where
  nameSize := memory.word header
  nameOffset := memory.word (header + 4)
  entry := memory.word (header + 8)
  moduleSize := memory.word (header + 12)
  moduleOffset := memory.word (header + 16)
  dataSize := memory.word (header + 20)
  dataOffset := memory.word (header + 24)
  bssSize := memory.word (header + 28)
  bssOffset := memory.word (header + 32)
  gotSize := memory.word (header + 36)
  gotOffset := memory.word (header + 40)

/-- What one turn of a loop does to a word: adds the load address, or clears it. -/
inductive Patch where
  | add (address : BitVec 32)
  | zero (address : BitVec 32)
  deriving DecidableEq

namespace Patch

def address : Patch → BitVec 32
  | .add address | .zero address => address

def apply (header : BitVec 32) (memory : AddressSpace 32) : Patch → AddressSpace 32
  | .add address => memory.storeWord address (memory.word address + header)
  | .zero address => memory.storeWord address 0

def applyAll (header : BitVec 32) (memory : AddressSpace 32) (patches : List Patch) :
    AddressSpace 32 :=
  patches.foldl (apply header) memory

end Patch

/-- One of the loops: how far from the header its first word is, the size of the section
and what a turn does. -/
structure PatchLoop where
  start : LfAbiHeader → BitVec 32
  size : LfAbiHeader → BitVec 32
  patch : BitVec 32 → Patch

/-- The function pointers. `header` is a pointer to words here, so the offset is scaled. -/
def functionsLoop : PatchLoop := ⟨fun h => 4 * h.moduleOffset, LfAbiHeader.moduleSize, .add⟩

/-- The global offset table, the same way. -/
def gotLoop : PatchLoop := ⟨fun h => 4 * h.gotOffset, LfAbiHeader.gotSize, .add⟩

/-- The offset is not scaled here, but it is that of the table. -/
def bssLoop : PatchLoop := ⟨fun h => h.gotOffset, LfAbiHeader.bssSize, .zero⟩

namespace PatchLoop

/-- The patches from turn `i` on, for a first word at `first`. -/
def turns (loop : PatchLoop) (header first : BitVec 32) : (left i : Nat) → AddressSpace 32 →
    List Patch
  | 0, _, _ => []
  | left + 1, i, memory =>
    if i < (loop.size (abiHeader memory header)).toNat / 4 then
      let next := loop.patch (first + BitVec.ofNat 32 (4 * i))
      next :: loop.turns header first left (i + 1) (next.apply header memory)
    else []

/-- No size has as many words as there are turns. -/
def run (loop : PatchLoop) (header : BitVec 32) (memory : AddressSpace 32) : List Patch :=
  loop.turns header (header + loop.start (abiHeader memory header)) (2 ^ 30) 0 memory

def runAll (header : BitVec 32) : List PatchLoop → AddressSpace 32 → List Patch
  | [], _ => []
  | loop :: rest, memory =>
    let made := loop.run header memory
    made ++ runAll header rest (Patch.applyAll header memory made)

end PatchLoop

/-- The patches and the memory they leave; nothing for a NULL header. -/
def osLoadImage (header : BitVec 32) (memory : AddressSpace 32) :
    Option (List Patch × AddressSpace 32) :=
  if header = 0 then none
  else
    let patches := PatchLoop.runAll header [functionsLoop, gotLoop, bssLoop] memory
    some (patches, Patch.applyAll header memory patches)

/-! The contract. -/

/-- The header and the sections, as offsets and sizes in bytes. -/
def LfAbiHeader.sections (h : LfAbiHeader) : List (Nat × Nat) :=
  [(0, abiHeaderSize), (h.moduleOffset.toNat, h.moduleSize.toNat),
    (h.gotOffset.toNat, h.gotSize.toNat), (h.bssOffset.toNat, h.bssSize.toNat)]

/-- No byte lies in both. -/
def Apart (first second : Nat × Nat) : Prop :=
  first.2 = 0 ∨ second.2 = 0 ∨ first.1 + first.2 ≤ second.1 ∨ second.1 + second.2 ≤ first.1

/-- The sections of an image of this many bytes. -/
structure LaidOut (h : LfAbiHeader) (image : Nat) : Prop where
  aligned : ∀ part ∈ h.sections, part.1 % 4 = 0 ∧ part.2 % 4 = 0
  inRange : ∀ part ∈ h.sections, part.1 + part.2 ≤ image
  disjoint : h.sections.Pairwise Apart

def sectionWords (header offset size : BitVec 32) : List (BitVec 32) :=
  words (header + offset) (size.toNat / 4)

def added (patches : List Patch) : List (BitVec 32) :=
  patches.filterMap fun
    | .add address => some address
    | .zero _ => none

def zeroed (patches : List Patch) : List (BitVec 32) :=
  patches.filterMap fun
    | .add _ => none
    | .zero address => some address

/-- The load address goes to the words of `.module` and `.got`, once to each and to nothing
else, and the words of `.bss` are those cleared. -/
def Exact (header : BitVec 32) (h : LfAbiHeader) (patches : List Patch) : Prop :=
  (added patches).Perm
      (sectionWords header h.moduleOffset h.moduleSize ++
        sectionWords header h.gotOffset h.gotSize) ∧
    (zeroed patches).Perm (sectionWords header h.bssOffset h.bssSize)

def LfAbiHeader.patchedWords (header : BitVec 32) (h : LfAbiHeader) : List (BitVec 32) :=
  sectionWords header h.moduleOffset h.moduleSize ++ sectionWords header h.gotOffset h.gotSize ++
    sectionWords header h.bssOffset h.bssSize

/-- The pointers are relocated, `.bss` is clear and every other byte is as it was. -/
structure Relocated (header : BitVec 32) (h : LfAbiHeader) (memory after : AddressSpace 32) :
    Prop where
  pointers : ∀ address ∈ sectionWords header h.moduleOffset h.moduleSize ++
    sectionWords header h.gotOffset h.gotSize, after.word address = memory.word address + header
  bss : ∀ address ∈ sectionWords header h.bssOffset h.bssSize, after.word address = 0
  others : ∀ cell, (∀ address ∈ h.patchedWords header, 4 ≤ (cell - address).toNat) →
    after cell = memory cell

def Relocates (header : BitVec 32) (memory : AddressSpace 32) : Prop :=
  ∃ patches after, osLoadImage header memory = some (patches, after) ∧
    Exact header (abiHeader memory header) patches ∧
      Relocated header (abiHeader memory header) memory after

/-- Two adjacent sections whose scaled offsets wrap around the address space to where the
two lie together, in the other order. -/
def Swapped (offset size next more : Nat) : Prop :=
  next = offset + size ∧ 4 * next % 2 ^ 32 = offset ∧ 4 * offset % 2 ^ 32 = offset + more

/-- The three pointers are right where they matter. -/
def LfAbiHeader.Reachable (h : LfAbiHeader) : Prop :=
  (h.bssSize = 0 ∨ h.gotOffset = h.bssOffset) ∧
    (h.moduleSize = 0 ∧ h.gotSize = 0 ∨
      Swapped h.moduleOffset.toNat h.moduleSize.toNat h.gotOffset.toNat h.gotSize.toNat ∨
      Swapped h.gotOffset.toNat h.gotSize.toNat h.moduleOffset.toNat h.moduleSize.toNat)

/-! Words clear of the header leave it as it is. -/

/-- None of the four bytes at the address is one of the header's. -/
def Clear (header address : BitVec 32) : Prop :=
  abiHeaderSize ≤ (address - header).toNat ∧ (address - header).toNat + 4 ≤ 2 ^ 32

section Stable
variable {header : BitVec 32} {patch : Patch}

theorem Patch.apply_outside (memory : AddressSpace 32) {cell : BitVec 32}
    (outside : 4 ≤ (cell - patch.address).toNat) :
    patch.apply header memory cell = memory cell := by
  cases patch <;> exact AddressSpace.storeWord_outside memory _ outside

theorem word_apply (memory : AddressSpace 32) (clear : Clear header patch.address) {k : Nat}
    (inside : k + 4 ≤ abiHeaderSize) :
    (patch.apply header memory).word (header + BitVec.ofNat 32 k) =
      memory.word (header + BitVec.ofNat 32 k) := by
  apply AddressSpace.word_congr
  intro i less
  apply Patch.apply_outside
  obtain ⟨lower, upper⟩ := clear
  unfold abiHeaderSize at lower inside
  have ahead : header + BitVec.ofNat 32 k + BitVec.ofNat 32 i - patch.address =
      BitVec.ofNat 32 (k + i) - (patch.address - header) := by
    rw [BitVec.ofNat_add, sub_sub_eq_add_sub, add_comm _ header, ← add_assoc]
  rw [ahead, BitVec.toNat_sub, BitVec.toNat_ofNat]
  omega

theorem abiHeader_apply (memory : AddressSpace 32) (clear : Clear header patch.address) :
    abiHeader (patch.apply header memory) header = abiHeader memory header := by
  have fields : ∀ k, k + 4 ≤ abiHeaderSize →
      (patch.apply header memory).word (header + BitVec.ofNat 32 k) =
      memory.word (header + BitVec.ofNat 32 k) := fun k => word_apply memory clear
  have first := fields 0 (by decide)
  rw [show header + BitVec.ofNat 32 0 = header from BitVec.add_zero _] at first
  rw [abiHeader, abiHeader, LfAbiHeader.mk.injEq]
  exact ⟨first, fields 4 (by decide), fields 8 (by decide), fields 12 (by decide),
    fields 16 (by decide), fields 20 (by decide), fields 24 (by decide), fields 28 (by decide),
    fields 32 (by decide),
    fields 36 (by decide), fields 40 (by decide)⟩

theorem abiHeader_applyAll (header : BitVec 32) (patches : List Patch) (memory : AddressSpace 32)
    (clear : ∀ patch ∈ patches, Clear header patch.address) :
    abiHeader (Patch.applyAll header memory patches) header = abiHeader memory header := by
  induction patches generalizing memory with
  | nil => rfl
  | cons patch rest ih =>
    have later := ih (patch.apply header memory) fun patch member =>
      clear patch (List.mem_cons_of_mem _ member)
    exact later.trans (abiHeader_apply memory (clear patch List.mem_cons_self))

end Stable

namespace PatchLoop
variable (loop : PatchLoop) (header : BitVec 32)

/-- The turns a loop takes if the header does not change under it. -/
def planned (h : LfAbiHeader) : List Patch :=
  (words (header + loop.start h) ((loop.size h).toNat / 4)).map loop.patch

/-- A loop that stays clear of the header takes the turns it was going to take. -/
theorem turns_eq (first : BitVec 32) (left i : Nat) (memory : AddressSpace 32)
    (bound : (loop.size (abiHeader memory header)).toNat / 4 = count) (enough : count ≤ i + left)
    (clear : ∀ next ∈ loop.turns header first left i memory,
      next ∈ (List.range' i (count - i)).map
        (fun j => loop.patch (first + BitVec.ofNat 32 (4 * j))) →
        Clear header next.address) :
    loop.turns header first left i memory =
      (List.range' i (count - i)).map fun j => loop.patch (first + BitVec.ofNat 32 (4 * j)) := by
  induction left generalizing i memory with
  | zero =>
    rw [show count - i = 0 by omega]
    rfl
  | succ left ih =>
    rw [turns, bound] at clear ⊢
    by_cases more : i < count
    · rw [if_pos more] at clear ⊢
      rw [show count - i = count - (i + 1) + 1 by omega, List.range'_succ, List.map_cons] at clear ⊢
      have stable := abiHeader_apply memory (clear _ List.mem_cons_self List.mem_cons_self)
      dsimp only at clear ⊢
      rw [ih (i + 1) _ (by rw [stable, bound]) (by omega)]
      intro next made plan
      exact clear next (List.mem_cons_of_mem _ made) (List.mem_cons_of_mem _ plan)
    · rw [if_neg more, show count - i = 0 by omega]
      rfl

theorem run_planned (memory : AddressSpace 32)
    (clear : ∀ next ∈ loop.run header memory, next ∈ loop.planned header (abiHeader memory header) →
      Clear header next.address) :
    loop.run header memory = loop.planned header (abiHeader memory header) := by
  have bound := (loop.size (abiHeader memory header)).isLt
  have plan : loop.planned header (abiHeader memory header) =
      (List.range' 0 ((loop.size (abiHeader memory header)).toNat / 4 - 0)).map fun j =>
        loop.patch (header + loop.start (abiHeader memory header) + BitVec.ofNat 32 (4 * j)) := by
    rw [planned, words, List.map_map, List.range_eq_range', Nat.sub_zero]
    rfl
  rw [plan] at clear ⊢
  exact loop.turns_eq header _ (2 ^ 30) 0 memory rfl (by omega) clear

/-- Loops that stay clear of the header, as far as they keep to the plan, keep to it. -/
theorem runAll_planned (loops : List PatchLoop) (memory : AddressSpace 32)
    (clear : ∀ next ∈ runAll header loops memory,
      next ∈ loops.flatMap (planned · header (abiHeader memory header)) →
      Clear header next.address) :
    runAll header loops memory = loops.flatMap (planned · header (abiHeader memory header)) := by
  induction loops generalizing memory with
  | nil => rfl
  | cons loop rest ih =>
    rw [runAll, List.flatMap_cons] at clear ⊢
    have taken := loop.run_planned header memory fun next made plan =>
      clear next (List.mem_append_left _ made) (List.mem_append_left _ plan)
    have stable := abiHeader_applyAll header (loop.run header memory) memory fun next made =>
      clear next (List.mem_append_left _ made) (List.mem_append_left _ (taken ▸ made))
    have later := ih (Patch.applyAll header memory (loop.run header memory))
    rw [stable] at later
    rw [later fun next made plan =>
      clear next (List.mem_append_right _ made) (List.mem_append_right _ plan), taken]

end PatchLoop

/-! Where the words of a section lie, as distances from the header. -/

/-- The bytes from `start` on, around the address space. -/
def InArc (start length x : Nat) : Prop := (x + 2 ^ 32 - start % 2 ^ 32) % 2 ^ 32 < length

theorem mem_words_iff (header start size : BitVec 32) (x : Nat) (less : x < 2 ^ 32)
    (aligned : x % 4 = 0) (startAligned : start.toNat % 4 = 0) (sizeAligned : size.toNat % 4 = 0) :
    header + BitVec.ofNat 32 x ∈ words (header + start) (size.toNat / 4) ↔
      InArc start.toNat size.toNat x := by
  have sizeLess := size.isLt
  have startLess := start.isLt
  have distance : (header + BitVec.ofNat 32 x - (header + start)).toNat =
      (x + 2 ^ 32 - start.toNat % 2 ^ 32) % 2 ^ 32 := by
    rw [add_sub_add_left_eq_sub, BitVec.toNat_sub, BitVec.toNat_ofNat]
    omega
  rw [mem_words (by omega), distance, InArc]
  omega

section Arcs

/-- A word in the arc with the word before it outside is where the arc starts. -/
theorem InArc.start {start length x : Nat} (inside : InArc start length x)
    (outside : ¬InArc start length (x - 4)) (less : x < 2 ^ 32) (later : 4 ≤ x)
    (aligned : x % 4 = 0) (startAligned : start % 4 = 0) : start % 2 ^ 32 = x := by
  unfold InArc at inside outside
  have startLess : start % 2 ^ 32 < 2 ^ 32 := Nat.mod_lt _ (by decide)
  have scaled : start % 2 ^ 32 % 4 = 0 := by omega
  generalize start % 2 ^ 32 = s at *
  omega

/-- An arc that does not wrap is an interval. -/
theorem inArc_iff {start length x : Nat} (inside : start + length ≤ 2 ^ 32) (less : x < 2 ^ 32) :
    InArc start length x ↔ start ≤ x ∧ x < start + length := by
  unfold InArc
  by_cases whole : start = 2 ^ 32
  · omega
  · rw [Nat.mod_eq_of_lt (by omega : start < 2 ^ 32)]
    omega

/-- Distances prime to the length of the address space do not lead back. -/
theorem eq_zero_of_dvd {k p : Nat} (coprime : (2 ^ 32).Coprime k) (less : p < 2 ^ 32)
    (dvd : 2 ^ 32 ∣ k * p) : p = 0 :=
  Nat.eq_zero_of_dvd_of_lt (coprime.dvd_of_dvd_mul_left dvd) less

theorem scale_fixed {p : Nat} (less : p < 2 ^ 32) (fixed : 4 * p % 2 ^ 32 = p) : p = 0 := by
  refine eq_zero_of_dvd (k := 3) (by decide) less ⟨4 * p / 2 ^ 32, ?_⟩
  have whole := Nat.mod_add_div (4 * p) (2 ^ 32)
  rw [fixed] at whole
  generalize 2 ^ 32 * (4 * p / 2 ^ 32) = turns at whole ⊢
  clear fixed
  omega

theorem scale_exchange {p q : Nat} (less : p < 2 ^ 32) (there : 4 * p % 2 ^ 32 = q)
    (back : 4 * q % 2 ^ 32 = p) : p = 0 := by
  refine eq_zero_of_dvd (k := 15) (by decide) less ⟨4 * (4 * p / 2 ^ 32) + 4 * q / 2 ^ 32, ?_⟩
  have ahead := Nat.mod_add_div (4 * p) (2 ^ 32)
  have around := Nat.mod_add_div (4 * q) (2 ^ 32)
  rw [there] at ahead
  rw [back] at around
  rw [Nat.mul_add, Nat.mul_left_comm]
  generalize 2 ^ 32 * (4 * p / 2 ^ 32) = turns at ahead ⊢
  generalize 2 ^ 32 * (4 * q / 2 ^ 32) = more at around ⊢
  clear there back
  omega

theorem inArc_congr {start start' : Nat} (same : start % 2 ^ 32 = start' % 2 ^ 32)
    (length x : Nat) :
    InArc start length x ↔ InArc start' length x := by
  rw [InArc, InArc, same]

variable {p m q g : Nat}

/-- Where the first words of two adjacent sections are taken, the rest starts behind them. -/
theorem rest_start (aligned : p % 4 = 0 ∧ m % 4 = 0 ∧ g % 4 = 0) (positive : 0 < m) (more : 0 < g)
    (inside : p + m + g ≤ 2 ^ 32) (rest : InArc (4 * p) m (p + g) ∨ InArc p g (p + g))
    (last : ¬(InArc (4 * p) m (p + g - 4) ∧ InArc p g (p + g - 4))) :
    4 * p % 2 ^ 32 = p + g := by
  have taken : ∀ x < 2 ^ 32, (InArc p g x ↔ p ≤ x ∧ x < p + g) := fun x => inArc_iff (by omega)
  rw [taken _ (by omega)] at rest last
  have member := rest.resolve_right (by omega)
  have outside : ¬InArc (4 * p) m (p + g - 4) := fun both => last ⟨both, by omega⟩
  exact member.start outside (by omega) (by omega) (by omega) (by omega)

section Scaled
variable (aligned : p % 4 = 0 ∧ m % 4 = 0 ∧ q % 4 = 0 ∧ g % 4 = 0)
variable (inside : p + m ≤ 2 ^ 32) (inside' : q + g ≤ 2 ^ 32)
variable (same : ∀ x < 2 ^ 32, x % 4 = 0 →
  (InArc p m x ∨ InArc q g x ↔ InArc (4 * p) m x ∨ InArc (4 * q) g x))

include aligned inside inside' same

/-- A word of one of the sections behind a gap is where a scaled one starts. -/
theorem scaled_start (x : Nat) (less : x < 2 ^ 32) (later : 4 ≤ x) (multiple : x % 4 = 0)
    (member : p ≤ x ∧ x < p + m ∨ q ≤ x ∧ x < q + g)
    (gap : ¬(p ≤ x - 4 ∧ x - 4 < p + m ∨ q ≤ x - 4 ∧ x - 4 < q + g)) :
    4 * p % 2 ^ 32 = x ∨ 0 < g ∧ 4 * q % 2 ^ 32 = x := by
  rw [← inArc_iff inside less, ← inArc_iff inside' less, same x less multiple] at member
  rw [← inArc_iff inside (by omega), ← inArc_iff inside' (by omega),
    same (x - 4) (by omega) (by omega), not_or] at gap
  rcases member with member | member
  · exact .inl (member.start gap.1 less later multiple (by omega))
  · exact .inr ⟨Nat.zero_lt_of_lt member, member.start gap.2 less later multiple (by omega)⟩

/-- The lower of two sections that keep their words under scaling is reached through the
other one, which lies right behind it. -/
theorem scaled_adjacent (positive : 0 < m) (clear : 44 ≤ p) (order : g = 0 ∨ p + m ≤ q) :
    0 < g ∧ q = p + m ∧ 4 * q % 2 ^ 32 = p := by
  have start := scaled_start aligned inside inside' same
  have less : p < 2 ^ 32 := by omega
  have apart : p ≠ 0 := by omega
  have lower := start p less (by omega) aligned.1 (by omega) (by omega)
  obtain ⟨more, behind⟩ := lower.resolve_left fun own => apart (scale_fixed less own)
  refine ⟨more, ?_, behind⟩
  by_contra gap
  have upper : q < 2 ^ 32 ∧ (4 * p % 2 ^ 32 = q ∨ 0 < g ∧ 4 * q % 2 ^ 32 = q) := by
    clear lower behind
    exact ⟨by omega, start q (by omega) (by omega) aligned.2.2.1 (by omega) (by omega)⟩
  obtain ⟨below, exchanged | ⟨_, fixed⟩⟩ := upper
  · exact apart (scale_exchange less exchanged behind)
  · exact apart (behind.symm.trans (fixed.trans (scale_fixed below fixed)))

theorem swapped_of_arcs (positive : 0 < m) (clear : 44 ≤ p) (order : g = 0 ∨ p + m ≤ q)
    (once : ∀ x < 2 ^ 32, x % 4 = 0 → ¬(InArc (4 * p) m x ∧ InArc (4 * q) g x)) :
    Swapped p m q g := by
  obtain ⟨more, adjacent, behind⟩ :=
    scaled_adjacent aligned inside inside' same positive clear order
  have less : p < 2 ^ 32 := by omega
  have second : ∀ x, InArc (4 * q) g x ↔ InArc p g x :=
    inArc_congr (behind.trans (Nat.mod_eq_of_lt less).symm) g
  refine ⟨adjacent, behind, ?_⟩
  clear behind
  have rest := same (p + g) (by omega) (by omega)
  have last := once (p + g - 4) (by omega) (by omega)
  rw [second] at rest last
  rw [inArc_iff inside (by omega), inArc_iff inside' (by omega)] at rest
  exact rest_start ⟨aligned.1, aligned.2.1, aligned.2.2.2⟩ positive more (by omega)
    (rest.mp (by omega)) last

end Scaled

/-- Two sections keep their words under scaling only if they have none, or wrap. -/
theorem swapped_or_empty (aligned : p % 4 = 0 ∧ m % 4 = 0 ∧ q % 4 = 0 ∧ g % 4 = 0)
    (inside : p + m ≤ 2 ^ 32) (inside' : q + g ≤ 2 ^ 32) (clear : m = 0 ∨ 44 ≤ p)
    (clear' : g = 0 ∨ 44 ≤ q) (apart : Apart (p, m) (q, g))
    (same : ∀ x < 2 ^ 32, x % 4 = 0 →
      (InArc p m x ∨ InArc q g x ↔ InArc (4 * p) m x ∨ InArc (4 * q) g x))
    (once : ∀ x < 2 ^ 32, x % 4 = 0 → ¬(InArc (4 * p) m x ∧ InArc (4 * q) g x)) :
    m = 0 ∧ g = 0 ∨ Swapped p m q g ∨ Swapped q g p m := by
  unfold Apart at apart
  dsimp only at apart
  by_cases lower : 0 < m ∧ (g = 0 ∨ p + m ≤ q)
  · right; left
    exact swapped_of_arcs aligned inside inside' same lower.1 (by omega) lower.2 once
  · by_cases upper : 0 < g
    · right; right
      refine swapped_of_arcs ⟨aligned.2.2.1, aligned.2.2.2, aligned.1, aligned.2.1⟩ inside' inside
        ?_ upper
        (by omega) (by omega) ?_
      · intro x less multiple
        rw [Or.comm, same x less multiple, Or.comm]
      · intro x less multiple both
        exact once x less multiple both.symm
    · left
      omega

end Arcs

/-! The layout of the sections. -/

/-- What the layout says of one section. -/
structure Placed (offset size : Nat) : Prop where
  offsetAligned : offset % 4 = 0
  sizeAligned : size % 4 = 0
  inside : offset + size ≤ 2 ^ 32
  clear : size = 0 ∨ 44 ≤ offset

section Layout
variable {h : LfAbiHeader}

theorem LaidOut.placed (laidOut : LaidOut h image) (short : image ≤ 2 ^ 32) {part : Nat × Nat}
    (member : part ∈ h.sections.tail) : Placed part.1 part.2 := by
  have listed : part ∈ h.sections := List.mem_of_mem_tail member
  have aligned := laidOut.aligned part listed
  have inRange := laidOut.inRange part listed
  have apart := (List.pairwise_cons.mp laidOut.disjoint).1 part member
  unfold Apart abiHeaderSize at apart
  exact ⟨aligned.1, aligned.2, by omega, by omega⟩

theorem LaidOut.apart (laidOut : LaidOut h image) :
    Apart (h.moduleOffset.toNat, h.moduleSize.toNat) (h.gotOffset.toNat, h.gotSize.toNat) ∧
      Apart (h.moduleOffset.toNat, h.moduleSize.toNat) (h.bssOffset.toNat, h.bssSize.toNat) ∧
        Apart (h.gotOffset.toNat, h.gotSize.toNat) (h.bssOffset.toNat, h.bssSize.toNat) := by
  obtain ⟨module, rest⟩ := List.pairwise_cons.mp (List.pairwise_cons.mp laidOut.disjoint).2
  exact ⟨module _ (.head _), module _ (.tail _ (.head _)),
    (List.pairwise_cons.mp rest).1 _ (.head _)⟩

section Placement
variable (laidOut : LaidOut h image) (short : image ≤ 2 ^ 32)

include laidOut short

theorem LaidOut.module : Placed h.moduleOffset.toNat h.moduleSize.toNat :=
  laidOut.placed short (.head _)

theorem LaidOut.got : Placed h.gotOffset.toNat h.gotSize.toNat :=
  laidOut.placed short (.tail _ (.head _))

theorem LaidOut.bss : Placed h.bssOffset.toNat h.bssSize.toNat :=
  laidOut.placed short (.tail _ (.tail _ (.head _)))

end Placement

variable (header : BitVec 32)

/-- A word of a section lies inside it. -/
theorem Placed.distance {offset size : BitVec 32} (placed : Placed offset.toNat size.toNat)
    (member : address ∈ sectionWords header offset size) :
    offset.toNat ≤ (address - header).toNat ∧
      (address - header).toNat + 4 ≤ offset.toNat + size.toNat ∧
      (address - header).toNat % 4 = 0 := by
  have sizeLess := size.isLt
  have split : address - (header + offset) = address - header - offset := sub_add_eq_sub_sub ..
  rw [sectionWords, mem_words (by omega), split, BitVec.toNat_sub] at member
  obtain ⟨offsetAligned, sizeAligned, inside, _⟩ := placed
  have less := (address - header).isLt
  omega

theorem Placed.clears {offset size : BitVec 32} (placed : Placed offset.toNat size.toNat)
    (member : address ∈ sectionWords header offset size) : Clear header address := by
  obtain ⟨lower, upper, _⟩ := placed.distance header member
  have inside := placed.inside
  have clear := placed.clear
  rw [Clear, abiHeaderSize]
  omega

theorem mem_sectionWords {offset size : BitVec 32} (placed : Placed offset.toNat size.toNat)
    {x : Nat} (less : x < 2 ^ 32) (aligned : x % 4 = 0) :
    header + BitVec.ofNat 32 x ∈ sectionWords header offset size ↔
    InArc offset.toNat size.toNat x :=
  mem_words_iff header offset size x less aligned placed.offsetAligned placed.sizeAligned

/-- Where a scaled offset leads. -/
theorem mem_scaledWords {offset size : BitVec 32} (placed : Placed offset.toNat size.toNat)
    {x : Nat} (less : x < 2 ^ 32) (aligned : x % 4 = 0) :
    header + BitVec.ofNat 32 x ∈ sectionWords header (4 * offset) size ↔
      InArc (4 * offset.toNat) size.toNat x := by
  have scaled : (4 * offset).toNat = 4 * offset.toNat % 2 ^ 32 := BitVec.toNat_mul 4 offset
  rw [sectionWords, mem_words_iff header (4 * offset) size x less aligned
    (by omega) placed.sizeAligned]
  exact inArc_congr (by rw [scaled, Nat.mod_mod]) _ _

theorem sectionWords_nodup (offset size : BitVec 32) : (sectionWords header offset size).Nodup := by
  have sizeLess := size.isLt
  exact words_nodup _ (by omega)

/-- The words behind a section are those of the section behind it. -/
theorem sectionWords_append {offset size next more : BitVec 32} (sizeAligned : size.toNat % 4 = 0)
    (adjacent : next = offset + size) :
    sectionWords header offset size ++ sectionWords header next more =
      words (header + offset) (size.toNat / 4 + more.toNat / 4) := by
  rw [words_append, show 4 * (size.toNat / 4) = size.toNat by omega, BitVec.ofNat_toNat,
    BitVec.setWidth_eq, adjacent]
  rw [sectionWords, sectionWords, add_assoc]

section Sections
variable {offset size offset' size' : BitVec 32} (placed : Placed offset.toNat size.toNat)
variable (placed' : Placed offset'.toNat size'.toNat)

include placed placed' in
theorem sections_disjoint (apart : Apart (offset.toNat, size.toNat) (offset'.toNat, size'.toNat)) :
    (sectionWords header offset size).Disjoint (sectionWords header offset' size') := by
  intro address first second
  have lies := placed.distance header first
  have lies' := placed'.distance header second
  unfold Apart at apart
  omega

include placed placed' in
theorem sections_nodup (apart : Apart (offset.toNat, size.toNat) (offset'.toNat, size'.toNat)) :
    (sectionWords header offset size ++ sectionWords header offset' size').Nodup :=
  List.Nodup.append (sectionWords_nodup _ _ _) (sectionWords_nodup _ _ _)
    (sections_disjoint header placed placed' apart)

include placed placed' in
/-- Sections that wrap as they should have their words reached, in the other order. -/
theorem swapped_perm (swapped : Swapped offset.toNat size.toNat offset'.toNat size'.toNat) :
    (sectionWords header (4 * offset) size ++ sectionWords header (4 * offset') size').Perm
      (sectionWords header offset size ++ sectionWords header offset' size') := by
  obtain ⟨adjacent, behind, ahead⟩ := swapped
  have next : offset' = offset + size := by
    apply BitVec.eq_of_toNat_eq
    rw [BitVec.toNat_add, ← adjacent, Nat.mod_eq_of_lt offset'.isLt]
  have first : 4 * offset' = offset :=
    BitVec.eq_of_toNat_eq ((BitVec.toNat_mul 4 offset').trans behind)
  have second : 4 * offset = offset + size' := by
    apply BitVec.eq_of_toNat_eq
    have less : 4 * offset.toNat % 2 ^ 32 < 2 ^ 32 := Nat.mod_lt _ (by decide)
    rw [BitVec.toNat_add, ← ahead, Nat.mod_eq_of_lt less]
    exact BitVec.toNat_mul 4 offset
  rw [sectionWords_append header placed.sizeAligned next, first, second, Nat.add_comm,
    ← sectionWords_append header placed'.sizeAligned rfl]
  exact List.perm_append_comm

include placed placed' in
theorem scaled_perm_iff (apart : Apart (offset.toNat, size.toNat) (offset'.toNat, size'.toNat)) :
    (sectionWords header (4 * offset) size ++ sectionWords header (4 * offset') size').Perm
        (sectionWords header offset size ++ sectionWords header offset' size') ↔
      size = 0 ∧ size' = 0 ∨ Swapped offset.toNat size.toNat offset'.toNat size'.toNat ∨
        Swapped offset'.toNat size'.toNat offset.toNat size.toNat := by
  constructor
  · intro perm
    have nodup := perm.nodup_iff.mpr (sections_nodup header placed placed' apart)
    have cases := swapped_or_empty
      ⟨placed.offsetAligned, placed.sizeAligned, placed'.offsetAligned, placed'.sizeAligned⟩
      placed.inside placed'.inside placed.clear placed'.clear apart
      (fun x less aligned => by
        have member := perm.mem_iff (a := header + BitVec.ofNat 32 x)
        rw [List.mem_append, List.mem_append, mem_scaledWords header placed less aligned,
          mem_scaledWords header placed' less aligned, mem_sectionWords header placed less aligned,
          mem_sectionWords header placed' less aligned] at member
        exact member.symm)
      (fun x less aligned both => by
        rw [← mem_scaledWords header placed less aligned,
          ← mem_scaledWords header placed' less aligned] at both
        exact (List.nodup_append.mp nodup).2.2 _ both.1 _ both.2 rfl)
    refine cases.imp_left fun empty => ⟨?_, ?_⟩
    · exact BitVec.eq_of_toNat_eq empty.1
    · exact BitVec.eq_of_toNat_eq empty.2
  · rintro (⟨rfl, rfl⟩ | swapped | swapped)
    · exact List.Perm.refl _
    · exact swapped_perm header placed placed' swapped
    · exact List.perm_append_comm.trans
        ((swapped_perm header placed' placed swapped).trans List.perm_append_comm)

include placed in
/-- Words taken from another offset are the right ones only if there are none. -/
theorem moved_perm_iff (aligned : offset'.toNat % 4 = 0) :
    (sectionWords header offset' size).Perm (sectionWords header offset size) ↔
      size = 0 ∨ offset' = offset := by
  constructor
  · intro perm
    by_cases empty : size = 0
    · exact .inl empty
    · right
      have positive : size.toNat ≠ 0 := fun zero => empty (BitVec.eq_of_toNat_eq zero)
      obtain ⟨offsetAligned, sizeAligned, inside, clear⟩ := placed
      have same : ∀ x < 2 ^ 32, x % 4 = 0 →
          (InArc offset'.toNat size.toNat x ↔ offset.toNat ≤ x ∧
            x < offset.toNat + size.toNat) := by
        intro x less multiple
        have member := perm.mem_iff (a := header + BitVec.ofNat 32 x)
        rwa [sectionWords, sectionWords,
          mem_words_iff header _ _ _ less multiple aligned sizeAligned,
          mem_words_iff header _ _ _ less multiple offsetAligned sizeAligned,
          inArc_iff inside less] at member
      have first := (same offset.toNat (by omega) offsetAligned).mpr (by omega)
      have before := (same (offset.toNat - 4) (by omega) (by omega)).not.mpr (by omega)
      have start := first.start before (by omega) (by omega) offsetAligned aligned
      rw [Nat.mod_eq_of_lt offset'.isLt] at start
      exact BitVec.eq_of_toNat_eq start
  · rintro (rfl | rfl)
    · exact List.Perm.refl _
    · exact List.Perm.refl _

end Sections

end Layout

/-! The loader. -/

section Load
variable {header : BitVec 32} {memory : AddressSpace 32}

def plannedAll (header : BitVec 32) (h : LfAbiHeader) : List Patch :=
  [functionsLoop, gotLoop, bssLoop].flatMap (PatchLoop.planned · header h)

theorem plannedAll_eq (header : BitVec 32) (h : LfAbiHeader) :
    plannedAll header h =
      (sectionWords header (4 * h.moduleOffset) h.moduleSize).map .add ++
        ((sectionWords header (4 * h.gotOffset) h.gotSize).map .add ++
          (sectionWords header h.gotOffset h.bssSize).map .zero) := by
  simp only [plannedAll, List.flatMap_cons, List.flatMap_nil, List.append_nil]
  rfl

theorem added_append (first second : List Patch) :
    added (first ++ second) = added first ++ added second :=
  List.filterMap_append

theorem zeroed_append (first second : List Patch) :
    zeroed (first ++ second) = zeroed first ++ zeroed second :=
  List.filterMap_append

@[simp] theorem added_add (addresses : List (BitVec 32)) :
    added (addresses.map .add) = addresses := by
  simp [added, List.filterMap_map]

@[simp] theorem added_zero (addresses : List (BitVec 32)) : added (addresses.map .zero) = [] := by
  simp [added, List.filterMap_map]

@[simp] theorem zeroed_add (addresses : List (BitVec 32)) : zeroed (addresses.map .add) = [] := by
  simp [zeroed, List.filterMap_map]

@[simp] theorem zeroed_zero (addresses : List (BitVec 32)) :
    zeroed (addresses.map .zero) = addresses := by
  simp [zeroed, List.filterMap_map]

theorem added_planned (header : BitVec 32) (h : LfAbiHeader) :
    added (plannedAll header h) = sectionWords header (4 * h.moduleOffset) h.moduleSize ++
      sectionWords header (4 * h.gotOffset) h.gotSize := by
  simp [plannedAll_eq, added_append]

theorem zeroed_planned (header : BitVec 32) (h : LfAbiHeader) :
    zeroed (plannedAll header h) = sectionWords header h.gotOffset h.bssSize := by
  simp [plannedAll_eq, zeroed_append]

theorem mem_patches {patches : List Patch} {patch : Patch} (member : patch ∈ patches) :
    patch.address ∈ added patches ∨ patch.address ∈ zeroed patches := by
  cases patch with
  | add address => exact .inl (List.mem_filterMap.mpr ⟨_, member, rfl⟩)
  | zero address => exact .inr (List.mem_filterMap.mpr ⟨_, member, rfl⟩)

section Exact
variable {h : LfAbiHeader} (laidOut : LaidOut h image) (short : image ≤ 2 ^ 32)

include laidOut short

/-- Patches that are exact do not touch the header. -/
theorem Exact.clear (exact : Exact header h patches) :
    ∀ patch ∈ patches, Clear header patch.address := by
  intro patch member
  rcases mem_patches member with add | zero
  · rcases List.mem_append.mp (exact.1.mem_iff.mp add) with module | got
    · exact (laidOut.module short).clears header module
    · exact (laidOut.got short).clears header got
  · exact (laidOut.bss short).clears header (exact.2.mem_iff.mp zero)

theorem exact_planned_iff (header : BitVec 32) : Exact header h (plannedAll header h) ↔
    h.Reachable := by
  rw [Exact, added_planned, zeroed_planned,
    scaled_perm_iff header (laidOut.module short) (laidOut.got short) laidOut.apart.1,
    moved_perm_iff header (laidOut.bss short) (laidOut.got short).offsetAligned, and_comm]
  rfl

end Exact

/-! What exact patches leave in memory. -/

def Patch.value (header : BitVec 32) (old : BitVec 32) : Patch → BitVec 32
  | .add _ => old + header
  | .zero _ => 0

def Separate (address other : BitVec 32) : Prop :=
  4 ≤ (address - other).toNat ∧ 4 ≤ (other - address).toNat

theorem four_le_distance {x y : BitVec 32} (aligned : x.toNat % 4 = 0) (aligned' : y.toNat % 4 = 0)
    (distinct : x ≠ y) : 4 ≤ (x - y).toNat := by
  have numbers : x.toNat ≠ y.toNat := fun same => distinct (BitVec.eq_of_toNat_eq same)
  rw [BitVec.toNat_sub]
  omega

theorem separate_of_ne {address other : BitVec 32} (aligned : (address - header).toNat % 4 = 0)
    (aligned' : (other - header).toNat % 4 = 0) (distinct : address ≠ other) :
    Separate address other := by
  have distances : address - header ≠ other - header := fun same => distinct (sub_left_inj.mp same)
  rw [Separate, ← sub_sub_sub_cancel_right address other header,
    ← sub_sub_sub_cancel_right other address header]
  exact ⟨four_le_distance aligned aligned' distances,
    four_le_distance aligned' aligned distances.symm⟩

theorem applyAll_outside (patches : List Patch) (memory : AddressSpace 32) {cell : BitVec 32}
    (outside : ∀ patch ∈ patches, 4 ≤ (cell - patch.address).toNat) :
    Patch.applyAll header memory patches cell = memory cell := by
  induction patches generalizing memory with
  | nil => rfl
  | cons patch rest ih =>
    exact (ih (patch.apply header memory) fun patch member =>
      outside patch (List.mem_cons_of_mem _ member)).trans
      (Patch.apply_outside memory (outside patch List.mem_cons_self))

theorem word_applyAll_outside (patches : List Patch) (memory : AddressSpace 32)
    {address : BitVec 32} (separate : ∀ patch ∈ patches, Separate address patch.address) :
    (Patch.applyAll header memory patches).word address = memory.word address := by
  apply AddressSpace.word_congr
  intro i less
  apply applyAll_outside
  intro patch member
  obtain ⟨ahead, back⟩ := separate patch member
  have around : patch.address - address = -(address - patch.address) := (neg_sub ..).symm
  rw [around, BitVec.toNat_neg] at back
  rw [add_sub_right_comm, BitVec.toNat_add, BitVec.toNat_ofNat]
  omega

theorem word_apply_self (patch : Patch) (memory : AddressSpace 32) :
    (patch.apply header memory).word patch.address =
    patch.value header (memory.word patch.address) := by
  cases patch <;> exact AddressSpace.word_storeWord memory _ (by decide)

/-- Patches of separate words each find their word as it was. -/
theorem word_applyAll (header : BitVec 32) {patches : List Patch} (memory : AddressSpace 32)
    (member : patch ∈ patches)
    (separate : patches.Pairwise fun first second => Separate first.address second.address) :
    (Patch.applyAll header memory patches).word patch.address =
      patch.value header (memory.word patch.address) := by
  induction patches generalizing memory with
  | nil => cases member
  | cons next rest ih =>
    obtain ⟨apart, separate⟩ := List.pairwise_cons.mp separate
    rcases List.mem_cons.mp member with rfl | later
    · exact (word_applyAll_outside rest _ apart).trans (word_apply_self patch memory)
    · have kept : (next.apply header memory).word patch.address = memory.word patch.address := by
        refine word_applyAll_outside [next] memory fun other only => ?_
        rw [List.mem_singleton.mp only]
        exact (apart patch later).symm
      exact (ih _ later separate).trans (by rw [kept])

theorem addresses_perm (patches : List Patch) :
    (patches.map Patch.address).Perm (added patches ++ zeroed patches) := by
  induction patches with
  | nil => exact List.Perm.refl _
  | cons patch rest ih =>
    cases patch with
    | add address => exact ih.cons address
    | zero address => exact (ih.cons address).trans List.perm_middle.symm

section Patched
variable {h : LfAbiHeader} (laidOut : LaidOut h image) (short : image ≤ 2 ^ 32)

include laidOut short

theorem patchedWords_nodup (header : BitVec 32) : (h.patchedWords header).Nodup := by
  have module := laidOut.module short
  have got := laidOut.got short
  have bss := laidOut.bss short
  obtain ⟨moduleGot, moduleBss, gotBss⟩ := laidOut.apart
  refine List.Nodup.append (sections_nodup header module got moduleGot)
    (sectionWords_nodup _ _ _) ?_
  exact List.disjoint_append_left.mpr
    ⟨sections_disjoint header module bss moduleBss, sections_disjoint header got bss gotBss⟩

theorem patchedWords_aligned (header : BitVec 32) :
    ∀ address ∈ h.patchedWords header, (address - header).toNat % 4 = 0 := by
  intro address member
  rcases List.mem_append.mp member with pointers | bss
  · rcases List.mem_append.mp pointers with module | got
    · exact ((laidOut.module short).distance header module).2.2
    · exact ((laidOut.got short).distance header got).2.2
  · exact ((laidOut.bss short).distance header bss).2.2

/-- Exact patches are patches of separate words. -/
theorem Exact.separate (exact : Exact header h patches) :
    patches.Pairwise fun first second => Separate first.address second.address := by
  have perm : (patches.map Patch.address).Perm (h.patchedWords header) :=
    (addresses_perm patches).trans (exact.1.append exact.2)
  have distinct := perm.nodup_iff.mpr (patchedWords_nodup laidOut short header)
  have aligned : ∀ patch ∈ patches, (patch.address - header).toNat % 4 = 0 := fun patch member =>
    patchedWords_aligned laidOut short header _ (perm.mem_iff.mp (List.mem_map_of_mem member))
  refine (List.pairwise_map.mp distinct).imp_of_mem fun first second different => ?_
  exact separate_of_ne (aligned _ first) (aligned _ second) different

theorem Exact.relocated (exact : Exact header h patches) (memory : AddressSpace 32) :
    Relocated header h memory (Patch.applyAll header memory patches) := by
  have separate := exact.separate laidOut short
  refine ⟨fun address member => ?_, fun address member => ?_, fun cell outside => ?_⟩
  · obtain ⟨patch, made, found⟩ := List.mem_filterMap.mp (exact.1.mem_iff.mpr member)
    cases patch with
    | add _ =>
      cases found
      have patched := word_applyAll header memory made separate
      simpa only [Patch.address, Patch.value] using patched
    | zero _ => cases found
  · obtain ⟨patch, made, found⟩ := List.mem_filterMap.mp (exact.2.mem_iff.mpr member)
    cases patch with
    | add _ => cases found
    | zero _ =>
      cases found
      have patched := word_applyAll header memory made separate
      simpa only [Patch.address, Patch.value] using patched
  · refine applyAll_outside patches memory fun patch member => outside _ ?_
    exact ((addresses_perm patches).trans (exact.1.append exact.2)).mem_iff.mp
      (List.mem_map_of_mem member)

end Patched

/-- The image is patched where it should be only if neither section with pointers has a
word and `.bss` is empty or starts where the other begins, or if the sections are so large
that the scaled offsets wrap around to them. -/
theorem osLoadImage_relocates_iff (header : BitVec 32) (memory : AddressSpace 32) (image : Nat)
    (loaded : header ≠ 0) (fits : header.toNat + image ≤ 2 ^ 32)
    (laidOut : LaidOut (abiHeader memory header) image) :
    Relocates header memory ↔ (abiHeader memory header).Reachable := by
  have short : image ≤ 2 ^ 32 := by omega
  rw [← exact_planned_iff laidOut short header]
  have run : osLoadImage header memory =
      some (PatchLoop.runAll header [functionsLoop, gotLoop, bssLoop] memory,
        Patch.applyAll header memory
          (PatchLoop.runAll header [functionsLoop, gotLoop, bssLoop] memory)) :=
    if_neg loaded
  have plan := PatchLoop.runAll_planned header [functionsLoop, gotLoop, bssLoop] memory
  constructor
  · rintro ⟨patches, after, ran, exact, _⟩
    rw [run] at ran
    cases ran
    have clear := exact.clear laidOut short
    rwa [plan fun patch made _ => clear patch made] at exact
  · intro exact
    have clear := exact.clear laidOut short
    have taken : _ = plannedAll header (abiHeader memory header) :=
      plan fun patch _ planned => clear patch planned
    rw [← taken] at exact
    exact ⟨_, _, run, exact, exact.relocated laidOut short memory⟩

/-- An image of 48 bytes at the start of the RAM: a header and one function pointer. -/
def smallImage : AddressSpace 32 :=
  (AddressSpace.storeWord (fun _ => 0) 0x2000000C 4).storeWord 0x20000010 44

theorem smallImage_header :
    abiHeader smallImage 0x20000000 = ⟨0, 0, 0, 4, 44, 0, 0, 0, 0, 0, 0⟩ := by
  decide +kernel

theorem smallImage_laidOut : LaidOut (abiHeader smallImage 0x20000000) 48 := by
  rw [smallImage_header]
  refine ⟨by decide, by decide, ?_⟩
  simp [LfAbiHeader.sections, Apart, abiHeaderSize]

theorem smallImage_relocates_iff :
    Relocates 0x20000000 smallImage ↔ (abiHeader smallImage 0x20000000).Reachable :=
  osLoadImage_relocates_iff 0x20000000 smallImage 48 (by decide) (by decide) smallImage_laidOut

/-- The pointer at offset 44 stays as it is; the word at offset 176, outside the image, is
changed in its place. -/
theorem smallImage_not_relocated :
    LaidOut (abiHeader smallImage 0x20000000) 48 ∧
      (osLoadImage 0x20000000 smallImage).map Prod.fst = some [.add 0x200000B0] ∧
        ¬Relocates 0x20000000 smallImage := by
  have ran : (osLoadImage 0x20000000 smallImage).map Prod.fst = some [.add 0x200000B0] := by
    decide +kernel
  refine ⟨smallImage_laidOut, ran, ?_⟩
  rintro ⟨patches, after, run, exact, _⟩
  rw [run, Option.map_some, Option.some.injEq] at ran
  dsimp only at ran
  have first := exact.1.mem_iff (a := 0x2000002C)
  rw [ran, smallImage_header] at first
  exact absurd (first.mpr (by decide)) (by decide)

end Load

end Flipper.Os
