import Flipper.Assembly.Thumb
import Flipper.Fdfu.SamTransfer
import Mathlib.Data.List.GetD

/-! The flash applet of `utils/fdfu`: the machine code that `main` uploads, the words it writes
into it, and what the processor makes of it page after page. -/
namespace Flipper.Fdfu
open Binary Assembly.Thumb StateTransition

/-- The bytes of `assets/copy_sam4s.s`. -/
def applet : List Byte := [
  0x00, 0x00, 0x00, 0x00, 0x00, 0x00, 0x00, 0x00, 0x09, 0x48, 0x0A, 0x49, 0x0B, 0x4A, 0x02, 0xE0,
  0x08, 0xC9, 0x08, 0xC0, 0x01, 0x3A, 0x00, 0x2A, 0xFA, 0xD1, 0x09, 0x48, 0x0A, 0x49, 0x06, 0x4A,
  0x11, 0x43, 0x01, 0x60, 0x70, 0x47, 0x00, 0xBF, 0xAF, 0xF3, 0x00, 0x80, 0xAF, 0xF3, 0x00, 0x80,
  0x00, 0x00, 0x00, 0x00, 0x00, 0x00, 0x00, 0x00, 0x00, 0x00, 0x00, 0x00, 0x80, 0x00, 0x00, 0x00,
  0x04, 0x0A, 0x0E, 0x40, 0x08, 0x0A, 0x0E, 0x40, 0x01, 0x00, 0x00, 0x5A]

theorem applet_length : applet.length = 76 := rfl

def iramAddr : Word := 0x20000000

def iramSize : Word := 0x20000

def appletAddr : Word := iramAddr + 0x800

def appletStack : Word := appletAddr

def appletEntry : Word := appletAddr + 0x04

def appletDestination : Word := appletAddr + 0x30

def appletSource : Word := appletDestination + 0x04

def appletPage : Word := appletSource + 0x04

def pageBuffer : Word := appletAddr + BitVec.ofNat 32 applet.length

def eefcFcr : Word := 0x400E0A04

/-- The word that `copy_sam4s.s` calls `ewp`: the key and the command to write a page. -/
def ewp : Word := 0x5A000001

def eefcFcrFarg (value : Nat) : Word := 0xFFFF00 &&& BitVec.ofNat 32 value <<< 8

/-- The words that `main` writes into the applet once. -/
def configureApplet (memory : AddressSpace 32) : AddressSpace 32 :=
  let memory := memory.storeWord appletStack (iramAddr + iramSize)
  let memory := memory.storeWord appletEntry (appletAddr + 0x09)
  let memory := memory.storeWord appletDestination iflash0Addr
  memory.storeWord appletSource pageBuffer

/-- `sam_ba_jump` to the applet: the monitor goes on at its entry. -/
def jumpApplet (fuel : Nat) (monitor : Cpu) (memory : AddressSpace 32) : Option (AddressSpace 32) :=
  (call (monitor.reg lr &&& ~~~1) fuel
    { monitor with pc := memory.word appletEntry &&& ~~~1, memory }).map Cpu.memory

/-- A command to the flash controller and the words that wait for it. -/
structure FlashWrite where
  command : Word
  latch : List Byte
  deriving DecidableEq

/-- What `sam_ba_copy` returns, and the memory after it. -/
abbrev Copy := AddressSpace 32 → Word → List Byte → Status × AddressSpace 32

structure Programming where
  writes : List FlashWrite
  /-- `main` came to the end of its loop and not to the label `fail`. -/
  finished : Bool
  deriving DecidableEq

section Main
variable (fuel : Nat) (monitor : Nat → AddressSpace 32 → Cpu) (copy : Nat → Copy)

/-- The loop of `main` over the pages; `monitor` is the processor before each page, with what
the applet left of the memory. The status of the copy is asserted like a truth value. -/
def programPages (pagedata : List Byte) :
    (page left : Nat) → AddressSpace 32 → Option Programming
  | _, 0, _ => some ⟨[], true⟩
  | page, left + 1, memory =>
    let cpu := monitor page memory
    let data := (pagedata.drop (page * iflash0PageSize)).take iflash0PageSize
    let (e, memory) := copy (page + 1) cpu.memory pageBuffer data
    if !e.holds then some ⟨[], false⟩
    else do
      let memory ← jumpApplet fuel cpu (memory.storeWord appletPage (eefcFcrFarg page))
      let later ← programPages pagedata (page + 1) left memory
      return { later with
        writes := ⟨memory.word eefcFcr, memory.load iflash0Addr iflash0PageSize⟩ :: later.writes }

/-- `main` from the upload of the applet to the end of the loop. -/
def program (firmware : List Byte) (memory : AddressSpace 32) : Option Programming :=
  let (e, memory) := copy 0 memory appletAddr applet
  if !e.holds then some ⟨[], false⟩
  else programPages fuel monitor copy (loadPageData firmware firmware.length) 0
    (lfCeiling firmware.length iflash0PageSize) (configureApplet memory)

end Main

/-- Every copy arrives, whatever it returns. -/
def arriving (statuses : Nat → Status) (n : Nat) : Copy := fun memory destination data =>
  (statuses n, memory.store destination data)

def installApplet (memory : AddressSpace 32) : AddressSpace 32 :=
  configureApplet (memory.store appletAddr applet)

def uploadPage (memory : AddressSpace 32) (data : List Byte) (page : Nat) : AddressSpace 32 :=
  (memory.store pageBuffer data).storeWord appletPage (eefcFcrFarg page)

/-- The instructions of `copy_sam4s.s` with their offsets; the branches go to `check` and
`copy`. -/
def listing : List (Nat × Instr) := [
  (0x08, .ldrLiteral 0 0x24), (0x0A, .ldrLiteral 1 0x28), (0x0C, .ldrLiteral 2 0x2C), (0x0E, .b 4),
  (0x10, .ldmia 1 [3]), (0x12, .stmia 0 [3]), (0x14, .sub 2 1),
  (0x16, .cmp 2 0), (0x18, .bne (-12)),
  (0x1A, .ldrLiteral 0 0x24), (0x1C, .ldrLiteral 1 0x28), (0x1E, .ldrLiteral 2 0x18),
  (0x20, .orr 1 2), (0x22, .str 1 0 0), (0x24, .bx lr)]

/-- What every installed applet holds. -/
def image : AddressSpace 32 := installApplet fun _ => 0

def appletCell (i : Nat) : Word := appletAddr + BitVec.ofNat 32 i

theorem listing_fetched : ∀ line ∈ listing, fetch image (appletCell line.1) = some line.2 := by
  decide +kernel

/-- The applet is in place; its page number may be any. -/
def Installed (memory : AddressSpace 32) : Prop :=
  ∀ i < applet.length, (i < 0x38 ∨ 0x3C ≤ i) → memory (appletCell i) = image (appletCell i)

/-- Control can come back to the link: it names Thumb code outside the applet. -/
structure Linked (link : Word) : Prop where
  thumb : link.getLsbD 0
  away : applet.length ≤ ((link &&& ~~~1) - appletAddr).toNat

/-! The applet, the page buffer, the page in flash and the command register lie apart. -/

theorem cell_distance (base target : Word) (inside : i < 2 ^ 32) :
    (base + BitVec.ofNat 32 i - target).toNat =
      (2 ^ 32 - target.toNat + (base.toNat + i) % 2 ^ 32) % 2 ^ 32 := by
  rw [BitVec.toNat_sub, BitVec.toNat_add, BitVec.toNat_ofNat, Nat.mod_eq_of_lt inside]

theorem appletCell_apart (inside : i < applet.length + iflash0PageSize) :
    iflash0PageSize ≤ (appletCell i - iflash0Addr).toNat ∧ 4 ≤ (appletCell i - eefcFcr).toNat := by
  rw [applet_length, iflash0PageSize] at inside
  constructor
  · rw [appletCell, cell_distance _ _ (by omega), iflash0PageSize]
    change 512 ≤ (2 ^ 32 - 0x400000 + (0x20000800 + i) % 2 ^ 32) % 2 ^ 32
    omega
  · rw [appletCell, cell_distance _ _ (by omega)]
    change 4 ≤ (2 ^ 32 - 0x400E0A04 + (0x20000800 + i) % 2 ^ 32) % 2 ^ 32
    omega

theorem pageBuffer_cell (i : Nat) :
    pageBuffer + BitVec.ofNat 32 i = appletCell (applet.length + i) := by
  rw [pageBuffer, appletCell, BitVec.add_assoc, ← BitVec.ofNat_add]

section Installed
variable {memory : AddressSpace 32} (installed : Installed memory)
include installed

theorem Installed.congr {memory' : AddressSpace 32}
    (same : ∀ i < applet.length, (i < 0x38 ∨ 0x3C ≤ i) →
      memory' (appletCell i) = memory (appletCell i)) :
    Installed memory' := fun i inside apart =>
      (same i inside apart).trans (installed i inside apart)

theorem Installed.view (offset : Nat) (inside : offset + i < applet.length)
    (apart : offset + i < 0x38 ∨ 0x3C ≤ offset + i) :
    memory.view (appletCell offset) i = image.view (appletCell offset) i := by
  have bytes := installed (offset + i) inside apart
  rwa [appletCell, BitVec.ofNat_add, ← BitVec.add_assoc] at bytes

theorem Installed.word (offset : Nat) (inside : offset + 4 ≤ applet.length)
    (apart : offset + 4 ≤ 0x38 ∨ 0x3C ≤ offset) :
    memory.word (appletCell offset) = image.word (appletCell offset) :=
  AddressSpace.word_congr fun i less => installed.view offset (by omega) (by omega)

theorem Installed.fetched (listed : (offset, instruction) ∈ listing) :
    fetch memory (appletCell offset) = some instruction := by
  have inside : ∀ line ∈ listing, line.1 + 2 ≤ 0x38 := by decide
  have bound := inside _ listed
  have long : 0x38 ≤ applet.length := by decide
  rw [← listing_fetched _ listed, fetch, fetch]
  exact congrArg (fun number => decode (BitVec.ofNat 16 number))
    (leNat_congr fun i less => installed.view offset (by omega) (by omega))

end Installed

/-- The memory once the first words of the page buffer are in flash. -/
def copied (memory : AddressSpace 32) (count : Nat) : AddressSpace 32 := fun cell =>
  if (cell - iflash0Addr).toNat < 4 * count then memory (pageBuffer + (cell - iflash0Addr))
  else memory cell

section Copied
variable (memory : AddressSpace 32)

theorem copied_zero : copied memory 0 = memory := by
  funext cell
  exact if_neg (Nat.not_lt_zero _)

theorem copied_apart (few : count ≤ 128) (inside : i < applet.length + iflash0PageSize) :
    copied memory count (appletCell i) = memory (appletCell i) := by
  have apart := (appletCell_apart inside).1
  rw [iflash0PageSize] at apart
  exact if_neg (by omega)

theorem copied_installed (few : count ≤ 128) (installed : Installed memory) :
    Installed (copied memory count) :=
  installed.congr fun _ inside _ => copied_apart memory few (by omega)

/-- The word in the page buffer is not one that the copy overwrites. -/
theorem copied_succ (less : count < 128) : copied memory (count + 1) =
    (copied memory count).storeWord (iflash0Addr + BitVec.ofNat 32 (4 * count))
      ((copied memory count).word (pageBuffer + BitVec.ofNat 32 (4 * count))) := by
  have source : (copied memory count).word (pageBuffer + BitVec.ofNat 32 (4 * count)) =
      memory.word (pageBuffer + BitVec.ofNat 32 (4 * count)) := by
    refine AddressSpace.word_congr fun i inside => ?_
    rw [AddressSpace.view_add, AddressSpace.view_add, AddressSpace.view, AddressSpace.view,
      pageBuffer_cell]
    exact copied_apart memory less.le (by rw [iflash0PageSize]; omega)
  funext cell
  rw [source, AddressSpace.storeWord_word, copied, copied]
  have distance : (cell - (iflash0Addr + BitVec.ofNat 32 (4 * count))).toNat < 4 ↔
      4 * count ≤ (cell - iflash0Addr).toNat ∧ (cell - iflash0Addr).toNat < 4 * (count + 1) := by
    bv_omega
  have same : pageBuffer + BitVec.ofNat 32 (4 * count) +
      (cell - (iflash0Addr + BitVec.ofNat 32 (4 * count))) =
      pageBuffer + (cell - iflash0Addr) := by ring
  rw [same]
  by_cases before : (cell - iflash0Addr).toNat < 4 * count
  · rw [if_pos (by omega), if_neg (by omega), if_pos before]
  · rw [if_neg before]
    exact if_congr (by omega) rfl rfl

end Copied

/-! The run of the machine code. -/

theorem appletCell_next (offset : Nat) : appletCell offset + 2 = appletCell (offset + 2) := by
  rw [appletCell, appletCell, BitVec.ofNat_add, BitVec.add_assoc]
  rfl

theorem wordAddress_aligned {address : Word} (aligned : address.toNat % 4 = 0) (count : Nat) :
    (address + BitVec.ofNat 32 (4 * count)).toNat % 4 = 0 := by
  rw [BitVec.toNat_add, BitVec.toNat_ofNat]
  omega

theorem wordAddress_next (address : Word) (count : Nat) :
    address + BitVec.ofNat 32 (4 * count) + 4 = address + BitVec.ofNat 32 (4 * (count + 1)) := by
  rw [Nat.mul_succ, BitVec.ofNat_add, BitVec.add_assoc]
  rfl

/-- One line of the listing. -/
theorem line_step (cpu : Cpu) {after : Cpu} (installed : Installed cpu.memory)
    (linked : Linked link)
    (located : cpu.pc = appletCell offset) (listed : (offset, instruction) ∈ listing)
    (ran : exec instruction cpu = some after) : after ∈ step (link &&& ~~~1) cpu := by
  have inside : ∀ line ∈ listing, line.1 < applet.length := by decide
  refine step_fetched (fun same => ?_) (located ▸ installed.fetched listed) ran
  have distance : (appletCell offset - appletAddr).toNat = offset :=
    AddressSpace.offset_toNat appletAddr ((inside _ listed).trans (by decide))
  have away := linked.away
  rw [← same, located, distance] at away
  exact absurd (inside _ listed) (Nat.not_lt.mpr away)

/-- At the label `check`, with some words copied. -/
structure Copying (memory : AddressSpace 32) (link : Word) (count : Nat) (cpu : Cpu) : Prop where
  located : cpu.pc = appletCell 0x16
  target : cpu.reg 0 = iflash0Addr + BitVec.ofNat 32 (4 * count)
  source : cpu.reg 1 = pageBuffer + BitVec.ofNat 32 (4 * count)
  left : cpu.reg 2 = BitVec.ofNat 32 (128 - count)
  back : cpu.reg lr = link
  memory : cpu.memory = copied memory count

section Run
variable {memory : AddressSpace 32} {cpu : Cpu} (linked : Linked link)
include linked

theorem copying_start (installed : Installed cpu.memory) (located : cpu.pc = appletCell 0x08)
    (back : cpu.reg lr = link) :
    ∃ after, Reaches (step (link &&& ~~~1)) cpu after ∧ Copying cpu.memory link 0 after := by
  let first := (cpu.set 0 (cpu.memory.word (appletCell 0x30))).next
  let second := (first.set 1 (cpu.memory.word (appletCell 0x34))).next
  let third := (second.set 2 (cpu.memory.word (appletCell 0x3C))).next
  have at1 : first.pc = appletCell 0x0A := by
    rw [Cpu.next_pc, Cpu.set_pc, located, appletCell_next]
  have at2 : second.pc = appletCell 0x0C := by
    rw [Cpu.next_pc, Cpu.set_pc, at1, appletCell_next]
  have at3 : third.pc = appletCell 0x0E := by
    rw [Cpu.next_pc, Cpu.set_pc, at2, appletCell_next]
  have ran1 : exec (.ldrLiteral 0 0x24) cpu = some first := by
    rw [exec, located]
    rfl
  have ran2 : exec (.ldrLiteral 1 0x28) first = some second := by
    rw [exec, at1]
    rfl
  have ran3 : exec (.ldrLiteral 2 0x2C) second = some third := by
    rw [exec, at2]
    rfl
  have ran4 : exec (.b 4) third = some (third.branch 4) := rfl
  refine ⟨third.branch 4,
    .head (line_step cpu installed linked located (by decide) ran1)
      (.head (line_step first installed linked at1 (by decide) ran2)
        (.head (line_step second installed linked at2 (by decide) ran3)
          (.single (line_step third installed linked at3 (by decide) ran4)))), ?_, ?_, ?_, ?_,
            back, ?_⟩
  · rw [Cpu.branch_pc, at3]
    decide
  · have destination := installed.word 0x30 (by decide) (by decide)
    simp [third, second, first, destination]
    decide +kernel
  · have source := installed.word 0x34 (by decide) (by decide)
    simp [third, second, first, source]
    decide +kernel
  · have words := installed.word 0x3C (by decide) (by decide)
    simp [third, words]
    decide +kernel
  · exact (copied_zero _).symm

theorem copying_step (installed : Installed memory) (less : count < 128)
    (copying : Copying memory link count cpu) :
    ∃ after, Reaches (step (link &&& ~~~1)) cpu after ∧ Copying memory link (count + 1) after := by
  have held : Installed cpu.memory := copying.memory ▸ copied_installed memory less.le installed
  have more : cpu.reg 2 ≠ 0 := by
    rw [copying.left]
    bv_omega
  let compared : Cpu := { cpu with z := cpu.reg 2 == 0 : Cpu }.next
  let looped := compared.branch (-12)
  let loaded := ((looped.set 1 (looped.reg 1 + 4)).set 3 (looped.memory.word (looped.reg 1))).next
  have unchanged : looped.memory = cpu.memory := by rw [Cpu.branch_memory, Cpu.next_memory]
  have unchanged' : loaded.memory = cpu.memory := by
    rw [Cpu.next_memory, Cpu.set_memory, Cpu.set_memory, unchanged]
  let stored := (Cpu.set
    { loaded with memory := loaded.memory.storeWord (loaded.reg 0) (loaded.reg 3) } 0
    (loaded.reg 0 + 4)).next
  have at1 : compared.pc = appletCell 0x18 := by
    rw [Cpu.next_pc, copying.located, appletCell_next]
  have at2 : looped.pc = appletCell 0x10 := by
    rw [Cpu.branch_pc, at1]
    decide
  have at3 : loaded.pc = appletCell 0x12 := by
    rw [Cpu.next_pc, Cpu.set_pc, Cpu.set_pc, at2, appletCell_next]
  have at4 : stored.pc = appletCell 0x14 := by
    rw [Cpu.next_pc, Cpu.set_pc, at3, appletCell_next]
  have ran1 : exec (.cmp 2 0) cpu = some compared := rfl
  have ran2 : exec (.bne (-12)) compared = some looped := by
    have unset : compared.z = false := beq_eq_false_iff_ne.mpr more
    simp only [exec, unset]
    rfl
  have ran3 : exec (.ldmia 1 [3]) looped = some loaded := by
    refine exec_ldmia_single ?_ 3 (by decide)
    exact copying.source ▸ wordAddress_aligned (by decide) count
  have ran4 : exec (.stmia 0 [3]) loaded = some stored := by
    refine exec_stmia_single ?_ 3
    exact copying.target ▸ wordAddress_aligned (by decide) count
  -- The store is the next word of the copy, so the code that goes on is still the applet's.
  have written : stored.memory = copied memory (count + 1) := by
    have value : loaded.reg 3 = cpu.memory.word (cpu.reg 1) := by
      rw [Cpu.next_reg, Cpu.set_reg, if_pos rfl, unchanged]
      rfl
    rw [copied_succ memory less, ← copying.target, ← copying.source, ← copying.memory, ← value,
      ← unchanged']
    rfl
  have kept : Installed stored.memory := written ▸ copied_installed memory less installed
  have ran5 : exec (.sub 2 1) stored = some (stored.result 2 (cpu.reg 2 - 1)).next := rfl
  refine ⟨(stored.result 2 (cpu.reg 2 - 1)).next,
    .head (line_step cpu held linked copying.located (by decide) ran1)
      (.head (line_step compared held linked at1 (by decide) ran2)
        (.head (line_step looped (by rwa [unchanged]) linked at2 (by decide) ran3)
          (.head (line_step loaded (by rwa [unchanged']) linked at3 (by decide) ran4)
            (.single (line_step stored kept linked at4 (by decide) ran5))))), ?_, ?_, ?_, ?_,
              copying.back, written⟩
  · rw [Cpu.next_pc, Cpu.result_pc, at4, appletCell_next]
  · exact (congrArg (· + 4) copying.target).trans (wordAddress_next _ _)
  · exact (congrArg (· + 4) copying.source).trans (wordAddress_next _ _)
  · rw [Cpu.next_reg, Cpu.result_reg, if_pos rfl, copying.left]
    bv_omega

theorem copying_all (installed : Installed memory) (copying : Copying memory link 0 cpu) :
    ∀ count ≤ 128, ∃ after, Reaches (step (link &&& ~~~1)) cpu after ∧
    Copying memory link count after
  | 0, _ => ⟨cpu, .refl, copying⟩
  | count + 1, less => by
    obtain ⟨middle, before, here⟩ := copying_all installed copying count (by omega)
    obtain ⟨after, turn, there⟩ := copying_step linked installed less here
    exact ⟨after, before.trans turn, there⟩

theorem write_run (installed : Installed memory) (copying : Copying memory link 128 cpu) :
    ∃ after, Reaches (step (link &&& ~~~1)) cpu after ∧ after.pc = link &&& ~~~1 ∧
      after.memory = (copied memory 128).storeWord eefcFcr (ewp ||| memory.word appletPage) := by
  have held : Installed cpu.memory := copying.memory ▸ copied_installed memory le_rfl installed
  let compared : Cpu := { cpu with z := cpu.reg 2 == 0 : Cpu }.next
  let first := (compared.next.set 0 (cpu.memory.word (appletCell 0x40))).next
  let second := (first.set 1 (cpu.memory.word (appletCell 0x48))).next
  let third := (second.set 2 (cpu.memory.word (appletCell 0x38))).next
  let merged := (third.result 1 (third.reg 1 ||| third.reg 2)).next
  let stored := Cpu.next
    { merged with memory := merged.memory.storeWord (merged.reg 0 + 0) (merged.reg 1) }
  have at1 : compared.pc = appletCell 0x18 := by
    rw [Cpu.next_pc, copying.located, appletCell_next]
  have at2 : compared.next.pc = appletCell 0x1A := by
    rw [Cpu.next_pc, at1, appletCell_next]
  have at3 : first.pc = appletCell 0x1C := by
    rw [Cpu.next_pc, Cpu.set_pc, at2, appletCell_next]
  have at4 : second.pc = appletCell 0x1E := by
    rw [Cpu.next_pc, Cpu.set_pc, at3, appletCell_next]
  have at5 : third.pc = appletCell 0x20 := by
    rw [Cpu.next_pc, Cpu.set_pc, at4, appletCell_next]
  have at6 : merged.pc = appletCell 0x22 := by
    rw [Cpu.next_pc, Cpu.result_pc, at5, appletCell_next]
  have at7 : stored.pc = appletCell 0x24 := by
    rw [Cpu.next_pc, at6, appletCell_next]
  have ran1 : exec (.cmp 2 0) cpu = some compared := rfl
  have ran2 : exec (.bne (-12)) compared = some compared.next := by
    have set : compared.z = true := beq_iff_eq.mpr copying.left
    simp only [exec, set, if_true]
  have ran3 : exec (.ldrLiteral 0 0x24) compared.next = some first := by
    rw [exec, at2]
    rfl
  have ran4 : exec (.ldrLiteral 1 0x28) first = some second := by
    rw [exec, at3]
    rfl
  have ran5 : exec (.ldrLiteral 2 0x18) second = some third := by
    rw [exec, at4]
    rfl
  have ran6 : exec (.orr 1 2) third = some merged := rfl
  have ran7 : exec (.str 1 0 0) merged = some stored := rfl
  have ran8 : exec (.bx lr) stored = some { stored with pc := link &&& ~~~1 } := by
    have back : stored.reg lr = link := copying.back
    simp only [exec, back, linked.thumb, if_true]
  have register : cpu.memory.word (appletCell 0x40) = eefcFcr :=
    (held.word 0x40 (by decide) (by decide)).trans (by decide +kernel)
  have command : cpu.memory.word (appletCell 0x48) = ewp :=
    (held.word 0x48 (by decide) (by decide)).trans (by decide +kernel)
  have page : cpu.memory.word (appletCell 0x38) = memory.word appletPage := by
    refine AddressSpace.word_congr fun i inside => ?_
    rw [copying.memory, AddressSpace.view, AddressSpace.view, appletCell, BitVec.add_assoc,
      ← BitVec.ofNat_add]
    exact copied_apart memory le_rfl (by rw [applet_length]; omega)
  have written : stored.memory = (copied memory 128).storeWord eefcFcr
      (ewp ||| memory.word appletPage) := by
    rw [← register, ← command, ← page, ← copying.memory]
    change cpu.memory.storeWord (cpu.memory.word (appletCell 0x40) + 0) _ = _
    rw [add_zero]
    rfl
  have kept : Installed stored.memory := by
    refine held.congr fun i inside _ => ?_
    rw [written, AddressSpace.storeWord_outside _ _ (appletCell_apart (by omega)).2, copying.memory]
  exact ⟨{ stored with pc := link &&& ~~~1 },
    .head (line_step cpu held linked copying.located (by decide) ran1)
      (.head (line_step compared held linked at1 (by decide) ran2)
        (.head (line_step compared.next held linked at2 (by decide) ran3)
          (.head (line_step first held linked at3 (by decide) ran4)
            (.head (line_step second held linked at4 (by decide) ran5)
              (.head (line_step third held linked at5 (by decide) ran6)
                (.head (line_step merged held linked at6 (by decide) ran7)
                  (.single (line_step stored kept linked at7 (by decide) ran8)))))))), rfl, written⟩

end Run

/-! Page after page. -/

theorem installApplet_installed (memory : AddressSpace 32) : Installed (installApplet memory) := by
  intro i inside _
  have covered : ∀ byte, applet.getD (appletCell i - appletAddr).toNat byte = applet.getD i 0 := by
    intro byte
    rw [appletCell, AddressSpace.offset_toNat appletAddr (inside.trans (by decide)),
      List.getD_eq_getElem _ _ inside, List.getD_eq_getElem _ _ inside]
  simp only [image, installApplet, configureApplet, AddressSpace.storeWord, AddressSpace.store,
    covered]

section Upload
variable {memory : AddressSpace 32} {data : List Byte} (whole : data.length = iflash0PageSize)
  (page : Nat)
include whole

theorem uploadPage_installed (installed : Installed memory) :
    Installed (uploadPage memory data page) := by
  refine installed.congr fun i inside apart => ?_
  rw [applet_length] at inside
  have page : 4 ≤ (appletCell i - appletPage).toNat := by
    rw [appletCell, cell_distance _ _ (by omega)]
    change 4 ≤ (2 ^ 32 - 0x20000838 + (0x20000800 + i) % 2 ^ 32) % 2 ^ 32
    omega
  have buffer : data.length ≤ (appletCell i - pageBuffer).toNat := by
    rw [whole, appletCell, cell_distance _ _ (by omega)]
    change 512 ≤ (2 ^ 32 - 0x2000084C + (0x20000800 + i) % 2 ^ 32) % 2 ^ 32
    omega
  rw [uploadPage, AddressSpace.storeWord_outside _ _ page, AddressSpace.store_outside _ buffer]

theorem uploadPage_buffer (inside : i < iflash0PageSize) :
    uploadPage memory data page (pageBuffer + BitVec.ofNat 32 i) = data.getD i 0 := by
  have short : i < 512 := inside
  have page : 4 ≤ (pageBuffer + BitVec.ofNat 32 i - appletPage).toNat := by
    rw [cell_distance _ _ (by omega)]
    change 4 ≤ (2 ^ 32 - 0x20000838 + (0x2000084C + i) % 2 ^ 32) % 2 ^ 32
    omega
  rw [uploadPage, AddressSpace.storeWord_outside _ _ page, AddressSpace.store,
    AddressSpace.offset_toNat pageBuffer (by omega), List.getD_eq_getElem _ _ (whole ▸ inside),
    List.getD_eq_getElem _ _ (whole ▸ inside)]

/-- One page: the applet returns, with the page in the latch and the command in the register,
and can be run again. -/
theorem jump_page {cpu : Cpu} (installed : Installed memory) (linked : Linked (cpu.reg lr)) :
    ∃ enough after, (∀ fuel ≥ enough, jumpApplet fuel cpu (uploadPage memory data page) =
      some after) ∧
      Installed after ∧ after.word eefcFcr = ewp ||| eefcFcrFarg page ∧
      after.load iflash0Addr iflash0PageSize = data := by
  have uploaded := uploadPage_installed whole page installed
  have entry : (uploadPage memory data page).word appletEntry &&& ~~~1 = appletCell 0x08 :=
    (congrArg (· &&& ~~~1) (uploaded.word 0x04 (by decide) (by decide))).trans (by decide +kernel)
  let entered : Cpu := { cpu with
    pc := (uploadPage memory data page).word appletEntry &&& ~~~1, memory :=
      uploadPage memory data page }
  obtain ⟨checking, started, copying⟩ :=
    copying_start linked (show Installed entered.memory from uploaded) entry rfl
  obtain ⟨full, ran, copied⟩ := copying_all linked uploaded copying 128 le_rfl
  obtain ⟨after, wrote, returned, written⟩ := write_run linked uploaded copied
  obtain ⟨enough, calls⟩ := call_reaches (started.trans (ran.trans wrote)) returned
  refine ⟨enough, after.memory, fun fuel more => congrArg (Option.map Cpu.memory) (calls fuel more),
    ?_, ?_, ?_⟩
  · rw [written]
    exact (copied_installed _ le_rfl uploaded).congr fun i inside _ =>
      AddressSpace.storeWord_outside _ _ (appletCell_apart (by omega)).2
  · rw [written, AddressSpace.word_storeWord _ _ (by decide)]
    exact congrArg (ewp ||| ·) (AddressSpace.word_storeWord _ _ (by decide))
  · rw [written, AddressSpace.load, cells, List.map_map]
    refine List.ext_getElem (by simp [whole]) fun i inside inside' => ?_
    have short : i < 512 := by simpa [iflash0PageSize] using inside
    have apart : 4 ≤ (iflash0Addr + BitVec.ofNat 32 i - eefcFcr).toNat := by
      rw [cell_distance _ _ (by omega)]
      change 4 ≤ (2 ^ 32 - 0x400E0A04 + (0x400000 + i) % 2 ^ 32) % 2 ^ 32
      omega
    have here : (iflash0Addr + BitVec.ofNat 32 i - iflash0Addr).toNat < 4 * 128 := by
      rw [AddressSpace.offset_toNat iflash0Addr (by omega)]
      exact short
    rw [List.getElem_map, List.getElem_range, Function.comp_apply,
      AddressSpace.storeWord_outside _ _ apart, Fdfu.copied, if_pos here, add_sub_cancel_left,
      uploadPage_buffer whole page short,
      List.getD_eq_getElem _ _ inside']

end Upload

theorem readPages_length (firmware : List Byte) (count : Nat) :
    (readPages firmware count).length = count := by
  induction count generalizing firmware with
  | zero => rfl
  | succ count ih => cases firmware <;> simp [readPages, ih]

def firmwarePage (firmware : List Byte) (page : Nat) : List Byte :=
  (List.range iflash0PageSize).map fun i => firmware.getD (page * iflash0PageSize + i) 0

theorem page_of_pagedata (firmware : List Byte)
    (less : page < lfCeiling firmware.length iflash0PageSize) :
    ((loadPageData firmware firmware.length).drop (page * iflash0PageSize)).take iflash0PageSize =
      firmwarePage firmware page := by
  have covered : firmware.length ≤ lfCeiling firmware.length iflash0PageSize * iflash0PageSize := by
    rw [lfCeiling, iflash0PageSize]
    omega
  have room : (page + 1) * iflash0PageSize ≤ lfCeiling firmware.length iflash0PageSize *
      iflash0PageSize :=
    Nat.mul_le_mul_right _ less
  rw [Nat.succ_mul] at room
  refine List.ext_getElem ?_ fun i inside inside' => ?_
  · rw [List.length_take, List.length_drop, loadPageData, readPages_length, firmwarePage,
      List.length_map, List.length_range]
    omega
  · have same := readPages_getD firmware _ (page * iflash0PageSize + i) covered
    rw [List.getD_eq_getElem _ _
      (by rw [readPages_length]; simp [firmwarePage] at inside'; omega)] at same
    simpa [firmwarePage, loadPageData] using same

/-- The monitor leaves the applet as it is and calls it from Thumb code outside. -/
structure Quiet (monitor : Nat → AddressSpace 32 → Cpu) : Prop where
  keeps : ∀ page memory, ∀ i < applet.length, (monitor page memory).memory (appletCell i) =
    memory (appletCell i)
  linked : ∀ page memory, Linked ((monitor page memory).reg lr)

def flashWrite (firmware : List Byte) (page : Nat) : FlashWrite :=
  ⟨ewp ||| eefcFcrFarg page, firmwarePage firmware page⟩

/-- The pages before the first whose copy returns `lf_success`. -/
def reached (statuses : Nat → Status) (pages : List Nat) : List Nat :=
  pages.takeWhile fun page => statuses (page + 1) = .error

theorem programPages_from (firmware : List Byte) {monitor : Nat → AddressSpace 32 → Cpu}
    (quiet : Quiet monitor) (statuses : Nat → Status) (page left : Nat)
    (rest : page + left = lfCeiling firmware.length iflash0PageSize)
    (memory : AddressSpace 32) (installed : Installed memory) :
    let pages := List.range' page left
    ∃ enough, ∀ fuel ≥ enough,
      programPages fuel monitor (arriving statuses) (loadPageData firmware firmware.length) page
          left memory =
        some ⟨(reached statuses pages).map (flashWrite firmware),
          reached statuses pages == pages⟩ := by
  induction left generalizing page memory with
  | zero => exact ⟨0, fun _ _ => rfl⟩
  | succ left ih =>
    rw [List.range'_succ]
    cases status : statuses (page + 1) with
    | success =>
      have none : reached statuses (page :: List.range' (page + 1) left) = [] := by
        simp [reached, status]
      refine ⟨0, fun fuel _ => ?_⟩
      rw [none, programPages]
      simp [arriving, status]
    | error =>
      have one : reached statuses (page :: List.range' (page + 1) left) =
          page :: reached statuses (List.range' (page + 1) left) := by
        simp [reached, status]
      have data := page_of_pagedata firmware
        (by omega : page < lfCeiling firmware.length iflash0PageSize)
      have whole : (firmwarePage firmware page).length = iflash0PageSize := by simp [firmwarePage]
      have held : Installed (monitor page memory).memory :=
        installed.congr fun i inside _ => quiet.keeps page memory i inside
      obtain ⟨enough, after, jumps, kept, command, latch⟩ :=
        jump_page whole page held (quiet.linked page memory)
      obtain ⟨enough', later⟩ := ih (page + 1) (by omega) after kept
      refine ⟨max enough enough', fun fuel more => ?_⟩
      have jumped := jumps fuel (by omega)
      rw [uploadPage] at jumped
      rw [programPages, data, one]
      simp only [arriving, status, Status.holds_error, Bool.not_true, Bool.false_eq_true, if_false,
        jumped, Option.bind_eq_bind, Option.bind_some]
      rw [later fuel (by omega)]
      simp [command, latch, flashWrite]

/-- A monitor in ROM that changes nothing. -/
def romMonitor (_ : Nat) (memory : AddressSpace 32) : Cpu := ⟨fun _ => 0x00800101, 0, false, memory⟩

end Flipper.Fdfu
