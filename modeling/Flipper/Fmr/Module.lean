import Flipper.Fmr.Interface
import Mathlib.Data.List.Nodup

/-! Module records, their lists and `dyld_register`. A list of `lib/ll.c` is the
sequence of its items; each appended node costs one allocation. -/
namespace Flipper.Fmr
open Binary Effect

/-- The characters of a C string, without the NUL that ends it. -/
structure CString where
  bytes : List Byte
  terminated : ∀ b ∈ bytes, b ≠ 0
  deriving DecidableEq

namespace CString

def strlen (s : CString) : Nat := s.bytes.length

/-- What a pointer to the string sees up to its NUL. -/
def mem (s : CString) : Mem := fun i => s.bytes.getD i 0

end CString

/-- `strcmp(a, b) == 0`, where `b` points into memory. -/
def strcmpEq (a : CString) (b : Mem) : Bool :=
  decide (Mem.slice b 0 (a.strlen + 1) = a.bytes ++ [0])

def lfModuleNameMax : Nat := 32

/-- `struct _lf_module`; `table` holds its `length` functions. -/
structure LfModule where
  name : CString
  fits : name.strlen < lfModuleNameMax
  idx : BitVec 16
  table : List LfFunction
  state : Option (BitVec 64)
  deriving DecidableEq

/-- `UINT16_MAX`, the index of a module that is still to be numbered. -/
def unnumbered : BitVec 16 := 0xFFFF

/-- `lf_ll_item`, with what it leaves in `_lf_err`. -/
def lfLlItem (list : List α) (index : Nat) (err : Byte) : Option α × Byte :=
  match list[index]? with
  | some item => (some item, err)
  | none => (none, LfErr.eNull.code)

def nodeSize : Nat := 24

/-- `lf_ll_append`: the longer list, or nothing when no node could be allocated. -/
def lfLlAppend (list : List α) (item : α) : FmrProg (Option (List α)) := do
  match ← malloc nodeSize with
  | none => pure none
  | some _ => pure (some (list ++ [item]))

def lfLlConcat (list more : List α) : List α := list ++ more

/-- `lf_ll_remove`: the nodes that stay and, in order, those freed with their item. Items
are compared by their address. -/
def lfLlRemove [DecidableEq κ] (address : α → κ) (list : List α) (item : κ) : List α × List α :=
  match list with
  | [] => ([], [])
  | node :: rest =>
    let (kept, freed) := lfLlRemove address rest item
    if address node = item then (kept, node :: freed) else (node :: kept, freed)

/-- `lf_ll_release`: the empty list and, in order, the nodes freed with their item. -/
def lfLlRelease : List α → List α × List α
  | [] => ([], [])
  | node :: rest =>
    let (kept, freed) := lfLlRelease rest
    (kept, node :: freed)

@[simp] theorem lfLlRemove_eq [DecidableEq κ] (address : α → κ) (list : List α) (item : κ) :
    lfLlRemove address list item =
      (list.filter fun node => address node ≠ item,
        list.filter fun node => address node = item) := by
  induction list with
  | nil => rfl
  | cons node rest ih =>
    rw [lfLlRemove, ih]
    by_cases same : address node = item <;> simp [same]

@[simp] theorem lfLlRelease_eq (list : List α) : lfLlRelease list = ([], list) := by
  induction list with
  | nil => rfl
  | cons node rest ih => rw [lfLlRelease, ih]

def lfModuleGetByName (modules : List LfModule) (name : Mem) : Option LfModule :=
  modules.find? fun module => strcmpEq module.name name

def moduleSize : Nat := 72

/-- `lf_module_create`, with what it leaves in `_lf_err`. -/
def lfModuleCreate (name : CString) (idx : BitVec 16) (err : Byte) :
    FmrProg (Option LfModule × Byte) :=
  if fits : name.strlen < lfModuleNameMax then do
    match ← malloc moduleSize with
    | none => pure (none, LfErr.eMalloc.code)
    | some _ => pure (some ⟨name, fits, idx, [], none⟩, err)
  else pure (none, LfErr.eOverflow.code)

/-- The list after a registration and the module record as the call left it. -/
structure Registration where
  status : Int
  modules : List LfModule
  module : LfModule

def dyldRegister (modules : List LfModule) (module : LfModule) : FmrProg Registration :=
  match lfModuleGetByName modules module.name.mem with
  | some _ => pure ⟨lfSuccess, modules, module⟩
  | none => do
    let numbered : LfModule :=
      if module.idx = unnumbered then { module with idx := BitVec.ofNat 16 modules.length }
      else module
    match ← lfLlAppend modules numbered with
    | none => pure ⟨lfError, modules, numbered⟩
    | some longer => pure ⟨lfSuccess, longer, numbered⟩

/-- Module lists that some run of `dyld_register` calls builds from the empty list. -/
inductive Registered : List LfModule → Prop where
  | empty : Registered []
  | register {σ : Type} (prior : Registered modules) (world : World fmr σ) (module : LfModule)
      (s : σ) :
      Registered ((dyldRegister modules module).run world s).value.modules

/-- `dac_module`, the module every FVM registers; its functions are entry points 0 to 4. -/
def dacModule : LfModule where
  name := ⟨[0x64, 0x61, 0x63, 0x5F, 0x6D, 0x6F, 0x64, 0x75, 0x6C, 0x65], by decide⟩
  fits := by decide
  idx := unnumbered
  table := [0, 1, 2, 3, 4]
  state := none

/-- The modules of an FVM started without a library. -/
def fvmModules : List LfModule := ((dyldRegister [] dacModule).run obliging ()).value.modules

namespace CString

theorem mem_at (s : CString) (inside : i < s.strlen) : s.mem i = s.bytes.get ⟨i, inside⟩ := by
  simp only [mem, List.getD_eq_getElem?_getD, List.getElem?_eq_getElem inside]
  rfl

theorem mem_ne_zero (s : CString) (inside : i < s.strlen) : s.mem i ≠ 0 := by
  rw [mem_at s inside]
  exact s.terminated _ (List.getElem_mem inside)

theorem mem_strlen (s : CString) : s.mem s.strlen = 0 := by
  simp [mem, strlen]

theorem slice_mem (s : CString) : Mem.slice s.mem 0 (s.strlen + 1) = s.bytes ++ [0] := by
  rw [Mem.slice, List.range_succ, List.map_append]
  congr 1
  · apply List.ext_getElem
    · simp [strlen]
    · intro i _ inside
      simp [mem_at s inside]
  · simp [mem_strlen]

end CString

theorem strcmpEq_chars {a : CString} {name : Mem} (same : strcmpEq a name = true)
    (inside : i ≤ a.strlen) :
    name i = a.mem i := by
  have slices : Mem.slice name 0 (a.strlen + 1) = Mem.slice a.mem 0 (a.strlen + 1) := by
    rw [CString.slice_mem]
    exact of_decide_eq_true same
  simpa using Mem.slice_inj slices (Nat.lt_succ_of_le inside)

/-- The NUL of a string in memory cannot fall inside another string there. -/
theorem strcmpEq_strlen_le {a b : CString} {name : Mem} (first : strcmpEq a name = true)
    (second : strcmpEq b name = true) : a.strlen ≤ b.strlen := by
  by_contra longer
  have inside : b.strlen < a.strlen := Nat.lt_of_not_le longer
  have ends : name b.strlen = 0 := (strcmpEq_chars second (Nat.le_refl _)).trans b.mem_strlen
  rw [strcmpEq_chars first (Nat.le_of_lt inside)] at ends
  exact a.mem_ne_zero inside ends

/-- Memory holds at most one string. -/
theorem strcmpEq_unique {a b : CString} {name : Mem} (first : strcmpEq a name = true)
    (second : strcmpEq b name = true) : a = b := by
  have bytes : a.bytes = b.bytes := by
    apply List.ext_getElem
    · exact Nat.le_antisymm (strcmpEq_strlen_le first second) (strcmpEq_strlen_le second first)
    · intro i insideA insideB
      have same := (strcmpEq_chars first (Nat.le_of_lt insideA)).symm.trans
        (strcmpEq_chars second (Nat.le_of_lt insideB))
      rw [a.mem_at insideA, b.mem_at insideB] at same
      exact same
  cases a
  cases b
  cases bytes
  rfl

/-- Comparing two strings is comparing their characters. -/
theorem strcmpEq_mem (a b : CString) : strcmpEq a b.mem = true ↔ a = b := by
  have self : strcmpEq b b.mem = true := decide_eq_true b.slice_mem
  constructor
  · exact fun same => strcmpEq_unique same self
  · rintro rfl
    exact self

theorem fvmModules_registered : Registered fvmModules := .register .empty obliging dacModule ()

theorem getByName_none {modules : List LfModule} {name : CString} :
    lfModuleGetByName modules name.mem = none ↔ ∀ module ∈ modules, module.name ≠ name := by
  simp [lfModuleGetByName, strcmpEq_mem]

def LfModule.numbered (module : LfModule) (modules : List LfModule) : LfModule :=
  if module.idx = unnumbered then { module with idx := BitVec.ofNat 16 modules.length } else module

theorem dyldRegister_present (world : World fmr σ) (s : σ) {old : LfModule} (member : old ∈ modules)
    (named : old.name = module.name) :
    (dyldRegister modules module).run world s = ⟨⟨lfSuccess, modules, module⟩, [], s⟩ := by
  have found : lfModuleGetByName modules module.name.mem ≠ none :=
    fun missing => getByName_none.mp missing old member named
  obtain ⟨existing, found⟩ := Option.ne_none_iff_exists'.mp found
  simp [dyldRegister, found]

theorem dyldRegister_fresh (world : World fmr σ) (s : σ)
    (fresh : ∀ old ∈ modules, old.name ≠ LfModule.name module) :
    ((dyldRegister modules module).run world s).value =
      if (world.answer (Op.malloc nodeSize) s).1.isSome then
        ⟨lfSuccess, modules ++ [module.numbered modules], module.numbered modules⟩
      else ⟨lfError, modules, module.numbered modules⟩ := by
  have missing := getByName_none.mpr fresh
  cases reply : (world.answer (Op.malloc nodeSize) s).1 <;>
    simp [dyldRegister, missing, lfLlAppend, Prog.bind_assoc, reply, LfModule.numbered]

/-- A registration leaves the list as it is, or ends it with the module it was given,
numbered if it had no number. -/
theorem dyldRegister_cases (modules : List LfModule) (module : LfModule) (world : World fmr σ)
    (s : σ) :
    ((dyldRegister modules module).run world s).value.modules = modules ∨
      (∀ other ∈ modules, other.name ≠ module.name) ∧
      ∃ added : LfModule, added.name = module.name ∧
        (module.idx = unnumbered → added.idx = BitVec.ofNat 16 modules.length) ∧
        ((dyldRegister modules module).run world s).value.modules = modules ++ [added] := by
  by_cases fresh : ∀ other ∈ modules, other.name ≠ module.name
  · rw [dyldRegister_fresh world s fresh]
    split
    · refine .inr ⟨fresh, module.numbered modules, ?_, fun plain => ?_, rfl⟩
      · unfold LfModule.numbered
        split <;> rfl
      · rw [LfModule.numbered, if_pos plain]
    · exact .inl rfl
  · obtain ⟨old, member, named⟩ : ∃ old ∈ modules, old.name = module.name := by simpa using fresh
    rw [dyldRegister_present world s member named]
    exact .inl rfl

/-- Registration never lets a name in twice. -/
theorem Registered.names_nodup (built : Registered modules) :
    (modules.map LfModule.name).Nodup := by
  induction built with
  | empty => exact List.nodup_nil
  | register prior world module s ih =>
    rcases dyldRegister_cases _ module world s with same | ⟨fresh, added, named, _, longer⟩
    · rwa [same]
    · rw [longer, List.map_append, List.nodup_append]
      refine ⟨ih, by simp, ?_⟩
      intro name member other last
      obtain ⟨old, inside, rfl⟩ := List.mem_map.mp member
      simp only [List.map_cons, List.map_nil, List.mem_singleton] at last
      rw [last, named]
      exact fresh old inside

end Flipper.Fmr
