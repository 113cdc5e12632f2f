import Flipper.Assembly.X64
import Mathlib.Tactic.IntervalCases

/-! `fmr_call` of `os/arch/x64/fmr.S`: packed arguments into the registers of the calling
convention, the call, and the way back. -/
namespace Flipper.Arch.X64
open Binary Assembly Assembly.X64 StateTransition

inductive Label where
  | fmrCall
  | load | load8 | load16 | load32 | loadInt | loadPtr | load64 | loadDone
  | writeRdi | writeRsi | writeRdx | writeRcx | writeR8 | writeR9 | writeStack | writeDone
  | doCall
  | ret | ret8 | ret16 | retVoid | ret32 | retInt | retPtr | ret64
  | fail | done
  deriving DecidableEq

abbrev argc : Reg := .r9
abbrev argt : Reg := .r10
abbrev argi : Reg := .r11
abbrev retv : Reg := .r12
abbrev argv : Reg := .r13
abbrev temp : Reg := .r14

def text : Text Label (Instr Label) := [
  (.fmrCall, [.push .rbp, .mov .rsp .rbp, .push .r14, .push .r13, .push .r12, .sub 8 .rsp,
    -- The slot of the function pointer is the one `r14` was pushed to.
    .store .rdi (-8) .rbp,
    .mov .rsi retv, .mov .rdx argc, .mov .rcx argt, .mov .r8 argv, .movImm 0 argi]),
  (.load, [.cmp 0 argc, .je .doCall, .mov argt temp, .and 7 temp,
    .cmp 0 temp, .je .load8, .cmp 1 temp, .je .load16, .cmp 3 temp, .je .load32,
    .cmp 4 temp, .je .loadInt, .cmp 6 temp, .je .loadPtr, .cmp 7 temp, .je .load64, .jmp .fail]),
  (.load8, [.load .b argv .rax, .add 1 argv, .jmp .loadDone]),
  (.load16, [.load .w argv .rax, .add 2 argv, .jmp .loadDone]),
  (.load32, [.load .l argv .rax, .add 4 argv, .jmp .loadDone]),
  (.loadInt, []),
  (.loadPtr, []),
  (.load64, [.load .q argv .rax, .add 8 argv, .jmp .loadDone]),
  (.loadDone, [.cmp 0 argi, .je .writeRdi, .cmp 1 argi, .je .writeRsi, .cmp 2 argi, .je .writeRdx,
    .cmp 3 argi, .je .writeRcx, .cmp 4 argi, .je .writeR8, .cmp 5 argi, .je .writeR9,
    .jmp .writeStack]),
  (.writeRdi, [.mov .rax .rdi, .jmp .writeDone]),
  (.writeRsi, [.mov .rax .rsi, .jmp .writeDone]),
  (.writeRdx, [.mov .rax .rdx, .jmp .writeDone]),
  (.writeRcx, [.mov .rax .rcx, .jmp .writeDone]),
  (.writeR8, [.mov .rax .r8, .jmp .writeDone]),
  (.writeR9, [.mov .rax .r9, .jmp .writeDone]),
  (.writeStack, [.jmp .fail]),
  (.writeDone, [.shr 4 argt, .sub 1 argc, .add 1 argi, .jmp .load]),
  (.doCall, [.call (-8) .rbp]),
  (.ret, [.mov retv temp, .and 7 temp,
    .cmp 0 temp, .je .ret8, .cmp 1 temp, .je .ret16, .cmp 2 temp, .je .retVoid,
    .cmp 3 temp, .je .ret32, .cmp 4 temp, .je .retInt, .cmp 6 temp, .je .retPtr,
    .cmp 7 temp, .je .ret64, .jmp .fail]),
  (.ret8, [.jmp .done]),
  (.ret16, [.jmp .done]),
  (.retVoid, [.jmp .done]),
  (.ret32, [.jmp .done]),
  (.retInt, [.jmp .done]),
  (.retPtr, [.jmp .done]),
  (.ret64, [.jmp .done]),
  (.fail, [.movImm (-1) .rax]),
  (.done, [.add 8 .rsp, .pop .r12, .pop .r13, .pop .r14, .pop .rbp, .ret])]

variable (callee : Callee)

/-- How wide the argument of a type is; types 2 and 5 have no argument. -/
def widthOf (type : BitVec 64) : Option Width :=
  if type = 0 then some .b else if type = 1 then some .w else if type = 3 then some .l
  else if type = 4 ∨ type = 6 ∨ type = 7 then some .q else none

def typeOf (types : BitVec 64) (i : Nat) : BitVec 64 := types >>> (4 * i) &&& 7

def register : Nat → Reg
  | 0 => .rdi
  | 1 => .rsi
  | 2 => .rdx
  | 3 => .rcx
  | 4 => .r8
  | _ => .r9

def fetched (width : Width) (cpu : Cpu) : Cpu :=
  let cpu := (cpu.set temp (cpu.reg argt &&& 7)).load width argv .rax
  cpu.result argv (cpu.reg argv + BitVec.ofNat 64 width.bytes)

def stored (i : Nat) (cpu : Cpu) : Cpu :=
  let cpu := cpu.set (register i) (cpu.reg .rax)
  let cpu := cpu.result argt (cpu.reg argt >>> 4)
  let cpu := cpu.result argc (cpu.reg argc - 1)
  cpu.result argi (cpu.reg argi + 1)

def loads : List (BitVec 64 × Label) :=
  [(0, .load8), (1, .load16), (3, .load32), (4, .loadInt), (6, .loadPtr), (7, .load64)]

def writes : List (BitVec 64 × Label) :=
  [(0, .writeRdi), (1, .writeRsi), (2, .writeRdx), (3, .writeRcx), (4, .writeR8), (5, .writeR9)]

def returns : List (BitVec 64 × Label) :=
  [(0, .ret8), (1, .ret16), (2, .retVoid), (3, .ret32), (4, .retInt), (6, .retPtr), (7, .ret64)]

theorem body_load : text.body .load = compareJump argc 0 .doCall ++ .mov argt temp :: .and 7 temp ::
    (select (compareJump temp) loads ++ [.jmp .fail]) := rfl

theorem load_select (cpu : Cpu) (more : cpu.reg argc ≠ 0) :
    ∃ zf, runBlock (exec callee) (text.body .load) cpu =
      runBlock (exec callee) (select (compareJump temp) loads ++ [.jmp .fail])
        { cpu.set temp (cpu.reg argt &&& 7) with zf } := by
  rw [body_load, (comparison callee argc).runs, if_neg more]
  refine ⟨cpu.reg argt &&& 7 == 0, ?_⟩
  exact congrArg (runBlock _ _) (Cpu.set_result { cpu with zf := false } temp (cpu.reg argt))

/-- The jump by type: what is not in the table fails. -/
theorem load_found (cpu : Cpu) (more : cpu.reg argc ≠ 0)
    (found : loads.lookup (cpu.reg argt &&& 7) = some label) :
    (label, { cpu.set temp (cpu.reg argt &&& 7) with zf := true }) ∈
      enter (exec callee) text (.load, cpu) := by
  obtain ⟨zf, selects⟩ := load_select callee cpu more
  exact enter_jump (selects.trans ((comparison callee temp).found _ _ (by simpa using found)))

theorem widthOf_cases (valid : widthOf type = some width) :
    type = 0 ∧ width = .b ∨ type = 1 ∧ width = .w ∨ type = 3 ∧ width = .l ∨
      (type = 4 ∨ type = 6 ∨ type = 7) ∧ width = .q := by
  unfold widthOf at valid
  split_ifs at valid <;> simp_all

theorem fetch (cpu : Cpu) (more : cpu.reg argc ≠ 0)
    (valid : widthOf (cpu.reg argt &&& 7) = some width) :
    Reaches (enter (exec callee) text) (.load, cpu) (.loadDone, fetched width cpu) := by
  have jumps : ∀ label, loads.lookup (cpu.reg argt &&& 7) = some label →
      Reaches (enter (exec callee) text) (label,
        { cpu.set temp (cpu.reg argt &&& 7) with zf := true })
        (.loadDone, fetched width cpu) →
      Reaches (enter (exec callee) text) (.load, cpu) (.loadDone, fetched width cpu) :=
    fun label found path => .head (load_found callee cpu more found) path
  -- The labels of `int` and of pointers stand before the block of eight bytes and are empty.
  have eight : ∀ state, (.load64, state) ∈ enter (exec callee) text (.loadPtr, state) :=
    fun state => enter_next rfl rfl
  obtain ⟨type, rfl⟩ | ⟨type, rfl⟩ | ⟨type, rfl⟩ | ⟨type | type | type, rfl⟩ := widthOf_cases valid
  · exact jumps .load8 (by rw [type]; rfl) (.single (enter_jump rfl))
  · exact jumps .load16 (by rw [type]; rfl) (.single (enter_jump rfl))
  · exact jumps .load32 (by rw [type]; rfl) (.single (enter_jump rfl))
  · refine jumps .loadInt (by rw [type]; rfl) ?_
    exact .head (enter_next rfl rfl) (.head (eight _) (.single (enter_jump rfl)))
  · exact jumps .loadPtr (by rw [type]; rfl) (.head (eight _) (.single (enter_jump rfl)))
  · exact jumps .load64 (by rw [type]; rfl) (.single (enter_jump rfl))

theorem store (cpu : Cpu) (few : i < 6) (index : cpu.reg argi = BitVec.ofNat 64 i) :
    Reaches (enter (exec callee) text) (.loadDone, cpu) (.load, stored i cpu) := by
  have body : text.body .loadDone = select (compareJump argi) writes ++ [.jmp .writeStack] := rfl
  have jumps : ∀ label, writes.lookup (BitVec.ofNat 64 i) = some label →
      (label, { cpu with zf := true }) ∈ enter (exec callee) text (.loadDone, cpu) := by
    intro label found
    refine enter_jump ((congrArg (runBlock _ · cpu) body).trans ?_)
    exact (comparison callee argi).found _ cpu (index ▸ found)
  interval_cases i
  all_goals exact .head (jumps _ rfl) (.head (enter_jump rfl) (.single (enter_jump rfl)))

/-! ## The frame -/

section Frame
variable (caller : Cpu)

/-- The lowest address of the forty bytes that `fmr_call` puts below the return address. -/
def frame : BitVec 64 := caller.reg .rsp - 40

/-- The memory after the pushes. The function pointer takes the slot of `r14`. -/
def framed : AddressSpace 64 :=
  let rsp := caller.reg .rsp
  let pushed := (caller.memory.storeQuad (rsp - 8) (caller.reg .rbp)).storeQuad (rsp - 8 - 8)
    (caller.reg .r14)
  let pushed := (pushed.storeQuad (rsp - 8 - 8 - 8) (caller.reg .r13)).storeQuad
    (rsp - 8 - 8 - 8 - 8) (caller.reg .r12)
  pushed.storeQuad (rsp - 8 + -8) (caller.reg .rdi)

theorem framed_slots : framed caller =
    ((((caller.memory.storeQuad (frame caller + BitVec.ofNat 64 32) (caller.reg .rbp)).storeQuad
      (frame caller + BitVec.ofNat 64 24) (caller.reg .r14)).storeQuad
      (frame caller + BitVec.ofNat 64 16) (caller.reg .r13)).storeQuad
      (frame caller + BitVec.ofNat 64 8) (caller.reg .r12)).storeQuad
      (frame caller + BitVec.ofNat 64 24) (caller.reg .rdi) := by
  have first : caller.reg .rsp - 8 = frame caller + BitVec.ofNat 64 32 := by
    rw [frame]
    bv_omega
  have down : ∀ offset, frame caller + BitVec.ofNat 64 (offset + 8) - 8 =
      frame caller + BitVec.ofNat 64 offset := by
    intro offset
    rw [BitVec.ofNat_add]
    bv_omega
  have function :
      frame caller + BitVec.ofNat 64 32 + -8 = frame caller + BitVec.ofNat 64 24 := by
    bv_omega
  simp only [framed, first, down 24, down 16, down 8, function]

theorem framed_r12 : (framed caller).quad (frame caller + BitVec.ofNat 64 8) = caller.reg .r12 := by
  rw [framed_slots, AddressSpace.quad_storeQuad_apart _ _ (by decide) (by decide) (by decide),
    AddressSpace.quad_storeQuad _ _ (by decide)]

theorem framed_r13 : (framed caller).quad (frame caller + BitVec.ofNat 64 16) =
    caller.reg .r13 := by
  rw [framed_slots, AddressSpace.quad_storeQuad_apart _ _ (by decide) (by decide) (by decide),
    AddressSpace.quad_storeQuad_apart _ _ (by decide) (by decide) (by decide),
    AddressSpace.quad_storeQuad _ _ (by decide)]

theorem framed_function : (framed caller).quad (frame caller + BitVec.ofNat 64 24) =
    caller.reg .rdi := by
  rw [framed_slots, AddressSpace.quad_storeQuad _ _ (by decide)]

theorem framed_rbp : (framed caller).quad (frame caller + BitVec.ofNat 64 32) =
    caller.reg .rbp := by
  rw [framed_slots, AddressSpace.quad_storeQuad_apart _ _ (by decide) (by decide) (by decide),
    AddressSpace.quad_storeQuad_apart _ _ (by decide) (by decide) (by decide),
    AddressSpace.quad_storeQuad_apart _ _ (by decide) (by decide) (by decide),
    AddressSpace.quad_storeQuad_apart _ _ (by decide) (by decide) (by decide),
    AddressSpace.quad_storeQuad _ _ (by decide)]

theorem framed_outside (outside : 40 ≤ (cell - frame caller).toNat) :
    framed caller cell = caller.memory cell := by
  have apart : ∀ slot, slot + 8 ≤ 40 →
      8 ≤ (cell - (frame caller + BitVec.ofNat 64 slot)).toNat := by
    intro slot inside
    have distance : cell - (frame caller + BitVec.ofNat 64 slot) =
        cell - frame caller - BitVec.ofNat 64 slot := by ring
    rw [distance, BitVec.toNat_sub_of_le (by rw [BitVec.le_def, BitVec.toNat_ofNat]; omega),
      BitVec.toNat_ofNat]
    omega
  rw [framed_slots, AddressSpace.storeQuad_outside _ _ (apart 24 (by decide)),
    AddressSpace.storeQuad_outside _ _ (apart 8 (by decide)),
    AddressSpace.storeQuad_outside _ _ (apart 16 (by decide)),
    AddressSpace.storeQuad_outside _ _ (apart 24 (by decide)),
    AddressSpace.storeQuad_outside _ _ (apart 32 (by decide))]

theorem framed_return : (framed caller).quad (caller.reg .rsp) =
    caller.memory.quad (caller.reg .rsp) := by
  refine word64_congr fun i inside => framed_outside caller ?_
  have distance : caller.reg .rsp + BitVec.ofNat 64 i - frame caller = 40 + BitVec.ofNat 64 i := by
    rw [frame]
    ring
  rw [distance, BitVec.toNat_add, BitVec.toNat_ofNat]
  change 40 ≤ (40 + i % 2 ^ 64) % 2 ^ 64
  omega

end Frame

/-! ## The loop -/

def offset (types : BitVec 64) : Nat → Nat
  | 0 => 0
  | i + 1 => offset types i + ((widthOf (typeOf types i)).map Width.bytes).getD 0

/-- The register carries the packed argument in as many bytes as its type has. -/
def Carries (memory : AddressSpace 64) (block types : BitVec 64) (i : Nat) (value : BitVec 64) :
    Prop :=
  ∀ width, widthOf (typeOf types i) = some width →
    value.toNat % 256 ^ width.bytes =
      leNat (memory.view (block + BitVec.ofNat 64 (offset types i))) width.bytes

/-- What the loop leaves alone until the call. -/
structure Framed (caller cpu : Cpu) : Prop where
  kept : cpu.reg retv = caller.reg .rsi
  base : cpu.reg .rbp = frame caller + BitVec.ofNat 64 32
  top : cpu.reg .rsp = frame caller
  memory : cpu.memory = framed caller
  calls : cpu.calls = caller.calls

/-- At `_load` with the first arguments taken. -/
structure Loading (caller : Cpu) (i : Nat) (cpu : Cpu) : Prop extends Framed caller cpu where
  count : cpu.reg argc = caller.reg .rdx - BitVec.ofNat 64 i
  types : cpu.reg argt = caller.reg .rcx >>> (4 * i)
  index : cpu.reg argi = BitVec.ofNat 64 i
  next : cpu.reg argv = caller.reg .r8 + BitVec.ofNat 64 (offset (caller.reg .rcx) i)
  delivered : ∀ j < i, Carries (framed caller) (caller.reg .r8) (caller.reg .rcx) j
    (cpu.reg (register j))

theorem entry (caller : Cpu) :
    ∃ cpu, (.load, cpu) ∈ enter (exec callee) text (.fmrCall, caller) ∧ Loading caller 0 cpu := by
  refine ⟨_, enter_next rfl rfl, ?_⟩
  exact
    { count := (BitVec.sub_zero _).symm
      types := (BitVec.ushiftRight_zero _).symm
      index := rfl
      next := (BitVec.add_zero _).symm
      kept := rfl
      base := by
        change caller.reg .rsp - 8 = _
        rw [frame]
        bv_omega
      top := by
        change caller.reg .rsp - 8 - 8 - 8 - 8 - 8 = _
        rw [frame]
        bv_omega
      memory := rfl
      calls := rfl
      delivered := fun _ less => absurd less (Nat.not_lt_zero _) }

theorem register_injective : ∀ j < 5, ∀ i < 5, j ≠ i → register j ≠ register i := by decide

theorem register_apart : ∀ i < 5,
    ∀ r ∈ [argc, argt, argi, retv, argv, temp, Reg.rax, Reg.rbp, Reg.rsp], r ≠ register i ∧
    register i ≠ r := by decide

theorem loading_step (loading : Loading caller i cpu) (few : i < 5)
    (more : caller.reg .rdx - BitVec.ofNat 64 i ≠ 0)
    (valid : widthOf (typeOf (caller.reg .rcx) i) = some width) :
    Reaches (enter (exec callee) text) (.load, cpu) (.load, stored i (fetched width cpu)) ∧
      Loading caller (i + 1) (stored i (fetched width cpu)) := by
  have type : cpu.reg argt &&& 7 = typeOf (caller.reg .rcx) i := by rw [loading.types, typeOf]
  have apart := register_apart i few
  simp only [List.forall_mem_cons] at apart
  constructor
  · have fetches := fetch callee cpu (loading.count ▸ more) (type ▸ valid)
    have index : (fetched width cpu).reg argi = BitVec.ofNat 64 i := by
      simpa [fetched] using loading.index
    exact fetches.trans (store callee _ (by omega) index)
  · exact
      { count := by
          simp [stored, fetched, apart, loading.count, BitVec.ofNat_add, BitVec.sub_sub]
        types := by
          simp [stored, fetched, apart, loading.types, Nat.mul_add, BitVec.shiftRight_add]
        index := by
          simp [stored, fetched, apart, loading.index, BitVec.ofNat_add]
        next := by
          simp [stored, fetched, apart, loading.next, offset, valid, BitVec.ofNat_add,
            BitVec.add_assoc]
        kept := by simp [stored, fetched, apart, loading.kept]
        base := by simp [stored, fetched, apart, loading.base]
        top := by simp [stored, fetched, apart, loading.top]
        memory := loading.memory
        calls := loading.calls
        delivered := by
          intro j less
          have apart' := register_apart j (by omega)
          simp only [List.forall_mem_cons] at apart'
          rcases Nat.lt_succ_iff_lt_or_eq.mp less with before | rfl
          · have other := register_injective j (by omega) i few (by omega)
            have kept : (stored i (fetched width cpu)).reg (register j) = cpu.reg (register j) := by
              simp [stored, fetched, other, apart']
            rw [kept]
            exact loading.delivered j before
          · have loaded : (stored j (fetched width cpu)).reg (register j) =
                width.write (cpu.reg .rax)
                  (leNat (cpu.memory.view (cpu.reg argv)) width.bytes) := by
              simp [stored, fetched, apart]
            intro width' valid'
            obtain rfl := Option.some.inj (valid.symm.trans valid')
            rw [loaded, loading.memory, loading.next]
            exact write_mod width _ (leNat_lt _ _) }

theorem loading_all (caller : Cpu) (few : n ≤ 5)
    (more : ∀ i < n, caller.reg .rdx - BitVec.ofNat 64 i ≠ 0)
    (valid : ∀ i < n, (widthOf (typeOf (caller.reg .rcx) i)).isSome) :
    ∃ cpu, Reaches (enter (exec callee) text) (.fmrCall, caller) (.load, cpu) ∧
      Loading caller n cpu := by
  induction n with
  | zero =>
    obtain ⟨cpu, entered, loading⟩ := entry callee caller
    exact ⟨cpu, .single entered, loading⟩
  | succ n ih =>
    obtain ⟨cpu, path, loading⟩ := ih (by omega) (fun i less => more i (by omega)) fun i less =>
      valid i (by omega)
    obtain ⟨width, known⟩ := Option.isSome_iff_exists.mp (valid n (by omega))
    obtain ⟨round, loaded⟩ := loading_step callee loading (by omega) (more n (by omega)) known
    exact ⟨_, path.trans round, loaded⟩

/-! ## The way back -/

/-- The registers a function has to keep, and the bytes of its caller's frame. -/
structure Conforms (callee : Callee) : Prop where
  saved : ∀ target reg memory, ∀ r ∈ [Reg.rbp, Reg.rsp, Reg.r12, Reg.r13, Reg.r14],
    (callee target reg memory).1 r = reg r
  frame : ∀ target reg memory cell, (cell - reg .rsp).toNat < 48 →
    (callee target reg memory).2.1 cell = memory cell

/-- Back in the caller, with all it wants kept but `r14`. -/
structure Returned (caller after : Cpu) : Prop where
  rip : after.rip = caller.memory.quad (caller.reg .rsp)
  rsp : after.reg .rsp = caller.reg .rsp + 8
  rbp : after.reg .rbp = caller.reg .rbp
  r12 : after.reg .r12 = caller.reg .r12
  r13 : after.reg .r13 = caller.reg .r13
  r14 : after.reg .r14 = caller.reg .rdi

theorem done_run (caller cpu : Cpu) (top : cpu.reg .rsp = frame caller)
    (kept : ∀ cell, (cell - frame caller).toNat < 48 → cpu.memory cell = framed caller cell) :
    ∃ after, run (exec callee) text 1 (.done, cpu) = some after ∧ Returned caller after ∧
      after.reg .rax = cpu.reg .rax ∧ after.memory = cpu.memory ∧ after.calls = cpu.calls := by
  have quads : ∀ slot ≤ 40, cpu.memory.quad (frame caller + BitVec.ofNat 64 slot) =
      (framed caller).quad (frame caller + BitVec.ofNat 64 slot) := by
    intro slot inside
    refine word64_congr fun i less => ?_
    rw [AddressSpace.view_add, AddressSpace.view_add]
    refine kept _ ?_
    rw [AddressSpace.offset_toNat _ (by omega)]
    omega
  have slots : ∀ slot, cpu.reg .rsp + BitVec.ofNat 64 slot = frame caller + BitVec.ofNat 64 slot :=
    fun slot => by rw [top]
  have up : ∀ slot, cpu.reg .rsp + BitVec.ofNat 64 slot + 8 = cpu.reg .rsp + BitVec.ofNat 64
      (slot + 8) := by
    intro slot
    rw [BitVec.ofNat_add, BitVec.add_assoc]
    rfl
  have first : cpu.reg .rsp + 8 = cpu.reg .rsp + BitVec.ofNat 64 8 := rfl
  have return40 : frame caller + BitVec.ofNat 64 40 = caller.reg .rsp := by
    rw [frame]
    bv_omega
  refine ⟨_, run_leave rfl, ?_, rfl, rfl, rfl⟩
  exact
    { rip := by
        change cpu.memory.quad (cpu.reg .rsp + 8 + 8 + 8 + 8 + 8) = _
        rw [first, up, up, up, up, slots, quads 40 (by decide), return40, framed_return]
      rsp := by
        change cpu.reg .rsp + 8 + 8 + 8 + 8 + 8 + 8 = _
        rw [first, up, up, up, up, slots, return40]
      rbp := by
        change cpu.memory.quad (cpu.reg .rsp + 8 + 8 + 8 + 8) = _
        rw [first, up, up, up, slots, quads 32 (by decide), framed_rbp]
      r12 := by
        change cpu.memory.quad (cpu.reg .rsp + 8) = _
        rw [first, slots, quads 8 (by decide), framed_r12]
      r13 := by
        change cpu.memory.quad (cpu.reg .rsp + 8 + 8) = _
        rw [first, up, slots, quads 16 (by decide), framed_r13]
      r14 := by
        change cpu.memory.quad (cpu.reg .rsp + 8 + 8 + 8) = _
        rw [first, up, up, slots, quads 24 (by decide), framed_function] }

theorem fail_run (holds : Framed caller cpu) :
    ∃ fuel after, run (exec callee) text fuel (.fail, cpu) = some after ∧ Returned caller after ∧
      after.reg .rax = -1 ∧ after.calls = caller.calls := by
  obtain ⟨after, ran, returned, rax, -, calls⟩ := done_run callee caller (cpu.set .rax (-1))
    (by simpa using holds.top) fun cell _ => congrFun holds.memory cell
  refine ⟨2, after, ?_, returned, by simpa using rax, calls.trans holds.calls⟩
  exact (run_enter 1 (enter_next rfl rfl)).trans ran

theorem and_seven (x : BitVec 64) : x &&& 7 = 5 ∨ ∃ label, returns.lookup (x &&& 7) = some label ∧
    text.body label = [.jmp .done] := by
  have small : (x &&& 7).toNat < 8 := by
    rw [BitVec.toNat_and]
    exact Nat.lt_succ_of_le Nat.and_le_right
  have spelled : x &&& 7 = BitVec.ofNat 64 (x &&& 7).toNat := by simp
  generalize (x &&& 7).toNat = i at small spelled
  rw [spelled]
  interval_cases i
  all_goals first
    | exact .inl rfl
    | exact .inr ⟨_, rfl, rfl⟩

theorem ret_done (cpu : Cpu) :
    ∃ returning, Reaches (enter (exec callee) text) (.ret, cpu) (.done, returning) ∧
      returning.memory = cpu.memory ∧ returning.calls = cpu.calls ∧
      returning.reg .rsp = cpu.reg .rsp ∧
      returning.reg .rax = if cpu.reg retv &&& 7 = 5 then -1 else cpu.reg .rax := by
  have selects : runBlock (exec callee) (text.body .ret) cpu =
      runBlock (exec callee) (select (compareJump temp) returns ++ [.jmp .fail])
        (cpu.result temp (cpu.reg retv &&& 7)) :=
    congrArg (runBlock _ _) (Cpu.set_result cpu temp (cpu.reg retv))
  have type : (cpu.result temp (cpu.reg retv &&& 7)).reg temp = cpu.reg retv &&& 7 := by simp
  rcases and_seven (cpu.reg retv) with five | ⟨label, found, body⟩
  · -- The function has been called; its result is lost.
    obtain ⟨zf, missed⟩ := select_missed callee temp [.jmp .fail]
      (cpu.result temp (cpu.reg retv &&& 7))
      (by rw [type, five]; rfl : returns.lookup _ = none)
    refine ⟨_, .head (enter_jump (selects.trans missed)) (.single (enter_next rfl rfl)), rfl, rfl,
      rfl, ?_⟩
    rw [if_pos five]
    rfl
  · have other : cpu.reg retv &&& 7 ≠ 5 := by
      intro five
      rw [five] at found
      cases found
    have chosen := (comparison callee temp).found [.jmp Label.fail]
      (cpu.result temp (cpu.reg retv &&& 7))
      (by rw [type]; exact found)
    have jumps : ∀ state, (.done, state) ∈ enter (exec callee) text (label, state) :=
      fun state => enter_jump (congrArg (runBlock _ · state) body)
    refine ⟨_, .head (enter_jump (selects.trans chosen)) (.single (jumps _)), rfl, rfl, rfl, ?_⟩
    rw [if_neg other]
    rfl

theorem call_run (conforms : Conforms callee) (holds : Framed caller cpu)
    (counted : cpu.reg argc = 0) :
    ∃ fuel after, run (exec callee) text fuel (.load, cpu) = some after ∧ Returned caller after ∧
      after.calls = caller.calls ++ [⟨caller.reg .rdi, cpu.reg, framed caller⟩] ∧
      after.memory = (callee (caller.reg .rdi) cpu.reg (framed caller)).2.1 ∧
      after.reg .rax = if caller.reg .rsi &&& 7 = 5 then -1
        else (callee (caller.reg .rdi) cpu.reg (framed caller)).1 .rax := by
  have leaves : (.doCall, { cpu with zf := true }) ∈ enter (exec callee) text (.load, cpu) := by
    refine enter_jump ?_
    rw [body_load, (comparison callee argc).runs, if_pos counted]
  -- The pointer read back for the call is the one that was stored.
  have slot : cpu.memory.quad (cpu.reg .rbp + -8) = caller.reg .rdi := by
    have address : cpu.reg .rbp + -8 = frame caller + BitVec.ofNat 64 24 := by
      rw [holds.base]
      bv_omega
    rw [address, holds.memory, framed_function]
  let called := callee (caller.reg .rdi) cpu.reg (framed caller)
  have calls : (.ret, ⟨called.1, called.2.1, called.2.2, cpu.rip,
      caller.calls ++ [⟨caller.reg .rdi, cpu.reg, framed caller⟩]⟩) ∈
        enter (exec callee) text (.doCall, { cpu with zf := true }) := by
    refine enter_next ?_ rfl
    change Flow.next _ = _
    dsimp only
    rw [slot, holds.memory, holds.calls]
  have saved := conforms.saved (caller.reg .rdi) cpu.reg (framed caller)
  simp only [List.forall_mem_cons] at saved
  obtain ⟨-, rsp, r12, -⟩ := saved
  obtain ⟨returning, back, memory, made, top, rax⟩ :=
    ret_done callee ⟨called.1, called.2.1, called.2.2, cpu.rip,
      caller.calls ++ [⟨caller.reg .rdi, cpu.reg, framed caller⟩]⟩
  obtain ⟨after, ran, returned, rax', memory', made'⟩ := done_run callee caller returning
    (top.trans (rsp.trans holds.top)) fun cell inside => by
      rw [memory]
      exact conforms.frame _ _ _ _ (by rwa [holds.top])
  obtain ⟨fuel, ran⟩ := run_reaches (.head leaves (.head calls back)) ⟨1, ran⟩
  refine ⟨fuel, after, ran, returned, made'.trans made, memory'.trans memory,
    rax'.trans (rax.trans ?_)⟩
  change (if called.1 retv &&& 7 = 5 then _ else called.1 .rax) = _
  rw [show called.1 retv = caller.reg .rsi from r12.trans holds.kept]

/-! ## Whole calls -/

theorem widthOf_none (invalid : widthOf type = none) : loads.lookup type = none := by
  unfold widthOf at invalid
  split_ifs at invalid with zero one three eight
  refine List.lookup_eq_none_iff.mpr ?_
  simp only [not_or] at eight
  simpa [loads] using ⟨zero, one, three, eight⟩

theorem reject_run (holds : Framed caller cpu) (more : cpu.reg argc ≠ 0)
    (invalid : widthOf (cpu.reg argt &&& 7) = none) :
    ∃ fuel after, run (exec callee) text fuel (.load, cpu) = some after ∧ Returned caller after ∧
      after.reg .rax = -1 ∧ after.calls = caller.calls := by
  obtain ⟨zf, selects⟩ := load_select callee cpu more
  obtain ⟨zf', missed⟩ := select_missed callee temp [.jmp Label.fail]
    { cpu.set temp (cpu.reg argt &&& 7) with zf } (by simpa using widthOf_none invalid)
  have still : Framed caller { cpu.set temp (cpu.reg argt &&& 7) with zf := zf' } :=
    ⟨by simpa using holds.kept, by simpa using holds.base, by simpa using holds.top, holds.memory,
      holds.calls⟩
  obtain ⟨fuel, after, ran, rest⟩ := fail_run callee still
  exact ⟨fuel + 1, after, (run_enter fuel (enter_jump (selects.trans missed))).trans ran, rest⟩

theorem offset_mono (types : BitVec 64) : Monotone (offset types) :=
  monotone_nat_of_le_succ fun _ => Nat.le_add_right _ _

/-- The packed arguments lie outside the frame that `fmr_call` writes. -/
def Apart (caller : Cpu) (n : Nat) : Prop :=
  ∀ k < offset (caller.reg .rcx) n, 40 ≤ (caller.reg .r8 + BitVec.ofNat 64 k - frame caller).toNat

theorem carries_framed (apart : Apart caller n) (inside : i < n)
    (carries : Carries (framed caller) (caller.reg .r8) (caller.reg .rcx) i value) :
    Carries caller.memory (caller.reg .r8) (caller.reg .rcx) i value := by
  intro width valid
  rw [carries width valid]
  refine leNat_congr fun k less => ?_
  have through := offset_mono (caller.reg .rcx) (show i + 1 ≤ n from inside)
  rw [offset, valid] at through
  change _ + width.bytes ≤ _ at through
  rw [AddressSpace.view_add, AddressSpace.view_add]
  exact framed_outside caller (apart _ (by omega))

theorem count_left {caller : Cpu} (count : caller.reg .rdx = BitVec.ofNat 64 n) (few : n < 2 ^ 64)
    (less : i < n) :
    caller.reg .rdx - BitVec.ofNat 64 i ≠ 0 := by
  rw [count]
  bv_omega

theorem fmrCall_five (conforms : Conforms callee) (caller : Cpu) (few : n ≤ 5)
    (count : caller.reg .rdx = BitVec.ofNat 64 n) :
    ∃ fuel after, run (exec callee) text fuel (.fmrCall, caller) = some after ∧
      Returned caller after ∧
      ((∃ i < n, widthOf (typeOf (caller.reg .rcx) i) = none) →
        after.calls = caller.calls ∧ after.reg .rax = -1) ∧
      ((∀ i < n, (widthOf (typeOf (caller.reg .rcx) i)).isSome) → Apart caller n →
        ∃ call, after.calls = caller.calls ++ [call] ∧ call.target = caller.reg .rdi ∧
          (∀ i < n, Carries caller.memory (caller.reg .r8) (caller.reg .rcx) i
            (call.reg (register i))) ∧
          (∀ cell, 40 ≤ (cell - frame caller).toNat → call.memory cell = caller.memory cell) ∧
          after.memory = (callee call.target call.reg call.memory).2.1 ∧
          after.reg .rax = if caller.reg .rsi &&& 7 = 5 then -1
            else (callee call.target call.reg call.memory).1 .rax) := by
  have more : ∀ i < n, caller.reg .rdx - BitVec.ofNat 64 i ≠ 0 :=
    fun i less => count_left count (by omega) less
  by_cases valid : ∀ i < n, (widthOf (typeOf (caller.reg .rcx) i)).isSome
  · obtain ⟨cpu, path, loading⟩ := loading_all callee caller few more valid
    have counted : cpu.reg argc = 0 := by
      rw [loading.count, count]
      exact BitVec.sub_self _
    obtain ⟨fuel, after, ran, returned, calls, memory, rax⟩ :=
      call_run callee conforms loading.toFramed counted
    obtain ⟨fuel, ran⟩ := run_reaches path ⟨fuel, ran⟩
    refine ⟨fuel, after, ran, returned, ?_, fun _ apart => ?_⟩
    · rintro ⟨i, less, invalid⟩
      have known := valid i less
      rw [invalid] at known
      cases known
    · exact ⟨_, calls, rfl, fun i less => carries_framed apart less (loading.delivered i less),
        fun cell outside => framed_outside caller outside, memory, rax⟩
  · -- The first type without a width ends the loop.
    have some_invalid : ∃ i, i < n ∧ widthOf (typeOf (caller.reg .rcx) i) = none := by
      simpa [Option.isSome_iff_ne_none] using valid
    classical
    let i := Nat.find some_invalid
    have first : ∀ j < i, (widthOf (typeOf (caller.reg .rcx) j)).isSome := by
      intro j less
      have earlier := Nat.find_min some_invalid less
      have inside : j < n := less.trans (Nat.find_spec some_invalid).1
      exact Option.isSome_iff_ne_none.mpr fun none => earlier ⟨inside, none⟩
    obtain ⟨inside, invalid⟩ := Nat.find_spec some_invalid
    obtain ⟨cpu, path, loading⟩ := loading_all callee caller (by omega : i ≤ 5)
      (fun j less => more j (less.trans inside)) first
    obtain ⟨fuel, after, ran, returned, rax, calls⟩ := reject_run callee loading.toFramed
      (loading.count ▸ more i inside) (by rw [loading.types]; exact invalid)
    obtain ⟨fuel, ran⟩ := run_reaches path ⟨fuel, ran⟩
    exact ⟨fuel, after, ran, returned, fun _ => ⟨calls, rax⟩, fun all => absurd all valid⟩

def sum : Callee := fun _ reg memory =>
    (Function.update reg .rax (reg .rdi + reg .rsi), memory, true)

theorem sum_conforms : Conforms sum where
  saved _ reg _ := by simp [sum]
  frame _ _ _ _ _ := rfl

/-- A caller with a stack, a block of packed bytes 1, 2, 3, … and as many arguments of the
types as it says. -/
def packed (count types : BitVec 64) : Cpu where
  reg
    | .rdi => 0x4000
    | .rdx => count
    | .rcx => types
    | .r8 => 0x2000
    | .rsp => 0x1000
    | _ => 0
  memory cell := (cell - 0x1FFF).setWidth 8
  zf := false
  rip := 0
  calls := []

theorem fmrCall_five_sum : ∃ fuel after,
    run (exec sum) text fuel (.fmrCall, packed 2 0x10) = some after ∧
    after.reg .r14 = 0x4000 ∧ ∃ call, after.calls = [call] ∧ call.target = 0x4000 ∧
      (call.reg .rdi).toNat % 256 = 1 ∧ (call.reg .rsi).toNat % 256 ^ 2 = 0x302 := by
  obtain ⟨fuel, after, ran, returned, -, delivers⟩ :=
    fmrCall_five sum sum_conforms (packed 2 0x10) (by decide : 2 ≤ 5) rfl
  obtain ⟨call, calls, target, carries, -⟩ := delivers (by decide) (by unfold Apart; decide)
  refine ⟨fuel, after, ran, returned.r14, call, calls, target, ?_, ?_⟩
  · exact (carries 0 (by decide) .b rfl).trans (by decide)
  · exact (carries 1 (by decide) .w rfl).trans (by decide)

/-- There is no seventh register: an argument for the stack is not passed. -/
theorem stack_run (holds : Framed caller cpu) (index : cpu.reg argi = 6) :
    ∃ fuel after, run (exec callee) text fuel (.loadDone, cpu) = some after ∧
      Returned caller after ∧
      after.reg .rax = -1 ∧ after.calls = caller.calls := by
  obtain ⟨zf, missed⟩ := select_missed callee argi [.jmp Label.writeStack] cpu
    (by rw [index]; rfl : writes.lookup _ = none)
  have still : Framed caller { cpu with zf } :=
    ⟨holds.kept, holds.base, holds.top, holds.memory, holds.calls⟩
  obtain ⟨fuel, after, ran, rest⟩ := fail_run callee still
  refine ⟨fuel + 1 + 1, after, ?_, rest⟩
  rw [run_enter (fuel + 1) (enter_jump missed), run_enter fuel (enter_jump rfl), ran]

theorem stuck_run (holds : Framed caller cpu) (more : cpu.reg argc ≠ 0) (index : cpu.reg argi = 6) :
    ∃ fuel after, run (exec callee) text fuel (.load, cpu) = some after ∧ Returned caller after ∧
      after.reg .rax = -1 ∧ after.calls = caller.calls := by
  cases valid : widthOf (cpu.reg argt &&& 7) with
  | none => exact reject_run callee holds more valid
  | some width =>
    have still : Framed caller (fetched width cpu) :=
      ⟨by simpa [fetched] using holds.kept, by simpa [fetched] using holds.base,
        by simpa [fetched] using holds.top, holds.memory, holds.calls⟩
    obtain ⟨fuel, after, ran, rest⟩ := stack_run callee still (by simpa [fetched] using index)
    obtain ⟨fuel, ran⟩ := run_reaches (fetch callee cpu more valid) ⟨fuel, ran⟩
    exact ⟨fuel, after, ran, rest⟩

/-- The sixth argument goes to the register that counts the arguments. -/
theorem sixth_step (loading : Loading caller 5 cpu) (more : caller.reg .rdx - BitVec.ofNat 64 5 ≠ 0)
    (valid : widthOf (typeOf (caller.reg .rcx) 5) = some width) :
    ∃ next, Reaches (enter (exec callee) text) (.load, cpu) (.load, next) ∧ Framed caller next ∧
      next.reg argi = 6 ∧
      next.reg argc = width.write (cpu.reg .rax)
        (leNat ((framed caller).view
          (caller.reg .r8 + BitVec.ofNat 64 (offset (caller.reg .rcx) 5))) width.bytes) - 1 := by
  have type : cpu.reg argt &&& 7 = typeOf (caller.reg .rcx) 5 := by rw [loading.types, typeOf]
  have index : (fetched width cpu).reg argi = BitVec.ofNat 64 5 :=
    by simpa [fetched] using loading.index
  refine ⟨stored 5 (fetched width cpu), ?_, ?_, ?_, ?_⟩
  · exact (fetch callee cpu (loading.count ▸ more) (type ▸ valid)).trans
      (store callee _ (by decide) index)
  · exact ⟨by simpa [stored, fetched, register] using loading.kept,
      by simpa [stored, fetched, register] using loading.base,
      by simpa [stored, fetched, register] using loading.top, loading.memory, loading.calls⟩
  · simp [stored, fetched, register, loading.index]
  · simp [stored, fetched, register, loading.memory, loading.next]

theorem fmrCall_sixth (conforms : Conforms callee) (caller : Cpu)
    (many : 6 ≤ (caller.reg .rdx).toNat)
    (valid : ∀ i < 6, (widthOf (typeOf (caller.reg .rcx) i)).isSome) :
    ∃ fuel after, run (exec callee) text fuel (.fmrCall, caller) = some after ∧
      Returned caller after ∧
      (after.calls = caller.calls ∧ after.reg .rax = -1 ∨
        ∃ call, after.calls = caller.calls ++ [call] ∧ call.reg (register 5) = 0 ∧
          (∀ cell, 40 ≤ (cell - frame caller).toNat → call.memory cell = caller.memory cell) ∧
          ∀ width, widthOf (typeOf (caller.reg .rcx) 5) = some width →
            leNat (call.memory.view (caller.reg .r8 + BitVec.ofNat 64 (offset (caller.reg .rcx) 5)))
              width.bytes = 1) := by
  have more : ∀ i < 6, caller.reg .rdx - BitVec.ofNat 64 i ≠ 0 := by
    intro i less
    bv_omega
  obtain ⟨cpu, path, loading⟩ :=
    loading_all callee caller (Nat.le_refl 5) (fun i less => more i (by omega))
    fun i less => valid i (by omega)
  obtain ⟨width, known⟩ := Option.isSome_iff_exists.mp (valid 5 (by decide))
  obtain ⟨next, round, holds, index, count⟩ := sixth_step callee loading (more 5 (by decide)) known
  by_cases counted : next.reg argc = 0
  · obtain ⟨fuel, after, ran, returned, calls, -⟩ := call_run callee conforms holds counted
    obtain ⟨fuel, ran⟩ := run_reaches (path.trans round) ⟨fuel, ran⟩
    refine ⟨fuel, after, ran, returned, .inr ⟨_, calls, counted,
      fun cell outside => framed_outside caller outside, fun width' known' => ?_⟩⟩
    obtain rfl := Option.some.inj (known.symm.trans known')
    -- The count reaches zero only from one, and the argument is the low bytes of that.
    have one := BitVec.sub_eq_iff_eq_add.mp (count.symm.trans counted)
    rw [← write_mod width (cpu.reg .rax) (leNat_lt _ _), one]
    cases width <;> rfl
  · obtain ⟨fuel, after, ran, returned, rax, calls⟩ := stuck_run callee holds counted index
    obtain ⟨fuel, ran⟩ := run_reaches (path.trans round) ⟨fuel, ran⟩
    exact ⟨fuel, after, ran, returned, .inl ⟨calls, rax⟩⟩

/-- Six arguments of one byte, the last of which is six: after it the loop has five more to do. -/
theorem fmrCall_sixth_sum : ∃ fuel after,
    run (exec sum) text fuel (.fmrCall, packed 6 0) = some after ∧ after.reg .r14 = 0x4000 ∧
      after.calls = [] ∧ after.reg .rax = -1 := by
  obtain ⟨fuel, after, ran, returned, ⟨calls, rax⟩ | ⟨call, -, -, kept, one⟩⟩ :=
    fmrCall_sixth sum sum_conforms (packed 6 0) (by decide) (by decide)
  · exact ⟨fuel, after, ran, returned.r14, calls, rax⟩
  · have six : call.memory 0x2005 = 6 := (kept _ (by decide)).trans (by decide)
    have last : 0 + 256 ^ 0 * (call.memory 0x2005).toNat = 1 := one .b (by decide)
    rw [six] at last
    exact absurd last (by decide)

end Flipper.Arch.X64
