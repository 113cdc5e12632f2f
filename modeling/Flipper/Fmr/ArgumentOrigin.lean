import Flipper.Fmr.CallGate

/-! Where the arguments of a call come from. A value is copied over the first bytes of
a fresh record, so what the record held before shows through wherever the argument is
narrower than the value field. -/
namespace Flipper.Fmr
open Binary Effect

section Heap
variable {σ : Type}

/-- The environment with other contents in the blocks `malloc` returns. Where the blocks
are, and whether there are any, stays as it was. -/
def withHeap (contents : σ → Mem) (far : World fmr σ) : World fmr σ where
  answer op s := match op with
    | .malloc size =>
      let reply := far.answer (Op.malloc size) s
      (reply.1.map fun block => { block with bytes := contents s }, reply.2)
    | op => far.answer op s

end Heap

/-- Whatever the fresh blocks held, the same function runs with the same arguments. -/
def ArgumentsFixed (registry : Registry) (device : LfDevice) (m : Mem) : Prop :=
  ∀ (σ : Type) (far : World fmr σ) (s : σ) (contents contents' : σ → Mem),
    invoked ((fmrPerform (fmrInit registry) device m).run (withHeap contents far) s).trace =
      invoked ((fmrPerform (fmrInit registry) device m).run (withHeap contents' far) s).trace

/-- Every argument fills the value field. -/
def Wide (m : Mem) (index remaining : Nat) : Prop :=
  ∀ k < remaining, lfSizeof (argType m (index + k)) = 8

theorem Wide.tail (wide : Wide m index (remaining + 1)) : Wide m (index + 1) remaining := by
  intro k inside
  rw [Nat.add_right_comm]
  exact wide (k + 1) (by omega)

theorem wide_cons (first : lfSizeof (argType m index) = 8) (more : Wide m (index + 1) remaining) :
    Wide m index (remaining + 1) := by
  intro k inside
  cases k with
  | zero => exact first
  | succ k =>
    rw [← Nat.add_assoc, Nat.add_right_comm]
    exact more k (by omega)

theorem wide_setCrc (m : Mem) (crc : BitVec 16) :
    Wide (setCrc m crc) index remaining ↔ Wide m index remaining := by
  have types : ∀ k, argType (setCrc m crc) k = argType m k := fun k =>
    setCrc_at m crc (by unfold argTypesOffset; omega)
  simp only [Wide, types]

/-- A full copy leaves nothing of the block. -/
theorem argValue_wide (m : Mem) (argv : Nat) (block block' : Block) :
    argValue m argv 8 block = argValue m argv 8 block' := by
  apply word64_congr
  intro k inside
  rw [if_pos inside, if_pos inside]

/-- A shorter one leaves at least the last byte. -/
theorem argValue_narrow {block block' : Block} (narrow : size < 8)
    (same : argValue m argv size block = argValue m argv size block') :
    block.bytes 8 = block'.bytes 8 := by
  have last := word64_inj same (by decide : 7 < 8)
  rwa [if_neg (by omega), if_neg (by omega)] at last

/-- Decoding arguments that fill their fields does not depend on the heap. -/
theorem fmrRpcArgs_heap (far : World fmr σ) (contents contents' : σ → Mem) (s : σ) (m : Mem)
    (err : Byte) (remaining index argv : Nat) (args : List LfArg) (wide : Wide m index remaining) :
    ((fmrRpcArgs m err remaining index argv args).run (withHeap contents far) s).value =
      ((fmrRpcArgs m err remaining index argv args).run (withHeap contents' far) s).value := by
  induction remaining generalizing s index argv args with
  | zero => rfl
  | succ remaining ih =>
    have size : lfSizeof (argType m index) = 8 := wide 0 (by omega)
    cases record : (far.answer (Op.malloc argRecordSize) s).1 with
    | none => simp [fmrRpcArgs, withHeap, record]
    | some block =>
      cases node : (far.answer (Op.malloc nodeSize)
        (far.answer (Op.malloc argRecordSize) s).2).1 with
      | none => simp [fmrRpcArgs, lfLlAppend, Prog.bind_assoc, withHeap, record, node]
      | some next =>
        have value := argValue_wide m argv { block with bytes := contents s }
          { block with bytes := contents' s }
        simp only [fmrRpcArgs, lfLlAppend, Prog.monad_bind, Prog.run_tell, Prog.bind_assoc,
          run_malloc, withHeap, record, node, size, value, Option.map_some, Outcome.prepend_value]
        exact ih _ _ _ _ wide.tail

def heapArgs (m heap : Mem) (index argv : Nat) : Nat → List LfArg
  | 0 => []
  | remaining + 1 =>
    let size := lfSizeof (argType m index)
    ⟨argType m index, argValue m argv size ⟨0, heap⟩⟩ :: heapArgs m heap (index + 1)
      (argv + size) remaining

theorem fmrRpcArgs_heapArgs (heap : Mem) (m : Mem) (err : Byte) (remaining index argv : Nat)
    (args : List LfArg) :
    ((fmrRpcArgs m err remaining index argv args).run (withHeap (fun _ => heap) obliging)
      ()).value =
      .ok (args ++ heapArgs m heap index argv remaining) := by
  induction remaining generalizing index argv args with
  | zero => simp [fmrRpcArgs, heapArgs]
  | succ remaining ih =>
    refine (ih (index + 1) (argv + lfSizeof (argType m index)) (args ++ [⟨argType m index,
      argValue m argv (lfSizeof (argType m index)) ⟨0, heap⟩⟩])).trans ?_
    rw [List.append_assoc]
    rfl

/-- Blocks that differ in one byte tell every narrow argument. -/
theorem wide_of_heapArgs {heap heap' : Mem} (differ : heap 8 ≠ heap' 8)
    (same : heapArgs m heap index argv remaining = heapArgs m heap' index argv remaining) :
    Wide m index remaining := by
  induction remaining generalizing index argv with
  | zero => exact fun k inside => absurd inside (Nat.not_lt_zero k)
  | succ remaining ih =>
    obtain ⟨head, tail⟩ := List.cons.inj same
    have value := congrArg LfArg.value head
    apply wide_cons _ (ih tail)
    by_contra narrow
    have size := lfSizeof_le (argType m index)
    exact differ (argValue_narrow (by omega) value)

section Perform
variable (registry : Registry) {device : LfDevice} {m : Mem}

/-- With `heap` in every fresh block the function runs on the arguments decoded over it. -/
theorem invoked_over_heap (heap : Mem) (accepted : Accepted m)
    (typed : hdrType m = FmrClass.rpc.code)
    (found : device.modules[(callModule m).toNat]? = some module)
    (inside : (callFunction m).toNat < module.table.length) :
    invoked ((fmrPerform (fmrInit registry) device m).run
        (withHeap (fun _ => heap) obliging) ()).trace =
      [(module.table.get ⟨(callFunction m).toNat, inside⟩,
        heapArgs (setCrc m 0) heap 0 argvOffset (callArgc m).toNat)] := by
  have loaded : device.modules ≠ [] := List.ne_nil_of_mem (List.mem_of_getElem? found)
  have found' : device.modules[(callModule (setCrc m 0)).toNat]? = some module := found
  rw [invoked_rpc registry device _ _ accepted loaded typed]
  exact fmrRpc_invokes _ _ found' inside (fmrRpcArgs_heapArgs heap (setCrc m 0) _ _ 0 argvOffset [])

end Perform

/-- An accepted call passes the same arguments over every heap exactly when each of them
fills the value field, or it names no function to pass them to. -/
theorem arguments_from_packet_iff (registry : Registry) (device : LfDevice) (m : Mem)
    (accepted : Accepted m) (typed : hdrType m = FmrClass.rpc.code) :
    ArgumentsFixed registry device m ↔
      (Callable device m → ∀ k < (callArgc m).toNat, lfSizeof (argType m k) = 8) := by
  constructor
  · rintro fixed ⟨module, found, inside⟩
    have runs := fixed Unit obliging () (fun _ _ => 0) (fun _ _ => 0xFF)
    rw [invoked_over_heap registry (fun _ => 0) accepted typed found inside,
      invoked_over_heap registry (fun _ => 0xFF) accepted typed found inside] at runs
    have lists := congrArg Prod.snd (List.cons.inj runs).1
    have wide := (wide_setCrc m 0).mp (wide_of_heapArgs (by decide) lists)
    intro k less
    simpa using wide k less
  · intro wide σ far s contents contents'
    by_cases callable : Callable device m
    case neg =>
      have silent : ∀ contents : σ → Mem, invoked ((fmrPerform (fmrInit registry) device m).run
          (withHeap contents far) s).trace = [] := by
        intro contents
        by_contra ran
        exact callable (invoked_needs registry device _ s ran).2.2.2
      rw [silent, silent]
    obtain ⟨module, found, inside⟩ := callable
    have found' : device.modules[(callModule (setCrc m 0)).toNat]? = some module := found
    have loaded : device.modules ≠ [] := List.ne_nil_of_mem (List.mem_of_getElem? found)
    have wide' : Wide (setCrc m 0) 0 (callArgc m).toNat := (wide_setCrc m 0).mpr fun k less => by
      rw [Nat.zero_add]
      exact wide ⟨module, found, inside⟩ k less
    have values := fmrRpcArgs_heap far contents contents' s (setCrc m 0) LfErr.eOk.code
      (callArgc m).toNat 0 argvOffset [] wide'
    rw [invoked_rpc registry device _ s accepted loaded typed,
      invoked_rpc registry device _ s accepted loaded typed]
    cases decoded : ((fmrRpcArgs (setCrc m 0) LfErr.eOk.code (callArgc m).toNat 0 argvOffset []).run
        (withHeap contents' far) s).value with
    | error code =>
      rw [fmrRpc_undecoded _ s found' inside decoded,
        fmrRpc_undecoded _ s found' inside (values.trans decoded)]
    | ok args =>
      rw [fmrRpc_invokes _ s found' inside decoded,
        fmrRpc_invokes _ s found' inside (values.trans decoded)]

/-- A call of the first function of `dac_module` with one argument, zero, of the type. -/
def unaryCall (type : LfType) : Mem :=
  storeCrc (Mem.overlay (fun _ => 0) [fmrMagicNumber, 0, 0, 34, 0, 0, 0, 0, lfVoidT, 1, type])

theorem word_argument_fixed :
    Accepted (unaryCall lfUint64T) ∧ hdrType (unaryCall lfUint64T) = FmrClass.rpc.code ∧
      Callable ⟨fvmModules⟩ (unaryCall lfUint64T) ∧
      ArgumentsFixed (fun _ => none) ⟨fvmModules⟩ (unaryCall lfUint64T) := by
  have accepted : Accepted (unaryCall lfUint64T) :=
    ⟨by decide +kernel, by decide +kernel, by decide +kernel⟩
  have typed : hdrType (unaryCall lfUint64T) = FmrClass.rpc.code := by decide +kernel
  refine ⟨accepted, typed, by decide +kernel, ?_⟩
  exact (arguments_from_packet_iff _ _ _ accepted typed).mpr fun _ => by decide +kernel

/-- A byte argument of zero reaches the function with whatever the heap held above it. -/
theorem byte_argument_leaks :
    Accepted (unaryCall lfUint8T) ∧ hdrType (unaryCall lfUint8T) = FmrClass.rpc.code ∧
      ¬ ArgumentsFixed (fun _ => none) ⟨fvmModules⟩ (unaryCall lfUint8T) := by
  refine ⟨⟨by decide +kernel, by decide +kernel, by decide +kernel⟩, by decide +kernel,
    fun fixed => ?_⟩
  have runs := fixed Unit obliging () (fun _ _ => 0) (fun _ _ => 0xFF)
  exact absurd runs (by decide +kernel)

end Flipper.Fmr
