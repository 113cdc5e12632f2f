import Flipper.Host.CallRoundTrip
import Flipper.Fmr.ArgumentOrigin

/-! The arguments of a generated stub: tagged by `lf_infer`, collected by `fmr_build`,
encoded by `lf_create_call`. -/
namespace Flipper.Host
open Binary Effect Fmr

/-- The widths of the unsigned C types a stub takes. -/
inductive CWidth where
  | one | two | four | eight
  deriving DecidableEq

def CWidth.bytes : CWidth → Nat
  | .one => 1
  | .two => 2
  | .four => 4
  | .eight => 8

structure CVariable where
  width : CWidth
  value : BitVec (8 * width.bytes)

def lfUtype (width : CWidth) : LfType := BitVec.ofNat 8 (width.bytes - 1)

/-- `lf_infer`, as the type and the value it passes. -/
def lfInfer (v : CVariable) : LfArg := ⟨lfUtype v.width, v.value.setWidth 64⟩

/-- `lf_ll_create`: the empty list is the NULL pointer. -/
def lfLlCreate : List α := []

/-- `fmr_append_arg`: the longer list, or nothing when an allocation fails. -/
def fmrAppendArg (list : List LfArg) (arg : LfArg) : FmrProg (Option (List LfArg)) := do
  match ← malloc argRecordSize with
  | none => pure none
  | some _ => lfLlAppend list arg

/-- The loop of `fmr_build`; a failure releases the list and returns NULL. -/
def fmrBuildLoop (args : List LfArg) : List LfArg → FmrProg (List LfArg)
  | [] => pure args
  | arg :: more => do
    match ← fmrAppendArg args arg with
    | none => pure []
    | some args => fmrBuildLoop args more

/-- `fmr_build` takes the NULL of `lf_ll_create` for a failure. -/
def fmrBuild (given : List LfArg) : FmrProg (List LfArg) :=
  match lfLlCreate with
  | [] => pure []
  | args => fmrBuildLoop args given

/-- The low bytes of each argument are those of the variable it stands for. -/
def CarriesVariables : List CVariable → List LfArg → Prop :=
  List.Forall₂ fun given got => got.value.toNat % 2 ^ (8 * given.width.bytes) = given.value.toNat

/-- The variables reach the device: inferred, built, encoded and decoded, on a host and a
device that do not run out of memory. -/
def VariablesSurvive (vars : List CVariable) : Prop :=
  ∀ {σ τ : Type} (near : World fmr σ) (far : World fmr τ) (s : σ) (t : τ) (module : BitVec 32)
    (function : LfFunction) (ret : LfType) (err : Byte),
    (∀ size s, (near.answer (Op.malloc size) s).1.isSome) →
    (∀ size t, (far.answer (Op.malloc size) t).1.isSome) →
      let built := ((fmrBuild (vars.map lfInfer)).run near s).value
      let created := lfCreateCall blankCall module function ret built
      created.1 = lfSuccess ∧
        ∃ got, ((fmrRpcArgs created.2 err (callArgc created.2).toNat 0 argvOffset []).run far
          t).value =
          .ok got ∧ CarriesVariables vars got

/-- The types and the variables, at their own widths, fit behind the header. -/
def VariablesFit (vars : List CVariable) : Prop :=
  callSize + vars.length + (vars.map fun v => v.width.bytes).sum ≤ fmrPacketSize - headerSize

instance (vars : List CVariable) : Decidable (VariablesFit vars) :=
  inferInstanceAs (Decidable (_ ≤ _))

theorem fmrBuild_run (given : List LfArg) (near : World fmr σ) (s : σ) :
    ((fmrBuild given).run near s).value = [] := rfl

/-- The empty call is accepted and decodes to no arguments. -/
theorem created_empty (module : BitVec 32) (function : LfFunction) (ret : LfType) :
    (lfCreateCall blankCall module function ret []).1 = lfSuccess ∧
      DecodesTo (lfCreateCall blankCall module function ret []).2 [] := by
  have accepts : CallAccepts [] := Or.inl rfl
  have argc := createCall_argc blankCall module function ret accepts
  refine ⟨(createCall_accepts _ _ _ _ _).mpr accepts, (decodesTo_iff _ []).mpr ⟨?_, trivial⟩⟩
  rw [argc]
  rfl

theorem VariablesSurvive.none (survive : VariablesSurvive vars) : vars = [] := by
  obtain ⟨_, got, run, carried⟩ := survive obliging obliging () () 0 0 lfVoidT 0
    (fun _ _ => rfl) (fun _ _ => rfl)
  obtain ⟨none, empty, same⟩ := (created_empty 0 0 lfVoidT).2 obliging () 0 fun _ _ => rfl
  rw [fmrBuild_run, empty] at run
  cases run
  cases same
  cases carried
  rfl

/-- No variable reaches the device: the list `fmr_build` returns is always NULL. -/
theorem variables_survive_iff (vars : List CVariable) : VariablesSurvive vars ↔ vars = [] := by
  constructor
  · exact VariablesSurvive.none
  · rintro rfl σ τ near far s t module function ret err _ available
    obtain ⟨success, decodes⟩ := created_empty module function ret
    obtain ⟨none, empty, same⟩ := decodes far t err available
    cases same
    exact ⟨success, [], empty, .nil⟩

/-- One `uint8_t` fits, and is not sent. -/
theorem byte_variable_lost :
    let vars : List CVariable := [⟨.one, 5⟩]
    VariablesFit vars ∧ ¬ VariablesSurvive vars ∧
      ((fmrBuild (vars.map lfInfer)).run obliging ()).value = [] ∧
      vars.map lfInfer = [⟨lfUintT, 5⟩] ∧ lfSizeof lfUintT = 0 := by
  intro vars
  refine ⟨by decide, ?_, rfl, by decide, by decide⟩
  intro survive
  exact absurd survive.none (List.cons_ne_nil _ _)

/-! The types by themselves: what would become of the variables if `fmr_build` returned
the list its loop makes. -/

/-- The variables reach the device from the list of their tags. -/
def TaggedSurvive (vars : List CVariable) : Prop :=
  ∀ {τ : Type} (far : World fmr τ) (t : τ) (module : BitVec 32) (function : LfFunction)
    (ret : LfType)
    (err : Byte), (∀ size t, (far.answer (Op.malloc size) t).1.isSome) →
      let call := (lfCreateCall blankCall module function ret (vars.map lfInfer)).2
      ∃ got, ((fmrRpcArgs call err (callArgc call).toNat 0 argvOffset []).run far t).value =
        .ok got ∧
        CarriesVariables vars got

/-- A variable of four bytes gets a type of eight, any other one a type of none. -/
theorem lfUtype_size (width : CWidth) :
    lfSizeof (lfUtype width) = if width = .four then 8 else 0 := by
  cases width <;> rfl

/-- Eight bytes carry a variable of four. -/
theorem carries_of_sameArgs (four : ∀ v ∈ vars, v.width = .four)
    (same : SameArgs (vars.map lfInfer) got) : CarriesVariables vars got := by
  rw [SameArgs, List.forall₂_map_left_iff] at same
  induction same with
  | nil => exact .nil
  | @cons v arg vars got first _ ih =>
    refine .cons ?_ (ih fun other member => four other (List.mem_cons_of_mem _ member))
    obtain ⟨width, value⟩ := v
    obtain rfl : width = .four := four _ List.mem_cons_self
    have small : value.toNat < 2 ^ 32 := value.isLt
    have low : arg.value.toNat % 2 ^ 64 = (value.setWidth 64).toNat % 2 ^ 64 := first.2
    rw [BitVec.toNat_setWidth] at low
    change arg.value.toNat % 2 ^ 32 = value.toNat
    omega

/-- A variable whose type has no bytes is whatever the heap held. -/
theorem four_of_carries (laid : Laid m i argv (vars.map lfInfer))
    (zeros : CarriesVariables vars (heapArgs m (fun _ => 0) i argv vars.length))
    (ones : CarriesVariables vars (heapArgs m (fun _ => 0xFF) i argv vars.length)) :
    ∀ v ∈ vars, v.width = .four := by
  induction vars generalizing i argv with
  | nil => simp
  | cons v vars ih =>
    obtain ⟨type, _, more⟩ := laid
    obtain ⟨low, zeros⟩ := List.forall₂_cons.mp zeros
    obtain ⟨high, ones⟩ := List.forall₂_cons.mp ones
    rw [List.forall_mem_cons]
    have tag : argType m i = lfUtype v.width := type
    rw [tag] at zeros ones low high
    refine ⟨?_, ih more zeros ones⟩
    by_contra other
    have heap (byte : Byte) : argValue m argv 0 ⟨0, fun _ => byte⟩ = word64 fun _ => byte :=
      word64_congr fun k _ => if_neg (Nat.not_lt_zero k)
    rw [lfUtype_size, if_neg other, heap] at low high
    have apart : ∀ width : CWidth, (word64 fun _ => 0).toNat % 2 ^ (8 * width.bytes) ≠
        (word64 fun _ => 0xFF).toNat % 2 ^ (8 * width.bytes) := by
      intro width
      cases width <;> decide +kernel
    exact apart v.width (low.trans high.symm)

/-- Up to sixteen accepted variables survive their tags just when all have four bytes. -/
theorem tagged_survive_iff (few : vars.length ≤ fmrMaxArgc)
    (accepts : CallAccepts (vars.map lfInfer)) :
    TaggedSurvive vars ↔ ∀ v ∈ vars, v.width = .four := by
  have count : (vars.map lfInfer).length < 256 := by
    rw [List.length_map]
    exact Nat.lt_of_le_of_lt few (by decide)
  have agree : AliasesAgree (vars.map lfInfer) := by
    rw [AliasesAgree, List.drop_eq_nil_of_le (by simpa using few)]
    simp
  constructor
  · intro survive
    have laid := (createCall_laid_iff blankCall 0 0 lfVoidT accepts count).mpr agree
    have argc := createCall_count blankCall 0 0 lfVoidT accepts count
    rw [List.length_map] at argc
    have onHeap (heap : Mem) : CarriesVariables vars (heapArgs
        (lfCreateCall blankCall 0 0 lfVoidT (vars.map lfInfer)).2 heap 0 argvOffset
          vars.length) := by
      obtain ⟨got, run, carried⟩ :=
        survive (withHeap (fun _ => heap) obliging) () 0 0 lfVoidT 0 fun _ _ => rfl
      rw [fmrRpcArgs_heapArgs, argc] at run
      cases run
      exact carried
    exact four_of_carries laid (onHeap _) (onHeap _)
  · intro four τ far t module function ret err available
    obtain ⟨got, run, same⟩ :=
      createCall_decodes blankCall module function ret accepts count agree far t err available
    exact ⟨got, run, carries_of_sameArgs four same⟩

end Flipper.Host
