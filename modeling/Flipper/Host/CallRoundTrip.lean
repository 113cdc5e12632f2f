import Flipper.Host.EncoderAgreement

/-! What `lf_create_call` encodes, read back by the argument loop of `fmr_rpc`. The type
of an argument past the sixteenth lies on the bytes of the values, and the count is kept
in eight bits; the size test bounds neither. -/
namespace Flipper.Host
open Binary Effect Fmr

/-- The argument loop of `fmr_rpc` makes these arguments of a call, in every environment
that does not run out of memory. -/
def DecodesTo (call : Mem) (args : List LfArg) : Prop :=
  ∀ {σ : Type} (far : World fmr σ) (s : σ) (err : Byte),
    (∀ size s, (far.answer (Op.malloc size) s).1.isSome) →
      ∃ got, ((fmrRpcArgs call err (callArgc call).toNat 0 argvOffset []).run far s).value =
        .ok got ∧
        SameArgs args got

/-- The bytes of the values, as they lie one behind the other in `argv`. -/
def argValues (args : List LfArg) : List Byte :=
  args.flatMap fun arg => Mem.slice (byteOf arg.value) 0 (lfSizeof arg.type)

/-- The types that lie on value bytes are the same bytes. -/
def AliasesAgree (args : List LfArg) : Prop :=
  ∀ pair ∈ (argValues args).zip (args.drop fmrMaxArgc), pair.1 = pair.2.type

instance (args : List LfArg) : Decidable (AliasesAgree args) :=
  inferInstanceAs (Decidable (∀ pair ∈ (argValues args).zip (args.drop fmrMaxArgc),
    pair.1 = pair.2.type))

@[simp] theorem argValues_cons (arg : LfArg) (args : List LfArg) :
    argValues (arg :: args) = Mem.slice (byteOf arg.value) 0 (lfSizeof arg.type) ++
      argValues args := rfl

@[simp] theorem argValues_length (args : List LfArg) : (argValues args).length = argsSize args := by
  simp [argValues, argsSize, List.length_flatMap]

/-- The two areas of a layout, each by itself. -/
theorem laid_iff (m : Mem) (i argv : Nat) (args : List LfArg) :
    Laid m i argv args ↔ (∀ j arg, args[j]? = some arg → argType m (i + j) = arg.type) ∧
      ∀ j byte, (argValues args)[j]? = some byte → m (argv + j) = byte := by
  induction args generalizing i argv with
  | nil => simp [Laid, argValues]
  | cons arg args ih =>
    rw [Laid, ih]
    constructor
    · rintro ⟨type, value, types, values⟩
      constructor
      · intro j other found
        cases j with
        | zero =>
          cases found
          exact type
        | succ j =>
          rw [show i + (j + 1) = i + 1 + j by omega]
          exact types j other found
      · intro j byte found
        rw [argValues_cons] at found
        by_cases inside : j < lfSizeof arg.type
        · rw [List.getElem?_append_left (by simpa using inside)] at found
          simp only [Mem.slice, List.getElem?_map, List.getElem?_range inside, Option.map_some,
            Nat.zero_add, Option.some.injEq] at found
          rw [value j inside, found]
        · rw [List.getElem?_append_right (by simpa using inside), Mem.slice_length] at found
          rw [show argv + j = argv + lfSizeof arg.type + (j - lfSizeof arg.type) by omega]
          exact values _ byte found
    · rintro ⟨types, values⟩
      refine ⟨types 0 arg rfl, ?_, ?_, ?_⟩
      · intro b inside
        apply values
        rw [argValues_cons, List.getElem?_append_left (by simpa using inside)]
        simp [Mem.slice, inside]
      · intro j other found
        rw [show i + 1 + j = i + (j + 1) by omega]
        exact types (j + 1) other found
      · intro j byte found
        rw [Nat.add_assoc]
        apply values
        rw [argValues_cons, List.getElem?_append_right (by simp), Mem.slice_length]
        rwa [Nat.add_sub_cancel_left]

/-! Decoding. -/

def storedArgs (m : Mem) (i argv : Nat) : Nat → List LfArg
  | 0 => []
  | n + 1 =>
    ⟨argType m i, word64 fun b => m (argv + b)⟩ ::
      storedArgs m (i + 1) (argv + lfSizeof (argType m i)) n

@[simp] theorem storedArgs_length (m : Mem) (i argv n : Nat) :
    (storedArgs m i argv n).length = n := by
  induction n generalizing i argv with
  | zero => rfl
  | succ n ih => rw [storedArgs, List.length_cons, ih]

theorem storedArgs_laid (m : Mem) (i argv n : Nat) : Laid m i argv (storedArgs m i argv n) := by
  induction n generalizing i argv with
  | zero => trivial
  | succ n ih =>
    refine ⟨rfl, ?_, ih _ _⟩
    intro b inside
    have narrow := lfSizeof_le (argType m i)
    exact (byteOf_word64 (fun b => m (argv + b)) (Nat.lt_of_lt_of_le inside narrow)).symm

/-- Arguments that no decoding tells apart are laid out alike. -/
theorem laid_of_sameArgs (stored : SameArgs held got) (given : SameArgs args got)
    (laid : Laid m i argv held) : Laid m i argv args := by
  induction given generalizing held i argv with
  | nil => trivial
  | cons same _ ih =>
    cases stored with
    | cons same' rest =>
      obtain ⟨type, value, more⟩ := laid
      obtain ⟨typed, valued⟩ := same
      obtain ⟨typed', valued'⟩ := same'
      have types := typed.symm.trans typed'
      rw [← types] at value more valued'
      refine ⟨type.trans types.symm, ?_, ih rest more⟩
      intro b inside
      rw [value b inside]
      exact byteOf_congr (valued'.symm.trans valued) inside

theorem decodesTo_iff (call : Mem) (args : List LfArg) :
    DecodesTo call args ↔ (callArgc call).toNat = args.length ∧ Laid call 0 argvOffset args := by
  constructor
  · intro decodes
    obtain ⟨got, run, same⟩ := decodes obliging () 0 fun _ _ => rfl
    obtain ⟨got', run', stored⟩ := fmrRpcArgs_decodes obliging (fun _ _ => rfl) () 0 0 argvOffset
      (storedArgs call 0 argvOffset (callArgc call).toNat) [] (storedArgs_laid _ _ _ _)
    rw [storedArgs_length, run, List.nil_append] at run'
    cases run'
    constructor
    · rw [same.length_eq, ← stored.length_eq, storedArgs_length]
    · exact laid_of_sameArgs stored same (storedArgs_laid _ _ _ _)
  · rintro ⟨count, laid⟩ σ far s err available
    obtain ⟨got, run, same⟩ := fmrRpcArgs_decodes far available s err 0 argvOffset args [] laid
    rw [List.nil_append] at run
    rw [count]
    exact ⟨got, run, same⟩

/-! Encoding. -/

theorem createCallArgs_frame (argc : Nat) (m : Mem) (i dst payloadSize : Nat) (args : List LfArg)
    (types : k < argTypesOffset + i) (values : k < dst) :
    (createCallArgs argc m i dst payloadSize args).2 k = m k := by
  induction args generalizing m i dst payloadSize with
  | nil => rfl
  | cons arg args ih =>
    rw [createCallArgs]
    split
    · dsimp only
      split
      · exact Mem.set_other _ _ (by omega)
      · rw [ih _ _ _ _ (by omega) (by omega), Mem.copy_outside _ _ _ _ (by omega),
          Mem.set_other _ _ (by omega)]
    · rfl

/-- Where the arguments have a layout at all, the loop leaves no byte that differs from it,
whichever of type and value is written last. -/
theorem createCallArgs_layout (layout : Mem) (argc : Nat) (m : Mem) (i dst payloadSize : Nat)
    (args : List LfArg) (counted : i + args.length ≤ argc) (laid : Laid layout i dst args)
    (accepted : (createCallArgs argc m i dst payloadSize args).1.isSome)
    (cell : m k = layout k ∨ (argTypesOffset + i ≤ k ∧ k < argTypesOffset + i + args.length) ∨
      (dst ≤ k ∧ k < dst + argsSize args)) :
    (createCallArgs argc m i dst payloadSize args).2 k = layout k := by
  induction args generalizing m i dst payloadSize with
  | nil =>
    rcases cell with same | inside | inside
    · exact same
    · simp at inside
      omega
    · simp at inside
      omega
  | cons arg args ih =>
    obtain ⟨type, value, more⟩ := laid
    rw [List.length_cons] at counted cell
    rw [argsSize_cons] at cell
    rw [createCallArgs, if_pos (by omega)] at accepted ⊢
    dsimp only at accepted ⊢
    split at accepted
    · cases accepted
    rename_i fits
    rw [if_neg fits]
    refine ih _ _ _ _ (by omega) more accepted ?_
    by_cases copied : dst ≤ k ∧ k < dst + lfSizeof arg.type
    · left
      rw [Mem.copy_inside _ _ _ _ copied.1 copied.2, ← value _ (by omega)]
      congr 1
      omega
    · rw [Mem.copy_outside _ _ _ _ (by omega)]
      by_cases typed : k = argTypesOffset + i
      · left
        rw [typed, Mem.set_self, ← type, argType]
      · rw [Mem.set_other _ _ typed]
        exact cell.imp_right fun inside => by omega

/-- A memory with the values behind each other and the types wherever no value is. -/
def callLayout (args : List LfArg) : Mem := fun k =>
  if argvOffset ≤ k ∧ k < argvOffset + argsSize args then (argValues args).getD (k - argvOffset) 0
  else (args[k - argTypesOffset]?.map LfArg.type).getD 0

theorem callLayout_laid (agree : AliasesAgree args) : Laid (callLayout args) 0 argvOffset args := by
  rw [laid_iff]
  constructor
  · intro j arg found
    rw [argType, callLayout]
    split
    · -- A type slot among the values: its byte is the value's.
      rename_i inside
      obtain ⟨e, rfl⟩ : ∃ e, j = fmrMaxArgc + e :=
        ⟨j - fmrMaxArgc, by unfold argTypesOffset argvOffset at inside; unfold fmrMaxArgc; omega⟩
      have position : argTypesOffset + (0 + (fmrMaxArgc + e)) - argvOffset = e := by
        unfold argTypesOffset argvOffset fmrMaxArgc
        omega
      have short : e < (argValues args).length := by
        rw [argValues_length]
        omega
      rw [position, List.getD_eq_getElem?_getD, List.getElem?_eq_getElem short, Option.getD_some]
      apply agree ((argValues args)[e], arg)
      rw [List.mem_iff_getElem?]
      refine ⟨e, List.getElem?_zip_eq_some.mpr ⟨List.getElem?_eq_getElem short, ?_⟩⟩
      rw [List.getElem?_drop]
      exact found
    · rw [Nat.zero_add, Nat.add_sub_cancel_left, found]
      rfl
  · intro j byte found
    obtain ⟨short, _⟩ := List.getElem?_eq_some_iff.mp found
    rw [argValues_length] at short
    rw [callLayout, if_pos (by omega), Nat.add_sub_cancel_left, List.getD_eq_getElem?_getD, found,
      Option.getD_some]

/-- A layout has one byte in each place. -/
theorem aliasesAgree_of_laid (laid : Laid m 0 argvOffset args) : AliasesAgree args := by
  intro pair member
  obtain ⟨types, values⟩ := (laid_iff _ _ _ _).mp laid
  obtain ⟨j, found⟩ := List.mem_iff_getElem?.mp member
  obtain ⟨value, type⟩ := List.getElem?_zip_eq_some.mp found
  rw [List.getElem?_drop] at type
  rw [← values j _ value, ← types _ _ type, argType]
  congr 1
  unfold argTypesOffset argvOffset fmrMaxArgc
  omega

section Created
variable (m : Mem) (module : BitVec 32) (function : LfFunction) (ret : LfType)

theorem createCall_at (accepts : CallAccepts args) (above : headerSize ≤ k) :
    (lfCreateCall m module function ret args).2 k =
      (createCallArgs (args.length % 256)
        ((((m.set 6 (module.setWidth 8)).set 7 0).set 8 ret).set 9 (BitVec.ofNat 8 args.length))
        0 argvOffset (callSize + args.length % 256) args).2 k := by
  unfold headerSize at above
  rw [createCall_filled m module function ret accepts]
  simp only [setLen, setType]
  rw [Mem.copy_outside _ _ _ _ (by omega), Mem.set_other _ _ (by omega)]

theorem createCall_argc (accepts : CallAccepts args) :
    callArgc (lfCreateCall m module function ret args).2 = BitVec.ofNat 8 args.length := by
  rw [callArgc, createCall_at m module function ret accepts (by decide),
    createCallArgs_frame _ _ _ _ _ _ (by decide) (by decide), Mem.set_self]

theorem createCall_laid_iff (accepts : CallAccepts args) (counted : args.length < 256) :
    Laid (lfCreateCall m module function ret args).2 0 argvOffset args ↔ AliasesAgree args := by
  constructor
  · exact aliasesAgree_of_laid
  · intro agree
    have layout := callLayout_laid agree
    refine laid_congr 0 argvOffset args (fun k inside => ?_) layout
    rw [createCall_at m module function ret accepts
      (by unfold argTypesOffset argvOffset at inside; unfold headerSize; omega)]
    apply createCallArgs_layout (callLayout args) _ _ _ _ _ _ _ layout
    · rw [createCallArgs_accepts, if_pos accepts]
      rfl
    · exact Or.inr inside
    · omega

theorem createCall_count (accepts : CallAccepts args) (counted : args.length < 256) :
    (callArgc (lfCreateCall m module function ret args).2).toNat = args.length := by
  rw [createCall_argc m module function ret accepts, BitVec.toNat_ofNat]
  exact Nat.mod_eq_of_lt counted

theorem createCall_decodes (accepts : CallAccepts args) (counted : args.length < 256)
    (agree : AliasesAgree args) : DecodesTo (lfCreateCall m module function ret args).2 args := by
  apply (decodesTo_iff _ _).mpr
  exact ⟨createCall_count m module function ret accepts counted,
    (createCall_laid_iff m module function ret accepts counted).mpr agree⟩

end Created

/-- An accepted call decodes to its arguments just when there are less than 256 of them
and every type that lies among the values happens to be the byte that lies there. -/
theorem created_call_decodes_iff (m : Mem) (module : BitVec 32) (function : LfFunction)
    (ret : LfType) (args : List LfArg)
    (accepted : (lfCreateCall m module function ret args).1 = lfSuccess) :
    DecodesTo (lfCreateCall m module function ret args).2 args ↔
      args.length < 256 ∧ AliasesAgree args := by
  have accepts := (createCall_accepts m module function ret args).mp accepted
  constructor
  · intro decodes
    obtain ⟨count, laid⟩ := (decodesTo_iff _ _).mp decodes
    rw [createCall_argc m module function ret accepts, BitVec.toNat_ofNat] at count
    exact ⟨by omega, aliasesAgree_of_laid laid⟩
  · rintro ⟨counted, agree⟩
    exact createCall_decodes m module function ret accepts counted agree

theorem dac_write_decodes :
    (lfCreateCall blankCall 0 3 lfVoidT dacWriteArgs).1 = lfSuccess ∧
      DecodesTo (lfCreateCall blankCall 0 3 lfVoidT dacWriteArgs).2 dacWriteArgs :=
  ⟨by decide +kernel, (created_call_decodes_iff blankCall 0 3 lfVoidT dacWriteArgs
    (by decide +kernel)).mpr (by decide +kernel)⟩

def seventeenBytes : List LfArg := List.replicate 17 ⟨lfUint8T, 2⟩

/-- The seventeenth type, 16, replaces the first value; 256 arguments are encoded as none. -/
theorem seventeenth_type_clobbers :
    (lfCreateCall blankCall 0 0 lfVoidT seventeenBytes).1 = lfSuccess ∧
    ¬ DecodesTo (lfCreateCall blankCall 0 0 lfVoidT seventeenBytes).2 seventeenBytes ∧
    ((fmrRpcArgs (lfCreateCall blankCall 0 0 lfVoidT seventeenBytes).2 0 17 0 argvOffset []).run
      obliging ()).value.toOption.map (fun got => got.map LfArg.value) =
        some (16 :: List.replicate 16 2) ∧
    (lfCreateCall blankCall 0 0 lfVoidT (List.replicate 256 ⟨lfUint8T, 2⟩)).1 = lfSuccess ∧
    callArgc (lfCreateCall blankCall 0 0 lfVoidT (List.replicate 256 ⟨lfUint8T, 2⟩)).2 = 0 := by
  refine ⟨by decide +kernel, ?_, by decide +kernel, by decide +kernel, by decide +kernel⟩
  intro decodes
  obtain ⟨_, _, value, _⟩ := (decodesTo_iff _ _).mp decodes
  exact absurd (value 0 (by decide)) (by decide +kernel)

end Flipper.Host
