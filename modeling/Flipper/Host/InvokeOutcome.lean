import Flipper.Host.Behaviour

/-! What `lf_invoke` makes of its callees. They return zero for success, and the
three assertions on `e` take zero for failure: a call that was encoded is given up,
and one that was rejected is sent. -/
namespace Flipper.Host
open Binary Effect Fmr

/-- `lf_create_call` takes no arguments, or arguments that fit behind the header. -/
def CallAccepts (args : List LfArg) : Prop :=
  let argc := args.length % 256
  argc = 0 ∨ callSize + argc + argsSize (args.take argc) ≤ fmrPacketSize - headerSize

instance (args : List LfArg) : Decidable (CallAccepts args) := inferInstanceAs (Decidable (_ ∨ _))

/-- The loop comes to the size of all values, unless that is too large; every prefix
of the values is smaller, so the last one decides. -/
theorem createCallArgs_size (argc : Nat) (m : Mem) (i dst payloadSize : Nat) (args : List LfArg) :
    (createCallArgs argc m i dst payloadSize args).1 =
      if args.take (argc - i) = [] ∨
          payloadSize + argsSize (args.take (argc - i)) ≤ fmrPacketSize - headerSize then
        some (payloadSize + argsSize (args.take (argc - i)))
      else none := by
  induction args generalizing m i dst payloadSize with
  | nil => simp [createCallArgs]
  | cons arg args ih =>
    by_cases inside : i < argc
    case neg => simp [createCallArgs, inside, Nat.sub_eq_zero_of_le (Nat.not_lt.mp inside)]
    obtain ⟨n, left⟩ : ∃ n, argc - i = n + 1 := ⟨argc - i - 1, by omega⟩
    have next : argc - (i + 1) = n := by omega
    simp only [createCallArgs, inside, if_true, left, List.take_succ_cons, argsSize_cons,
      reduceCtorEq, false_or]
    by_cases large : fmrPacketSize - headerSize < payloadSize + lfSizeof arg.type
    · rw [if_pos large, if_neg (by omega)]
    · rw [if_neg large, ih, next, Nat.add_assoc]
      cases rest : args.take n with
      | nil =>
        rw [if_pos (Or.inl rfl), if_pos]
        simp only [argsSize_nil]
        omega
      | cons other others => simp

/-- The loop as `lf_create_call` enters it. -/
theorem createCallArgs_accepts (m : Mem) (args : List LfArg) :
    (createCallArgs (args.length % 256) m 0 argvOffset (callSize + args.length % 256) args).1 =
      if CallAccepts args then
        some (callSize + args.length % 256 + argsSize (args.take (args.length % 256)))
      else none := by
  have empty : args.take (args.length % 256) = [] ↔ args.length % 256 = 0 := by
    rw [List.take_eq_nil_iff]
    constructor
    · rintro (zero | rfl)
      · exact zero
      · rfl
    · exact Or.inl
  rw [createCallArgs_size]
  simp only [Nat.sub_zero, empty]
  rfl

theorem createCall_accepts (m : Mem) (module : BitVec 32) (function : LfFunction) (ret : LfType)
    (args : List LfArg) :
    (lfCreateCall m module function ret args).1 = lfSuccess ↔ CallAccepts args := by
  have size := createCallArgs_accepts
    ((((m.set 6 (module.setWidth 8)).set 7 0).set 8 ret).set 9 (BitVec.ofNat 8 args.length)) args
  simp only [lfCreateCall, BitVec.toNat_ofNat]
  generalize createCallArgs _ _ _ _ _ args = encoded at size
  obtain ⟨payload, m⟩ := encoded
  by_cases accepts : CallAccepts args
  · rw [if_pos accepts] at size
    cases size
    simp [accepts]
  · rw [if_neg accepts] at size
    cases size
    simp [accepts, lfError, lfSuccess]

section Outcome
variable (b : Behaviour) (modules : List LfModule) (name : CString) (function : LfFunction)
  (ret : LfType)
  (retval : BitVec 64) (args : List LfArg) (err : Byte)

/-- Success is success of every callee and no error in the result, whose value is then
returned; rejected arguments stay on the host. -/
def InvokesFaithfully : Prop :=
  let found := (dyldModule modules name err).run b.world Behaviour.start
  let outcome := (lfInvoke modules name function ret retval args err).run b.world Behaviour.start
  let answer := b.delivers found.state.writes found.state.reads
  let encodes (m : LfModule) : Prop :=
    (lfCreateCall blankCall (m.idx.setWidth 32) function ret args).1 = lfSuccess
  (outcome.value.status = lfSuccess ↔
      ∃ m, found.value.module = some m ∧ encodes m ∧ AnswersOk answer) ∧
    (outcome.value.status = lfSuccess →
      ∃ result, answer = some result ∧ outcome.value.retval = some result.value) ∧
    ∀ m, found.value.module = some m → ¬ encodes m → sent outcome.trace = sent found.trace

/-- `dyld_module` finds the module: it is in the list, or its lookup is answered and
its record and list node can be allocated. -/
def Behaviour.Resolves : Prop :=
  (lfModuleGetByName modules name.mem).isSome ∨
    name.strlen < lfModuleNameMax ∧ AnswersOk (b.delivers 0 0) ∧ b.allots 0 ∧ b.allots 1

/-- What a call packet written after `dyld_module` would bring back. -/
def Behaviour.invokeAnswer : Option FmrResult :=
  if (lfModuleGetByName modules name.mem).isSome then b.delivers 0 0 else b.delivers 1 1

theorem dyldModule_resolves :
    let found := (dyldModule modules name err).run b.world Behaviour.start
    (found.value.module.isSome ↔ b.Resolves modules name) ∧
      (b.Resolves modules name →
        b.delivers found.state.writes found.state.reads = b.invokeAnswer modules name) := by
  cases cached : lfModuleGetByName modules name.mem with
  | some m => simp [dyldModule, cached, Behaviour.Resolves, Behaviour.invokeAnswer, Behaviour.start]
  | none =>
    by_cases fits : name.strlen < lfModuleNameMax
    case neg =>
      simp [dyldModule, cached, lfDyldDynSymLookup, Nat.not_lt.mp fits, Behaviour.Resolves, fits,
        lfError, lfSuccess]
    obtain ⟨value, _, state, _⟩ := dyldModule_run b Behaviour.start cached fits err
    refine ⟨value.trans (by simp [Behaviour.Resolves, cached, fits, Behaviour.start]),
      fun resolves => ?_⟩
    have answered : AnswersOk (b.delivers 0 0) := by
      simpa [cached] using (resolves.resolve_left (by simp [cached])).2.1
    rw [state]
    simp only [Behaviour.start, answered, if_true, answered_exchanged b ⟨0, 0, 0⟩ answered]
    simp [Behaviour.invokeAnswer, cached]

/-- `lf_invoke` does what its callees report exactly when the module is not found, or
the arguments are accepted and the exchange that should follow would fail. -/
theorem invokes_faithfully_iff :
    InvokesFaithfully b modules name function ret retval args err ↔
      ¬ b.Resolves modules name ∨ CallAccepts args ∧ ¬ AnswersOk (b.invokeAnswer modules name) := by
  obtain ⟨value, answer⟩ := dyldModule_resolves b modules name err
  unfold InvokesFaithfully
  simp only [lfInvoke, Prog.monad_bind, Prog.run_bind, createCall_accepts]
  generalize (dyldModule modules name err).run b.world Behaviour.start = found at value answer
  obtain ⟨⟨module, modules', err'⟩, trace, state⟩ := found
  dsimp only at value answer ⊢
  cases module with
  | none =>
    have missing : ¬ b.Resolves modules name := fun resolves => nomatch value.mpr resolves
    simp [missing, lfError, lfSuccess]
  | some m =>
    have resolves : b.Resolves modules name := value.mp rfl
    rw [answer resolves]
    have status := createCall_accepts blankCall (m.idx.setWidth 32) function ret args
    by_cases accepts : CallAccepts args
    · have zero := status.mpr accepts
      unfold lfSuccess at zero
      simp [zero, resolves, accepts, lfError, lfSuccess]
    · have nonzero : ¬ (lfCreateCall blankCall (m.idx.setWidth 32) function ret args).1 = 0 :=
        fun zero => accepts (status.mp zero)
      simp only [resolves, not_true_eq_false, accepts, false_and, or_false, iff_false]
      rintro ⟨_, _, kept⟩
      have longer := kept m rfl not_false
      simp [nonzero] at longer

end Outcome

/-- Every write and read succeeds and every result is the value 9 without an error. -/
def answeringDevice : Behaviour where
  write _ := ⟨lfSuccess, none⟩
  read _ := ⟨lfSuccess, none, FmrResult.mem ⟨9, LfErr.eOk.code⟩⟩
  malloc _ := some ⟨0x1000, fun _ => 0⟩

/-- A call without arguments fails and nothing is sent, though every callee succeeds;
five 64-bit arguments are rejected and the packet is sent. -/
theorem accepted_call_given_up :
    let call args := (lfInvoke fvmModules dacModule.name 0 lfVoidT 5 args 0).run
      answeringDevice.world Behaviour.start
    (call []).value.status = lfError ∧ sent (call []).trace = [] ∧
      (sent (call (List.replicate 5 ⟨lfUint64T, 0⟩)).trace).length = 1 ∧
      ¬ InvokesFaithfully answeringDevice fvmModules dacModule.name 0 lfVoidT 5 [] 0 ∧
      ¬ InvokesFaithfully answeringDevice fvmModules dacModule.name 0 lfVoidT 5
        (List.replicate 5 ⟨lfUint64T, 0⟩) 0 := by
  have found : ((dyldModule fvmModules dacModule.name 0).run answeringDevice.world
      Behaviour.start).value.module = some { dacModule with idx := 0 } := by decide +kernel
  refine ⟨by decide +kernel, by decide +kernel, by decide +kernel, ?_, ?_⟩
  · rintro ⟨success, _⟩
    have status := success.mpr ⟨_, found, by decide +kernel, by decide +kernel⟩
    exact absurd status (by decide +kernel)
  · rintro ⟨_, _, kept⟩
    have silent := congrArg List.length (kept _ found (by decide +kernel))
    exact absurd silent (by decide +kernel)

end Flipper.Host
