import Flipper.Host.RpcRoundTrip
import Flipper.Net.Datagrams

/-! How `lf_invoke_by_index` uses the transport: every packet it writes is followed
by a read, the packets are lookups until the last one, and the value it stores is
the one read after that. -/
namespace Flipper.Net
open Binary Effect Fmr Host

/-- Between exchanges, or between the two halves of one; `last` is the result of
the call packet once it was read. -/
inductive Mode where
  | idle (last : Option FmrResult)
  | awaiting (call : Bool) (last : Option FmrResult)

/-- Every packet written is followed by a read. A failed read ends the obligations. -/
def pacing : Protocol fmr Mode where
  allowed mode op := match mode, op with
    | .idle _, .write _ | .idle _, .malloc _ => True
    | .awaiting _ _, .read length => length = resultSize
    | _, _ => False
  next mode op reply := match mode, op, reply with
    | .idle last, .write bytes, reply =>
      if reply.status = lfSuccess then some (.awaiting (isCall bytes) last) else some (.idle last)
    | .idle last, .malloc _, _ => some (.idle last)
    | .awaiting call last, .read _, reply =>
      if reply.status = lfSuccess then
        some (.idle (if call then some (FmrResult.ofMem reply.dst) else last))
      else none
    | _, _, _ => none

/-- A successful call stores the value of its call packet's result. -/
def Returns (returned : InvokeReturn) (mode : Mode) : Prop :=
  ∃ last, mode = .idle last ∧ (returned.status = lfSuccess →
    ∀ value, returned.retval = some value → ∃ result, last = some result ∧ result.value = value)

section Follows
variable (last : Option FmrResult)

theorem exchange_follows (packet : Mem) (err : Byte) :
    (exchange packet err).Follows pacing (fun received mode => mode = .idle (match received.1 with
      | some result => if isCall (Mem.slice packet 0 fmrPacketSize) then some result else last
      | none => last)) (.idle last) := by
  refine ⟨trivial, fun written mode moved => ?_⟩
  change Prog.Follows _ _ _ (ite _ _ _)
  change (if written.status = lfSuccess then _ else _) = _ at moved
  split at moved
  · rename_i ok
    cases moved
    have wrote : ¬ written.status ≠ lfSuccess := fun failed => failed ok
    rw [if_neg wrote]
    refine ⟨rfl, fun received mode moved => ?_⟩
    change Prog.Follows _ _ _ (ite _ _ _)
    change (if received.status = lfSuccess then _ else _) = _ at moved
    split at moved
    · rename_i ok
      cases moved
      have read : ¬ received.status ≠ lfSuccess := fun failed => failed ok
      rw [if_neg read]
      rfl
    · cases moved
  · rename_i failed
    cases moved
    rw [if_pos failed]
    rfl

theorem lookup_not_call (module : CString) :
    isCall (Mem.slice (lookupPacket module) 0 fmrPacketSize) = false := by
  rw [isCall, lookupPacket_class]
  decide

theorem lookup_follows (module : CString) (idx : BitVec 16) (err : Byte) :
    (lfDyldDynSymLookup module idx err).Follows pacing (fun _ mode => mode = .idle last)
    (.idle last) := by
  unfold lfDyldDynSymLookup
  split
  · rfl
  · apply (exchange_follows last (lookupPacket module) err).bind
    rintro ⟨received, err⟩ mode rfl
    rw [lookup_not_call]
    cases received with
    | none => rfl
    | some result =>
      simp only [Bool.false_eq_true, if_false]
      split <;> rfl

theorem createAndRegister_follows (modules : List LfModule) (module : CString) (idx : BitVec 16)
    (err : Byte) :
    (createAndRegister modules module idx err).Follows pacing (fun _ mode => mode = .idle last)
      (.idle last) := by
  have created : (lfModuleCreate module idx err).Follows pacing (fun _ mode => mode = .idle last)
      (.idle last) := by
    unfold lfModuleCreate
    split
    · refine ⟨trivial, fun reply mode moved => ?_⟩
      cases moved
      cases reply <;> rfl
    · rfl
  apply created.bind
  rintro ⟨_ | m, err⟩ mode rfl
  · rfl
  · have registered : (dyldRegister modules m).Follows pacing (fun _ mode => mode = .idle last)
        (.idle last) := by
      unfold dyldRegister
      split
      · rfl
      · refine ⟨trivial, fun reply mode moved => ?_⟩
        cases moved
        cases reply <;> rfl
    apply registered.bind
    rintro registration mode rfl
    split <;> rfl

theorem dyldModule_follows (modules : List LfModule) (module : CString) (err : Byte) :
    (dyldModule modules module err).Follows pacing (fun _ mode => mode = .idle last)
    (.idle last) := by
  unfold dyldModule
  split
  · rfl
  · apply (lookup_follows last module 0 err).bind
    rintro lookup mode rfl
    split
    · rfl
    · apply (createAndRegister_follows last modules module _ _).bind
      rintro ⟨_ | ⟨m, err⟩, modules⟩ mode rfl <;> rfl

theorem ensureModule_follows (modules : List LfModule) (module : CString) (idx : BitVec 16)
    (err : Byte) :
    (ensureModule modules module idx err).Follows pacing (fun _ mode => mode = .idle last)
    (.idle last) := by
  apply (dyldModule_follows last modules module err).bind
  rintro found mode rfl
  split
  · rfl
  · apply (createAndRegister_follows last _ module _ _).bind
    rintro ⟨_ | ⟨m, err⟩, modules⟩ mode rfl <;> rfl

end Follows

theorem rpc_isCall (stack : Mem) (idx : BitVec 16) (index : Byte) (ret : LfType)
    (args : List LfArg) :
    isCall (Mem.slice (rpcPacket stack idx index ret args) 0 fmrPacketSize) = true :=
  decide_eq_true (rpcPacket_class stack idx index ret args)

/-- A packet of one of the two classes the host uses. -/
def Typed (bytes : List Byte) : Prop :=
  bytes[5]? = some FmrClass.rpc.code ∨ bytes[5]? = some FmrClass.dyld.code

def HostOp (op : Op) : Prop := ∀ bytes, op = .write bytes → Typed bytes

theorem invokeByIndex_emits (c : Call) (modules : List LfModule) (err : Byte) :
    (c.invoke modules err).Emits (fun _ => True)
      HostOp := by
  have resolving : ∀ op, Resolving c.module op → HostOp op := by
    rintro op (rfl | rfl | ⟨size, rfl⟩) bytes same <;> cases same
    exact Or.inr (lookupPacket_class c.module)
  apply ((lookup_emits c.module 0 err).mono (fun _ => False.elim) resolving).bind
  intro lookup
  split
  · trivial
  · apply ((ensureModule_emits modules c.module _ _).mono (fun _ => False.elim) resolving).bind
    rintro ⟨_ | err, modules⟩
    · trivial
    · apply Prog.Emits.bind
      · apply (exchange_emits _ err).mono fun _ => False.elim
        rintro op (rfl | rfl) bytes same <;> cases same
        exact Or.inl (rpcPacket_class _ _ _ _ _)
      · rintro ⟨_ | result, err⟩ <;> trivial

theorem invokeByIndex_follows (c : Call) (modules : List LfModule) (err : Byte) :
    (c.invoke modules err).Follows pacing
      Returns (.idle none) := by
  apply (lookup_follows none c.module 0 err).bind
  rintro lookup mode rfl
  split
  · exact ⟨none, rfl, fun success => absurd success lfError_ne⟩
  · apply (ensureModule_follows none modules c.module _ _).bind
    rintro ⟨_ | err, modules⟩ mode rfl
    · exact ⟨none, rfl, fun success => absurd success lfError_ne⟩
    · apply (exchange_follows none (rpcPacket c.stack lookup.idx c.index c.ret c.args) err).bind
      rintro ⟨_ | result, err⟩ mode rfl
      · exact ⟨none, rfl, fun success => absurd success lfError_ne⟩
      · rw [rpc_isCall]
        refine ⟨some result, rfl, fun _ value stored => ⟨result, rfl, ?_⟩⟩
        obtain ⟨_, _, same⟩ := Option.map_eq_some_iff.mp stored
        exact same

end Flipper.Net
