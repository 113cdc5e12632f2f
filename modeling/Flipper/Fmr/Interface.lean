import Flipper.Effect.Program
import Flipper.Fmr.Packet

/-! What libflipper calls and does not define: the transport callbacks of a
device, the allocator, module functions and the memory behind a module's state
pointer. Reads of a packet are noted with their offsets. -/
namespace Flipper.Fmr
open Binary Effect

abbrev LfFunction := Nat

inductive Op where
  | write (bytes : List Byte)
  | read (length : Nat)
  | malloc (size : Nat)
  | free (ptr : BitVec 64)
  | load (address : BitVec 64) (length : Nat)
  | store (address : BitVec 64) (bytes : List Byte)
  | invoke (function : LfFunction) (args : List LfArg)

/-- The int a callback returns and, when it touched `_lf_err`, what it left there. -/
structure WriteReply where
  status : Int
  err : Option Byte

/-- `dst` is the destination after the call, filled or not. -/
structure ReadReply where
  status : Int
  err : Option Byte
  dst : Mem

/-- A heap block with the bytes it held before. -/
structure Block where
  address : BitVec 64
  bytes : Mem

structure InvokeReply where
  value : BitVec 64
  err : Option Byte

@[reducible] def Op.Reply : Op → Type
  | .write _ => WriteReply
  | .read _ => ReadReply
  | .malloc _ => Option Block
  | .free _ | .store _ _ => Unit
  | .load _ _ => List Byte
  | .invoke _ _ => InvokeReply

inductive Kind where
  | write | read | malloc | free | load | store | invoke
  deriving DecidableEq

def Op.kind : Op → Kind
  | .write _ => .write
  | .read _ => .read
  | .malloc _ => .malloc
  | .free _ => .free
  | .load _ _ => .load
  | .store _ _ => .store
  | .invoke _ _ => .invoke

/-- Packet bytes read by the checksum pass and the argument loop, indices into
`arg_types`, and the handler that is entered and what it returns. -/
inductive Label where
  | fetch (offset length : Nat)
  | argType (index : Nat)
  | dispatch (type : Byte)
  | returned (status : Int)

abbrev fmr : Interface := ⟨Op, Op.Reply, Label⟩

abbrev FmrProg := Prog fmr

def writeBytes (bytes : List Byte) : FmrProg WriteReply := @Prog.ask fmr (Op.write bytes)

def readBytes (length : Nat) : FmrProg ReadReply := @Prog.ask fmr (Op.read length)

def malloc (size : Nat) : FmrProg (Option Block) := @Prog.ask fmr (Op.malloc size)

def free (ptr : BitVec 64) : FmrProg Unit := @Prog.ask fmr (Op.free ptr)

def load (address : BitVec 64) (length : Nat) : FmrProg (List Byte) :=
  @Prog.ask fmr (Op.load address length)

def store (address : BitVec 64) (bytes : List Byte) : FmrProg Unit :=
  @Prog.ask fmr (Op.store address bytes)

def invoke (function : LfFunction) (args : List LfArg) : FmrProg InvokeReply :=
  @Prog.ask fmr (Op.invoke function args)

/-- An environment in which nothing fails and fresh memory is zero. -/
def obliging : World fmr Unit where
  answer op _ := match op with
    | .write _ => (⟨lfSuccess, none⟩, ())
    | .read _ => (⟨lfSuccess, none, fun _ => 0⟩, ())
    | .malloc _ => (some ⟨0x1000, fun _ => 0⟩, ())
    | .free _ | .store _ _ => ((), ())
    | .load _ length => (List.replicate length 0, ())
    | .invoke _ _ => (⟨0, none⟩, ())

def sent (trace : List (Event fmr)) : List (List Byte) :=
  trace.filterMap fun
    | .called (.write bytes) _ => some bytes
    | _ => none

def invoked (trace : List (Event fmr)) : List (LfFunction × List LfArg) :=
  trace.filterMap fun
    | .called (.invoke function args) _ => some (function, args)
    | _ => none

def dispatched (trace : List (Event fmr)) : List Byte :=
  trace.filterMap fun
    | .noted (.dispatch type) => some type
    | _ => none

section Trace
variable (first second : List (Event fmr))

@[simp] theorem sent_nil : sent [] = [] := rfl

@[simp] theorem invoked_nil : invoked [] = [] := rfl

theorem mem_sent {trace : List (Event fmr)} (member : bytes ∈ sent trace) :
    ∃ reply : WriteReply, Event.called (Op.write bytes) reply ∈ trace := by
  obtain ⟨event, inside, picked⟩ := List.mem_filterMap.mp member
  split at picked
  · cases picked
    exact ⟨_, inside⟩
  · cases picked

/-- No function runs in a trace without `invoke` calls. -/
theorem invoked_none {trace : List (Event fmr)} {notes : Label → Prop}
    (quiet : ∀ event ∈ trace, Event.Allowed notes (fun op => Op.kind op ≠ .invoke) event) :
    invoked trace = [] := by
  apply List.filterMap_eq_nil_iff.mpr
  intro event member
  split
  · exact absurd rfl (quiet _ member)
  · rfl

theorem sent_none {trace : List (Event fmr)} {notes : Label → Prop}
    (quiet : ∀ event ∈ trace, Event.Allowed notes (fun op => Op.kind op ≠ .write) event) :
    sent trace = [] := by
  apply List.filterMap_eq_nil_iff.mpr
  intro event member
  split
  · exact absurd rfl (quiet _ member)
  · rfl

@[simp] theorem sent_append : sent (first ++ second) = sent first ++ sent second :=
  List.filterMap_append

@[simp] theorem invoked_append : invoked (first ++ second) = invoked first ++ invoked second :=
  List.filterMap_append

@[simp] theorem sent_noted (label : Label) (rest : List (Event fmr)) :
    sent (.noted label :: rest) = sent rest := rfl

@[simp] theorem invoked_noted (label : Label) (rest : List (Event fmr)) :
    invoked (.noted label :: rest) = invoked rest := rfl

theorem sent_labels (labels : List Label) : sent (labels.map (@Event.noted fmr)) = [] := by
  simp [sent]

theorem invoked_labels (labels : List Label) :
    invoked (labels.map (@Event.noted fmr)) = [] := by
  simp [invoked]

@[simp] theorem sent_write (bytes : List Byte) (reply : WriteReply) (rest : List (Event fmr)) :
    sent (.called (Op.write bytes) reply :: rest) = bytes :: sent rest := rfl

@[simp] theorem invoked_write (bytes : List Byte) (reply : WriteReply) (rest : List (Event fmr)) :
    invoked (.called (Op.write bytes) reply :: rest) = invoked rest := rfl

end Trace

section Run
variable (world : World fmr σ) (s : σ)

@[simp] theorem run_write (bytes : List Byte) (f : WriteReply → FmrProg α) :
    ((writeBytes bytes).bind f).run world s =
      let reply := world.answer (Op.write bytes) s
      ((f reply.1).run world reply.2).prepend (.called (Op.write bytes) reply.1) := rfl

@[simp] theorem run_read (length : Nat) (f : ReadReply → FmrProg α) :
    ((readBytes length).bind f).run world s =
      let reply := world.answer (Op.read length) s
      ((f reply.1).run world reply.2).prepend (.called (Op.read length) reply.1) := rfl

@[simp] theorem run_malloc (size : Nat) (f : Option Block → FmrProg α) :
    ((malloc size).bind f).run world s =
      let reply := world.answer (Op.malloc size) s
      ((f reply.1).run world reply.2).prepend (.called (Op.malloc size) reply.1) := rfl

@[simp] theorem run_free (ptr : BitVec 64) (f : Unit → FmrProg α) :
    ((free ptr).bind f).run world s =
      let reply := world.answer (Op.free ptr) s
      ((f reply.1).run world reply.2).prepend (.called (Op.free ptr) reply.1) := rfl

@[simp] theorem run_load (address : BitVec 64) (length : Nat) (f : List Byte → FmrProg α) :
    ((load address length).bind f).run world s =
      let reply := world.answer (Op.load address length) s
      ((f reply.1).run world reply.2).prepend (.called (Op.load address length) reply.1) := rfl

@[simp] theorem run_store (address : BitVec 64) (bytes : List Byte) (f : Unit → FmrProg α) :
    ((store address bytes).bind f).run world s =
      let reply := world.answer (Op.store address bytes) s
      ((f reply.1).run world reply.2).prepend (.called (Op.store address bytes) reply.1) := rfl

@[simp] theorem run_invoke (function : LfFunction) (args : List LfArg)
    (f : InvokeReply → FmrProg α) :
    ((invoke function args).bind f).run world s =
      let reply := world.answer (Op.invoke function args) s
      ((f reply.1).run world reply.2).prepend (.called (Op.invoke function args) reply.1) := rfl

end Run
end Flipper.Fmr
