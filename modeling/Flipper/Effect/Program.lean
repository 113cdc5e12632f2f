import Mathlib.Logic.Function.Basic

/-! Programs that call out to an environment they do not control. A program is
a tree of calls and notes; the environment decides every reply, so a theorem
over all worlds covers every behavior of what lies outside. Notes are events of
the program itself: they are recorded and never reach the environment. -/
namespace Flipper.Effect

/-- The calls a program may make, what comes back, and what it may note. -/
structure Interface where
  Op : Type
  Reply : Op → Type
  Label : Type

variable {I : Interface} {σ τ α β : Type}

inductive Prog (I : Interface) (α : Type) : Type where
  | pure (value : α)
  | note (label : I.Label) (next : Prog I α)
  | call (op : I.Op) (next : I.Reply op → Prog I α)

inductive Event (I : Interface) : Type where
  | noted (label : I.Label)
  | called (op : I.Op) (reply : I.Reply op)

/-- A deterministic environment. Nondeterminism is quantification over worlds. -/
structure World (I : Interface) (σ : Type) where
  answer : (op : I.Op) → σ → I.Reply op × σ

structure Outcome (I : Interface) (σ α : Type) where
  value : α
  trace : List (Event I)
  state : σ

def Outcome.prepend (event : Event I) (rest : Outcome I σ α) : Outcome I σ α :=
  ⟨rest.value, event :: rest.trace, rest.state⟩

@[simp] theorem Outcome.prepend_value (event : Event I) (rest : Outcome I σ α) :
    (rest.prepend event).value = rest.value := rfl

@[simp] theorem Outcome.prepend_trace (event : Event I) (rest : Outcome I σ α) :
    (rest.prepend event).trace = event :: rest.trace := rfl

@[simp] theorem Outcome.prepend_state (event : Event I) (rest : Outcome I σ α) :
    (rest.prepend event).state = rest.state := rfl

namespace Prog

def bind : Prog I α → (α → Prog I β) → Prog I β
  | .pure value, f => f value
  | .note label next, f => .note label (next.bind f)
  | .call op next, f => .call op fun reply => (next reply).bind f

instance : Monad (Prog I) where
  pure := Prog.pure
  bind := Prog.bind

def ask (op : I.Op) : Prog I (I.Reply op) := .call op .pure

def tell (label : I.Label) : Prog I Unit := .note label (.pure ())

def run (world : World I σ) : Prog I α → σ → Outcome I σ α
  | .pure value, s => ⟨value, [], s⟩
  | .note label next, s => (next.run world s).prepend (.noted label)
  | .call op next, s =>
    let reply := world.answer op s
    ((next reply.1).run world reply.2).prepend (.called op reply.1)

@[simp] theorem monad_pure (value : α) : (Pure.pure value : Prog I α) = .pure value := rfl

@[simp] theorem monad_bind (p : Prog I α) (f : α → Prog I β) : p >>= f = p.bind f := rfl

@[simp] theorem bind_pure (value : α) (f : α → Prog I β) : (Prog.pure value).bind f = f value := rfl

theorem bind_assoc {γ : Type} (p : Prog I α) (f : α → Prog I β) (g : β → Prog I γ) :
    (p.bind f).bind g = p.bind fun value => (f value).bind g := by
  induction p with
  | pure value => rfl
  | note label next ih => exact congrArg (Prog.note label) ih
  | call op next ih => exact congrArg (Prog.call op) (funext ih)

@[simp] theorem run_pure (world : World I σ) (value : α) (s : σ) :
    (Prog.pure value : Prog I α).run world s = ⟨value, [], s⟩ := rfl

@[simp] theorem run_tell (world : World I σ) (label : I.Label) (f : Unit → Prog I α) (s : σ) :
    ((tell label).bind f).run world s = ((f ()).run world s).prepend (.noted label) := rfl

/-- Sequencing runs the first program, then the second from where it stopped. -/
theorem run_bind (world : World I σ) (p : Prog I α) (f : α → Prog I β) (s : σ) :
    (p.bind f).run world s =
      let first := p.run world s
      let second := (f first.value).run world first.state
      ⟨second.value, first.trace ++ second.trace, second.state⟩ := by
  induction p generalizing s with
  | pure value => rfl
  | note label next ih => exact congrArg (Outcome.prepend _) (ih s)
  | call op next ih => exact congrArg (Outcome.prepend _) (ih _ _)

end Prog

/-- Every note and every call on every path of the program is allowed. -/
def Prog.Emits (notes : I.Label → Prop) (calls : I.Op → Prop) : Prog I α → Prop
  | .pure _ => True
  | .note label next => notes label ∧ next.Emits notes calls
  | .call op next => calls op ∧ ∀ reply, (next reply).Emits notes calls

/-- The event is a note or a call of the allowed kind. -/
def Event.Allowed (notes : I.Label → Prop) (calls : I.Op → Prop) : Event I → Prop
  | .noted label => notes label
  | .called op _ => calls op

theorem Event.Allowed.mono {notes notes' : I.Label → Prop} {calls calls' : I.Op → Prop}
    {event : Event I}
    (allowed : event.Allowed notes calls) (weaker : ∀ label, notes label → notes' label)
    (weaker' : ∀ op, calls op → calls' op) : event.Allowed notes' calls' := by
  cases event with
  | noted label => exact weaker label allowed
  | called op reply => exact weaker' op allowed

namespace Prog.Emits
variable {notes : I.Label → Prop} {calls : I.Op → Prop}

theorem bind {p : Prog I α} {f : α → Prog I β} (first : p.Emits notes calls)
    (second : ∀ value, (f value).Emits notes calls) : (p.bind f).Emits notes calls := by
  induction p with
  | pure value => exact second value
  | note label next ih => exact ⟨first.1, ih first.2⟩
  | call op next ih => exact ⟨first.1, fun reply => ih reply (first.2 reply)⟩

theorem mono {notes' : I.Label → Prop} {calls' : I.Op → Prop} {p : Prog I α}
    (emits : p.Emits notes calls) (weaker : ∀ label, notes label → notes' label)
    (weaker' : ∀ op, calls op → calls' op) : p.Emits notes' calls' := by
  induction p with
  | pure value => trivial
  | note label next ih => exact ⟨weaker _ emits.1, ih emits.2⟩
  | call op next ih => exact ⟨weaker' _ emits.1, fun reply => ih reply (emits.2 reply)⟩

theorem run {p : Prog I α} (emits : p.Emits notes calls) (world : World I σ) (s : σ) :
    ∀ event ∈ (p.run world s).trace, event.Allowed notes calls := by
  induction p generalizing s with
  | pure value => simp
  | note label next ih =>
    intro event member
    rcases List.mem_cons.mp member with rfl | later
    · exact emits.1
    · exact ih emits.2 s event later
  | call op next ih =>
    intro event member
    rcases List.mem_cons.mp member with rfl | later
    · exact emits.1
    · exact ih _ (emits.2 _) _ event later

end Prog.Emits

end Flipper.Effect
