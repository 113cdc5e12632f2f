import Flipper.Effect.Program

/-! Protocols that programs follow. A protocol is an automaton on the calls of a
program; it may drop its demands after a reply. -/
namespace Flipper.Effect
variable {I : Interface} {α β M : Type}

structure Protocol (I : Interface) (M : Type) where
  allowed : M → I.Op → Prop
  /-- The mode after a reply, or nothing when the program is no longer held to any. -/
  next : M → (op : I.Op) → I.Reply op → Option M

/-- From this mode on the program makes only allowed calls, and it ends as `post` says. -/
def Prog.Follows (protocol : Protocol I M) (post : α → M → Prop) : M → Prog I α → Prop
  | mode, .pure value => post value mode
  | mode, .note _ next => next.Follows protocol post mode
  | mode, .call op next => protocol.allowed mode op ∧ ∀ reply mode',
      protocol.next mode op reply = some mode' → (next reply).Follows protocol post mode'

namespace Prog.Follows
variable {protocol : Protocol I M}

theorem bind {middle : α → M → Prop} {post : β → M → Prop} {p : Prog I α} {f : α → Prog I β}
    (first : p.Follows protocol middle mode)
    (second : ∀ value mode, middle value mode → (f value).Follows protocol post mode) :
    (p.bind f).Follows protocol post mode := by
  induction p generalizing mode with
  | pure value => exact second value mode first
  | note label next ih => exact ih first
  | call op next ih =>
    exact ⟨first.1, fun reply mode' moved => ih reply (first.2 reply mode' moved)⟩

end Prog.Follows

end Flipper.Effect
