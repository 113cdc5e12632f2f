import Flipper.Effect.Program

/-! One environment in the place of another. Where two worlds give the same replies from related
states, a program cannot tell them apart. -/
namespace Flipper.Effect
variable {I : Interface} {σ τ α : Type}

/-- From related states the worlds answer the allowed calls alike and stay related. -/
def Simulates (low : World I τ) (high : World I σ) (allowed : I.Op → Prop)
    (related : τ → σ → Prop) : Prop :=
  ∀ op t s, allowed op → related t s →
    (low.answer op t).1 = (high.answer op s).1 ∧ related (low.answer op t).2 (high.answer op s).2

namespace Simulates
variable {low : World I τ} {high : World I σ} {allowed : I.Op → Prop} {related : τ → σ → Prop}

/-- A run whose calls in the one world are allowed goes the same way in the other. -/
theorem run (simulates : Simulates low high allowed related) (p : Prog I α) {t : τ} {s : σ}
    (start : related t s)
    (calls : ∀ event ∈ (p.run high s).trace, event.Allowed (fun _ => True) allowed) :
    (p.run low t).value = (p.run high s).value ∧ (p.run low t).trace = (p.run high s).trace ∧
      related (p.run low t).state (p.run high s).state := by
  induction p generalizing t s with
  | pure value => exact ⟨rfl, rfl, start⟩
  | note label next ih =>
    obtain ⟨value, trace, state⟩ :=
      ih start fun event later => calls event (List.mem_cons_of_mem _ later)
    exact ⟨value, congrArg (Event.noted label :: ·) trace, state⟩
  | call op next ih =>
    obtain ⟨reply, moved⟩ := simulates op t s (calls _ List.mem_cons_self) start
    obtain ⟨value, trace, state⟩ := ih (high.answer op s).1 moved fun event later =>
      calls event (List.mem_cons_of_mem _ later)
    simp only [Prog.run, Outcome.prepend_value, Outcome.prepend_trace, Outcome.prepend_state, reply]
    exact ⟨value, congrArg _ trace, state⟩

end Simulates

end Flipper.Effect
