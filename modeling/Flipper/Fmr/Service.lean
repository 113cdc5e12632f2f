import Flipper.Effect.Simulation
import Flipper.Fmr.Perform

/-! A device that serves messages: what the main loops of the platforms are for. Requests come in
whole, one after the other, and what `fmr_perform` writes goes out in whole messages. -/
namespace Flipper.Fmr
open Binary Effect

/-- The packet buffer, the modules, and the messages written so far. -/
structure Service (σ : Type) where
  buffer : Mem
  modules : σ
  messages : List (List Byte)

/-- Every write succeeds; the rest is as it was. -/
def delivering (far : World fmr σ) : World fmr (σ × List (List Byte)) where
  answer op s := match op with
    | .write bytes => (⟨lfSuccess, none⟩, s.1, s.2 ++ [bytes])
    | op =>
      let reply := far.answer op s.1
      (reply.1, reply.2, s.2)

section Serve
variable (registry : Registry) (device : LfDevice) (far : World fmr σ)

def Service.perform (s : Service σ) : Service σ :=
  let outcome := (fmrPerform registry device s.buffer).run (delivering far) (s.modules, s.messages)
  ⟨outcome.value.mem, outcome.state.1, outcome.state.2⟩

def Service.serve (s : Service σ) (request : List Byte) : Service σ :=
  Service.perform registry device far { s with buffer := s.buffer.overlay request }

def Service.serveAll (s : Service σ) (requests : List (List Byte)) : Service σ :=
  requests.foldl (Service.serve registry device far) s

/-- A program adds what it writes to the messages. -/
theorem delivering_messages (p : FmrProg α) (s : σ × List (List Byte)) :
    (p.run (delivering far) s).state.2 = s.2 ++ sent (p.run (delivering far) s).trace := by
  induction p generalizing s with
  | pure value => simp
  | note label next ih => exact ih s
  | call op next ih =>
    cases op with
    | write bytes =>
      simp only [Prog.run, Outcome.prepend_state, Outcome.prepend_trace, sent_write]
      rw [ih]
      simp [delivering]
    | _ => exact ih _ _

theorem Service.perform_messages (s : Service σ) :
    s.messages <+: (s.perform registry device far).messages :=
  ⟨_, (delivering_messages far _ (s.modules, s.messages)).symm⟩

theorem Service.serveAll_messages (s : Service σ) (requests : List (List Byte)) :
    s.messages <+: (s.serveAll registry device far requests).messages := by
  induction requests generalizing s with
  | nil => exact List.prefix_rfl
  | cons request later ih =>
    exact (perform_messages registry device far { s with buffer := s.buffer.overlay request }).trans
      (ih (s.serve registry device far request))

/-- A device whose registry is empty, as it is before `fmr_init`, answers a packet with an error
and asks nothing of its modules. -/
theorem perform_unregistered (m : Mem) (world : World fmr σ) (s : σ) :
    ∃ (labels : List Label) (mem : Mem) (error err : Byte), error ≠ LfErr.eOk.code ∧
      (fmrPerform (fun _ => none) device m).run world s =
        let answer := (sendResult mem ⟨0, error⟩ err).run world s
        ⟨answer.value, labels.map (@Event.noted fmr) ++ answer.trace, answer.state⟩ := by
  by_cases magic : hdrMagic m = fmrMagicNumber
  case neg => exact ⟨[], _, _, _, by decide, run_bad_magic _ device world s magic⟩
  by_cases checksum : ChecksumOk m
  case neg => exact ⟨[_], _, _, _, by decide, run_bad_checksum _ device world s magic checksum⟩
  by_cases known : hdrType m < fmrClassCount
  case neg => exact ⟨[_], _, _, _, by decide, run_unknown _ device world s magic checksum known⟩
  by_cases loaded : device.modules = []
  case pos => exact ⟨[_], _, _, _, by decide,
    run_unloaded _ device world s ⟨magic, checksum, known⟩ loaded⟩
  refine ⟨[Label.fetch 0 (hdrLen m).toNat], setCrc m 0, LfErr.eFmr.code, LfErr.eOk.code,
    by decide, ?_⟩
  have same : hdrCrc m = lfCrc (setCrc m 0) (hdrLen m).toNat := checksum
  simp only [fmrPerform, magic, ne_eq, not_true_eq_false, if_false, Prog.monad_bind, hdrLen_setCrc,
    hdrType_setCrc, same, known, loaded]
  rfl

/-- The requests are answered one by one, each with an error. -/
theorem Service.serveAll_unregistered (s : Service σ) (requests : List (List Byte)) :
    let after := s.serveAll (fun _ => none) device far requests
    after.modules = s.modules ∧ ∃ errors : List Byte, errors.length = requests.length ∧
      (∀ error ∈ errors, error ≠ LfErr.eOk.code) ∧
      after.messages = s.messages ++ errors.map fun error => FmrResult.bytes ⟨0, error⟩ := by
  induction requests generalizing s with
  | nil => exact ⟨rfl, [], rfl, by simp, by simp [serveAll]⟩
  | cons request later ih =>
    obtain ⟨labels, mem, error, err, failed, run⟩ :=
      perform_unregistered device (s.buffer.overlay request)
      (delivering far) (s.modules, s.messages)
    have first : s.serve (fun _ => none) device far request =
        ⟨mem, s.modules, s.messages ++ [FmrResult.bytes ⟨0, error⟩]⟩ := by
      rw [serve, perform, run]
      rfl
    obtain ⟨modules, errors, count, wrong, messages⟩ :=
      ih (s.serve (fun _ => none) device far request)
    rw [serveAll, List.foldl_cons]
    refine ⟨modules.trans (by rw [first]), error :: errors, by simp [count], ?_, ?_⟩
    · intro other member
      rcases List.mem_cons.mp member with rfl | rest
      · exact failed
      · exact wrong other rest
    · refine messages.trans ?_
      rw [first]
      simp

end Serve

end Flipper.Fmr
