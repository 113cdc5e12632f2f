import Flipper.Fmr.Handlers
import Flipper.Fmr.Crc

/-! `fmr_perform`: the checks, the dispatch and the one result it writes. -/
namespace Flipper.Fmr
open Binary Effect

/-- The int `fmr_perform` returns, `_lf_err` and the packet buffer after it. -/
structure PerformReturn where
  status : Int
  err : Byte
  mem : Mem

def sendResult (m : Mem) (result : FmrResult) (err : Byte) : FmrProg PerformReturn := do
  let reply ← writeBytes result.bytes
  pure ⟨reply.status, reply.err.getD err, m⟩

/-- The label `fail`, which every dispatched packet falls through to. -/
def performFail (m : Mem) (result : FmrResult) (err : Byte) : FmrProg PerformReturn :=
  sendResult m { result with error := err } err

def fmrPerform (registry : Registry) (device : LfDevice) (m : Mem) : FmrProg PerformReturn :=
  let result : FmrResult := ⟨0, 0⟩
  if hdrMagic m ≠ fmrMagicNumber then performFail m result LfErr.eChecksum.code
  else do
    let stored := hdrCrc m
    let m := setCrc m 0
    Prog.tell (Label.fetch 0 (hdrLen m).toNat)
    let crc := lfCrc m (hdrLen m).toNat
    if stored ≠ crc then performFail m result (lfErrorSet .eChecksum)
    else
      let err := lfErrorSet .eOk
      if ¬ hdrType m < fmrClassCount then performFail m result LfErr.eFmr.code
      else if device.modules = [] then sendResult m { result with error := LfErr.eNull.code } err
      else
        match registry (hdrType m) with
        | none => sendResult m { result with error := LfErr.eFmr.code } err
        | some handler => do
          Prog.tell (Label.dispatch (hdrType m))
          let returned ← handler device m 0 err
          Prog.tell (Label.returned returned.status)
          -- The error chosen here does not survive the fall through to `fail`.
          let error := if returned.status ≠ lfSuccess then LfErr.eFmr.code else LfErr.eOk.code
          performFail m ⟨returned.retval, error⟩ returned.err

/-- The stored checksum is that of the first `len` bytes with the field cleared. -/
def ChecksumOk (m : Mem) : Prop := hdrCrc m = lfCrc (setCrc m 0) (hdrLen m).toNat

instance (m : Mem) : Decidable (ChecksumOk m) := inferInstanceAs (Decidable (_ = _))

/-- The magic, checksum and class checks all pass. -/
structure Accepted (m : Mem) : Prop where
  magic : hdrMagic m = fmrMagicNumber
  checksum : ChecksumOk m
  known : hdrType m < fmrClassCount

/-- A checksum stored over a cleared field is accepted. -/
theorem storeCrc_checksum (cleared : hdrCrc m = 0) : ChecksumOk (storeCrc m) := by
  have same : setCrc m 0 = m := by rw [← cleared, setCrc_hdrCrc]
  simp only [ChecksumOk, storeCrc, hdrCrc_setCrc, hdrLen_setCrc, setCrc_setCrc, same]

theorem setCrc_congr {m m' : Mem} (same : m i = m' i) (crc : BitVec 16) :
    setCrc m crc i = setCrc m' crc i := by
  unfold setCrc Mem.copy
  rw [same]

/-- The checks read nothing past the header and the first `len` bytes. -/
theorem accepted_congr {m m' : Mem} (same : ∀ i < count, m i = m' i) (whole : headerSize ≤ count)
    (short : (hdrLen m').toNat ≤ count) (accepted : Accepted m') : Accepted m := by
  obtain ⟨magic, crc, len, type⟩ := header_congr fun i inside => same i (by omega)
  refine ⟨magic.trans accepted.magic, ?_, type ▸ accepted.known⟩
  have covered : lfCrc (setCrc m 0) (hdrLen m').toNat = lfCrc (setCrc m' 0) (hdrLen m').toNat :=
    lfCrc_congr fun i inside => setCrc_congr (same i (by omega)) 0
  rw [ChecksumOk, crc, len, covered]
  exact accepted.checksum

/-- The 64 bytes of the packet in front of memory that is not part of it. -/
def delivered (packet rest : Mem) : Mem := rest.overlay (Mem.slice packet 0 fmrPacketSize)

theorem delivered_inside (packet rest : Mem) (inside : i < fmrPacketSize) :
    delivered packet rest i = packet i :=
  Mem.overlay_slice rest packet inside

theorem operands_delivered (packet rest : Mem) :
    operands (delivered packet rest) = operands rest := by
  funext i
  exact Mem.overlay_outside _ (by simp [fmrPacketSize])

section Run
variable (registry : Registry) (device : LfDevice) (world : World fmr σ) (s : σ)

theorem run_sendResult (m : Mem) (result : FmrResult) (err : Byte) :
    (sendResult m result err).run world s =
      let reply := world.answer (Op.write result.bytes) s
      ⟨⟨reply.1.status, reply.1.err.getD err, m⟩, [.called (Op.write result.bytes) reply.1],
        reply.2⟩ := rfl

theorem run_performFail (m : Mem) (result : FmrResult) (err : Byte) :
    (performFail m result err).run world s =
      (sendResult m ⟨result.value, err⟩ err).run world s := rfl

theorem run_bad_magic {m : Mem} (magic : hdrMagic m ≠ fmrMagicNumber) :
    (fmrPerform registry device m).run world s =
      (sendResult m ⟨0, LfErr.eChecksum.code⟩ LfErr.eChecksum.code).run world s := by
  rw [fmrPerform, if_pos magic, run_performFail]

theorem run_bad_checksum {m : Mem} (magic : hdrMagic m = fmrMagicNumber)
    (checksum : ¬ ChecksumOk m) :
    (fmrPerform registry device m).run world s =
      ((sendResult (setCrc m 0) ⟨0, LfErr.eChecksum.code⟩ LfErr.eChecksum.code).run world s).prepend
        (.noted (Label.fetch 0 (hdrLen m).toNat)) := by
  have differ : hdrCrc m ≠ lfCrc (setCrc m 0) (hdrLen m).toNat := checksum
  simp only [fmrPerform, magic, ne_eq, not_true_eq_false, if_false, Prog.monad_bind, Prog.run_tell,
    hdrLen_setCrc, differ, not_false_eq_true, if_true, run_performFail]
  rfl

theorem run_unknown {m : Mem} (magic : hdrMagic m = fmrMagicNumber) (checksum : ChecksumOk m)
    (unknown : ¬ hdrType m < fmrClassCount) :
    (fmrPerform registry device m).run world s =
      ((sendResult (setCrc m 0) ⟨0, LfErr.eFmr.code⟩ LfErr.eFmr.code).run world s).prepend
        (.noted (Label.fetch 0 (hdrLen m).toNat)) := by
  have same : hdrCrc m = lfCrc (setCrc m 0) (hdrLen m).toNat := checksum
  simp only [fmrPerform, magic, ne_eq, not_true_eq_false, if_false, Prog.monad_bind, hdrLen_setCrc,
    hdrType_setCrc, same, unknown, not_false_eq_true, if_true]
  rfl

theorem run_unloaded {m : Mem} (accepted : Accepted m) (unloaded : device.modules = []) :
    (fmrPerform registry device m).run world s =
      ((sendResult (setCrc m 0) ⟨0, LfErr.eNull.code⟩ LfErr.eOk.code).run world s).prepend
        (.noted (Label.fetch 0 (hdrLen m).toNat)) := by
  have same : hdrCrc m = lfCrc (setCrc m 0) (hdrLen m).toNat := accepted.checksum
  simp only [fmrPerform, accepted.magic, ne_eq, not_true_eq_false, if_false, Prog.monad_bind,
    hdrLen_setCrc, hdrType_setCrc, same, accepted.known, unloaded, if_true]
  rfl

/-- A packet that passes the checks runs its handler between two notes, and the
result carries the handler's value and whatever `_lf_err` holds by then. -/
theorem run_accepted {m : Mem} (accepted : Accepted m) (loaded : device.modules ≠ [])
    (selected : registry (hdrType m) = some handler) :
    (fmrPerform registry device m).run world s =
      let returned := (handler device (setCrc m 0) 0 LfErr.eOk.code).run world s
      let answer := (sendResult (setCrc m 0) ⟨returned.value.retval, returned.value.err⟩
        returned.value.err).run world returned.state
      ⟨answer.value,
        .noted (Label.fetch 0 (hdrLen m).toNat) :: .noted (Label.dispatch (hdrType m)) ::
          (returned.trace ++ .noted (Label.returned returned.value.status) :: answer.trace),
        answer.state⟩ := by
  have same : hdrCrc m = lfCrc (setCrc m 0) (hdrLen m).toNat := accepted.checksum
  simp only [fmrPerform, accepted.magic, ne_eq, not_true_eq_false, if_false, Prog.monad_bind,
    hdrLen_setCrc, hdrType_setCrc, same, accepted.known, loaded, selected,
    Prog.run_bind, run_performFail]
  rfl

/-- With the built-in handlers the class of the packet decides which one runs. -/
theorem run_dispatched {m : Mem} {cls : FmrClass} (accepted : Accepted m)
    (loaded : device.modules ≠ []) (typed : hdrType m = cls.code) :
    (fmrPerform (fmrInit registry) device m).run world s =
      let returned := (cls.handler device (setCrc m 0) 0 LfErr.eOk.code).run world s
      let answer := (sendResult (setCrc m 0) ⟨returned.value.retval, returned.value.err⟩
        returned.value.err).run world returned.state
      ⟨answer.value,
        .noted (Label.fetch 0 (hdrLen m).toNat) :: .noted (Label.dispatch (hdrType m)) ::
          (returned.trace ++ .noted (Label.returned returned.value.status) :: answer.trace),
        answer.state⟩ :=
  run_accepted (fmrInit registry) device world s accepted loaded (by rw [typed, fmrInit_class])

/-- A packet that fails a check, or meets a device without modules, is answered with
one result, and nothing else is asked of the environment. -/
theorem run_rejected {m : Mem} (rejected : ¬ (Accepted m ∧ device.modules ≠ [])) :
    ∃ (labels : List Label) (mem : Mem) (result : FmrResult) (err : Byte),
      (fmrPerform registry device m).run world s =
        let answer := (sendResult mem result err).run world s
        ⟨answer.value, labels.map (@Event.noted fmr) ++ answer.trace, answer.state⟩ := by
  by_cases magic : hdrMagic m = fmrMagicNumber
  case neg => exact ⟨[], _, _, _, run_bad_magic registry device world s magic⟩
  by_cases checksum : ChecksumOk m
  case neg => exact ⟨[_], _, _, _, run_bad_checksum registry device world s magic checksum⟩
  by_cases known : hdrType m < fmrClassCount
  case neg => exact ⟨[_], _, _, _, run_unknown registry device world s magic checksum known⟩
  have accepted : Accepted m := ⟨magic, checksum, known⟩
  have unloaded : device.modules = [] := by
    by_contra loaded
    exact rejected ⟨accepted, loaded⟩
  exact ⟨[_], _, _, _, run_unloaded registry device world s accepted unloaded⟩

/-- A handler writes nothing, except that `fmr_pull` writes state it finds. -/
theorem sent_handler (cls : FmrClass) (m : Mem) (retval : BitVec 64) (err : Byte)
    (other : cls = .pull → operandState device m = none) :
    sent ((cls.handler device m retval err).run world s).trace = [] := by
  by_cases pull : cls = .pull
  case pos =>
    subst pull
    simp [FmrClass.handler, fmrPull, other rfl]
  case neg =>
    apply sent_none
    intro event member
    apply ((handler_emits cls device m retval err).run world s event member).mono fun _ allowed =>
      allowed
    intro op asked isWrite
    cases op <;> cases isWrite
    cases cls <;> first | exact pull rfl | cases asked

/-- A packet that pulls no state is answered with exactly one result. -/
theorem answers_once {m : Mem}
    (quiet : Accepted m → hdrType m = FmrClass.pull.code → operandState device m = none) :
    ∃ result, sent ((fmrPerform (fmrInit registry) device m).run world s).trace =
      [FmrResult.bytes result] := by
  by_cases dispatched : Accepted m ∧ device.modules ≠ []
  case neg =>
    obtain ⟨labels, mem, result, err, run⟩ :=
      run_rejected (fmrInit registry) device world s dispatched
    refine ⟨result, ?_⟩
    rw [run]
    dsimp only
    rw [sent_append, sent_labels]
    rfl
  obtain ⟨accepted, loaded⟩ := dispatched
  obtain ⟨cls, typed⟩ := class_of_type accepted.known
  have silent : sent ((cls.handler device (setCrc m 0) 0 LfErr.eOk.code).run world s).trace =
      [] := by
    apply sent_handler
    rintro rfl
    rw [operandState_setCrc]
    exact quiet accepted typed
  rw [run_dispatched _ _ _ _ accepted loaded typed]
  simp only [sent_noted, sent_append, silent, List.nil_append]
  exact ⟨_, rfl⟩

end Run

/-- A call of the first function of `dac_module`, without arguments. -/
def configureCall : Mem := storeCrc (Mem.overlay (fun _ => 0) [fmrMagicNumber, 0, 0, 26])

end Flipper.Fmr
