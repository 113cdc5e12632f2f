import Flipper.Fmr.Footprint

/-! The receive loop of `utils/fvm/src/main.c`. One packet buffer serves all turns:
a datagram overwrites as much of it as it has bytes, and how many these were is
only printed. -/
namespace Flipper.Fvm
open Binary Effect Fmr

/-- The packet buffer with the stack after it, and the state of the modules. -/
structure FvmState (σ : Type) where
  buffer : Mem
  device : σ

def received (datagram : List Byte) : List Byte := datagram.take fmrPacketSize

structure Turn (σ : Type) where
  trace : List (Event fmr)
  after : FvmState σ

section Loop
variable (registry : Registry) (device : LfDevice) (world : World fmr σ)

/-- A turn of the loop without `lf_debug_packet`, which comes before `fmr_perform`. It writes
nothing but text; that its reads return, also those that `debug_inside_iff` finds outside the
packet or its tables, is taken for granted here. -/
def fvmTurn (s : FvmState σ) (datagram : List Byte) : Turn σ :=
  let outcome := (fmrPerform (fmrInit registry) device (s.buffer.overlay (received datagram))).run
    world s.device
  ⟨outcome.trace, outcome.value.mem, outcome.state⟩

def fvmRun (s : FvmState σ) (datagrams : List (List Byte)) : FvmState σ :=
  datagrams.foldl (fun s datagram => (fvmTurn registry device world s datagram).after) s

/-- `fmr_perform` changes no byte of the memory but the checksum. -/
theorem perform_mem (s : σ) (m : Mem) (other : i ≠ 1 ∧ i ≠ 2) :
    ((fmrPerform (fmrInit registry) device m).run world s).value.mem i = m i := by
  by_cases magic : hdrMagic m = fmrMagicNumber
  case neg =>
    rw [run_bad_magic _ _ _ _ magic]
    rfl
  by_cases checksum : ChecksumOk m
  case neg =>
    rw [run_bad_checksum _ _ _ _ magic checksum]
    exact setCrc_at m 0 other
  by_cases known : hdrType m < fmrClassCount
  case neg =>
    rw [run_unknown _ _ _ _ magic checksum known]
    exact setCrc_at m 0 other
  by_cases loaded : device.modules = []
  case pos =>
    rw [run_unloaded _ _ _ _ ⟨magic, checksum, known⟩ loaded]
    exact setCrc_at m 0 other
  obtain ⟨cls, typed⟩ := class_of_type known
  rw [run_dispatched _ _ _ _ ⟨magic, checksum, known⟩ loaded typed]
  exact setCrc_at m 0 other

theorem received_length (datagram : List Byte) : (received datagram).length ≤ fmrPacketSize := by
  simp [received]

/-- The memory after the packet buffer is never written. -/
theorem fvmTurn_tail (s : FvmState σ) (datagram : List Byte) (beyond : fmrPacketSize ≤ i) :
    (fvmTurn registry device world s datagram).after.buffer i = s.buffer i := by
  have unread : i ≠ 1 ∧ i ≠ 2 := by
    unfold fmrPacketSize at beyond
    omega
  rw [fvmTurn]
  dsimp only
  rw [perform_mem registry device world s.device _ unread,
    Mem.overlay_outside _ (Nat.le_trans (received_length datagram) beyond)]

theorem fvmRun_tail (s : FvmState σ) (datagrams : List (List Byte)) (beyond : fmrPacketSize ≤ i) :
    (fvmRun registry device world s datagrams).buffer i = s.buffer i := by
  induction datagrams generalizing s with
  | nil => rfl
  | cons datagram rest ih =>
    exact (ih _).trans (fvmTurn_tail registry device world s datagram beyond)

end Loop
end Flipper.Fvm
