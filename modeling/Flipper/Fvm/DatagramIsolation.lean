import Flipper.Fvm.Loop

/-! Whether a turn of the loop depends on earlier datagrams. What a datagram does not
overwrite is left over from before, and `fmr_perform` reads it as part of the packet. -/
namespace Flipper.Fvm
open Binary Effect Fmr

/-- The datagram holds all of the packet that is looked at. -/
def SelfContained (device : LfDevice) (datagram : List Byte) : Prop :=
  Covered device (Mem.overlay (fun _ => 0) (received datagram)) (received datagram).length

instance (device : LfDevice) (datagram : List Byte) : Decidable (SelfContained device datagram) :=
  inferInstanceAs (Decidable (Covered _ _ _))

section Loop
variable (registry : Registry) (device : LfDevice) (world : World fmr σ)

theorem selfContained_covered (contained : SelfContained device datagram) (buffer : Mem) :
    Covered device (buffer.overlay (received datagram)) (received datagram).length := by
  apply covered_congr _ contained
  intro i inside
  rw [Mem.overlay_inside _ inside, Mem.overlay_inside _ inside]

/-- One turn: only the datagram, the module state and the memory after the buffer matter. -/
theorem fvmTurn_alike {s t : FvmState σ} (contained : SelfContained device datagram)
    (tail : ∀ i, fmrPacketSize ≤ i → t.buffer i = s.buffer i) (same : t.device = s.device) :
    (fvmTurn registry device world t datagram).trace =
    (fvmTurn registry device world s datagram).trace ∧
      (fvmTurn registry device world t datagram).after.device =
        (fvmTurn registry device world s datagram).after.device := by
  have alike : Alike (received datagram).length (t.buffer.overlay (received datagram))
      (s.buffer.overlay (received datagram)) := by
    constructor
    · intro i inside
      rw [Mem.overlay_inside _ inside, Mem.overlay_inside _ inside]
    · intro i beyond
      have outside := Nat.le_trans (received_length datagram) beyond
      rw [Mem.overlay_outside _ outside, Mem.overlay_outside _ outside, tail i beyond]
  have equal := perform_alike registry device world s.device alike
    (selfContained_covered device contained t.buffer)
  unfold fvmTurn
  rw [same]
  exact equal

/-- A turn that runs a function was given the whole packet. -/
theorem fvmTurn_whole {s : FvmState σ} (contained : SelfContained device datagram)
    (ran : invoked (fvmTurn registry device world s datagram).trace ≠ []) :
    (hdrLen (s.buffer.overlay (received datagram))).toNat ≤ (received datagram).length := by
  have magic : hdrMagic (s.buffer.overlay (received datagram)) = fmrMagicNumber := by
    by_contra wrong
    apply ran
    rw [fvmTurn, run_bad_magic _ _ _ _ wrong]
    rfl
  exact ((selfContained_covered device contained s.buffer).2 magic).2.1

/-- In a run of self-contained datagrams every turn executes and answers what it
would after any other history that left the modules in the same state. As in the loop, the reads
of `lf_debug_packet` are taken to return. -/
theorem datagrams_isolated (s : FvmState σ) (arrivals : List (List Byte))
    (contained : ∀ datagram ∈ arrivals, SelfContained device datagram)
    (arrived : arrivals[k]? = some datagram) :
    let before := fvmRun registry device world s (arrivals.take k)
    let turn := fvmTurn registry device world before datagram
    (∀ (t : FvmState σ) (history : List (List Byte)),
        (∀ i, fmrPacketSize ≤ i → t.buffer i = s.buffer i) →
        (fvmRun registry device world t history).device = before.device →
        let other := fvmTurn registry device world (fvmRun registry device world t history) datagram
        other.trace = turn.trace ∧ other.after.device = turn.after.device) ∧
      (invoked turn.trace ≠ [] →
        (hdrLen (before.buffer.overlay (received datagram))).toNat ≤
          (received datagram).length) := by
  have self := contained datagram (List.mem_of_getElem? arrived)
  refine ⟨fun t history tail same => ?_, fvmTurn_whole registry device world self⟩
  apply fvmTurn_alike registry device world self _ same
  intro i beyond
  rw [fvmRun_tail registry device world t history beyond, tail i beyond,
    fvmRun_tail registry device world s _ beyond]

end Loop

/-- An FVM that has just started, on a cleared stack. -/
def freshFvm : FvmState Unit := ⟨fun _ => 0, ()⟩

def configureDatagram : List Byte := Mem.slice configureCall 0 fmrPacketSize

/-- The same FVM after one call. -/
def calledFvm : FvmState Unit :=
  fvmRun (fun _ => none) ⟨fvmModules⟩ obliging freshFvm [configureDatagram]

/-- Three bytes bring back the packet before them, with the checksum it came with. -/
theorem short_datagram_replays :
    invoked (fvmTurn (fun _ => none) ⟨fvmModules⟩ obliging calledFvm
      (configureDatagram.take 3)).trace =
        [(0, [])] ∧
      invoked (fvmTurn (fun _ => none) ⟨fvmModules⟩ obliging freshFvm
        (configureDatagram.take 3)).trace =
        [] ∧
      (configureDatagram.take 3).length <
        (hdrLen (calledFvm.buffer.overlay (received (configureDatagram.take 3)))).toNat :=
  ⟨by decide +kernel, by decide +kernel, by decide +kernel⟩

theorem whole_datagrams_isolated :
    (∀ datagram ∈ [configureDatagram, configureDatagram], SelfContained ⟨fvmModules⟩ datagram) ∧
      (fvmTurn (fun _ => none) ⟨fvmModules⟩ obliging freshFvm configureDatagram).trace =
        (fvmTurn (fun _ => none) ⟨fvmModules⟩ obliging calledFvm configureDatagram).trace := by
  have whole : SelfContained ⟨fvmModules⟩ configureDatagram := by decide +kernel
  have contained : ∀ datagram ∈ [configureDatagram, configureDatagram],
      SelfContained ⟨fvmModules⟩ datagram := by simpa using whole
  have arrived : [configureDatagram, configureDatagram][1]? = some configureDatagram := rfl
  have isolated := datagrams_isolated (fun _ => none) ⟨fvmModules⟩ obliging freshFvm _
    contained arrived
  have tail : ∀ i, fmrPacketSize ≤ i → freshFvm.buffer i = freshFvm.buffer i := fun _ _ => rfl
  exact ⟨contained, (isolated.1 freshFvm [] tail (Subsingleton.elim _ _)).1⟩

end Flipper.Fvm
