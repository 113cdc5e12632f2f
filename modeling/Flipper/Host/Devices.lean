import Flipper.Fmr.Module
import Mathlib.Logic.Relation

/-! The attached devices and the selected one, two globals of `lib/libflipper.c`. Both
hold pointers to the same devices; detaching and exiting release devices through the
first and leave the second as it is. -/
namespace Flipper.Host
open Binary Fmr

/-- One `struct _lf_device` from its allocation on. A later device may get the address of
a released one. -/
structure Device where
  address : Nat
  serial : Nat
  deriving DecidableEq

/-- `lf_attached_devices` and `lf_current_device`, with every device created and, in
order, every device handed to `lf_device_release`. -/
structure Devices where
  attached : List Device
  current : Option Device
  created : List Device
  released : List Device
  deriving DecidableEq

namespace Devices

def start : Devices := ⟨[], none, [], []⟩

def Live (s : Devices) (device : Device) : Prop := device ∈ s.created ∧ device ∉ s.released

/-- A new allocation: at the address of no live device. -/
def Fresh (s : Devices) (device : Device) : Prop :=
  device ∉ s.created ∧ ∀ other ∈ s.created, other ∉ s.released → other.address ≠ device.address

instance (s : Devices) (device : Device) : Decidable (s.Live device) :=
  inferInstanceAs (Decidable (_ ∧ _))

instance (s : Devices) (device : Device) : Decidable (s.Fresh device) :=
  inferInstanceAs (Decidable (_ ∧ _))

/-- `lf_attach` in its `LF_POSIX` branch, with the list `lf_libusb_get_devices` returned. -/
def lfAttach (s : Devices) (usbDevice : List Device) : WriteReply × Devices :=
  (⟨lfSuccess, none⟩, { s with
    attached := lfLlConcat s.attached usbDevice
    created := s.created ++ usbDevice })

def lfSelect (s : Devices) (device : Option Device) : WriteReply × Devices :=
  match device with
  | none => (⟨lfError, some LfErr.eNull.code⟩, s)
  | some device => (⟨lfSuccess, none⟩, { s with current := some device })

def lfGetSelected (s : Devices) : Option Device := s.current

/-- The argument is only compared with the items of the list, by its address. -/
def lfDetach (s : Devices) (device : Option Device) : WriteReply × Devices :=
  match device with
  | none => (⟨lfError, some LfErr.eNull.code⟩, s)
  | some device =>
    let (kept, freed) := lfLlRemove Device.address s.attached device.address
    (⟨lfSuccess, none⟩, { s with attached := kept, released := s.released ++ freed })

def lfExit (s : Devices) : WriteReply × Devices :=
  let (kept, freed) := lfLlRelease s.attached
  (⟨lfSuccess, none⟩, { s with attached := kept, released := s.released ++ freed })

inductive Action where
  /-- A device the caller creates and attaches to no list. -/
  | create (device : Device)
  | attach (devices : List Device)
  | select (device : Option Device)
  | detach (device : Option Device)
  | exit

/-- One call. New devices are allocations of their own; a device selected is live. -/
def act (s : Devices) : Action → Option Devices
  | .create device =>
    if s.Fresh device then some { s with created := s.created ++ [device] } else none
  | .attach devices =>
    if (∀ device ∈ devices, s.Fresh device) ∧ (devices.map Device.address).Nodup then
      some (s.lfAttach devices).2
    else none
  | .select device => if ∀ d ∈ device, s.Live d then some (s.lfSelect device).2 else none
  | .detach device => some (s.lfDetach device).2
  | .exit => some s.lfExit.2

/-- Runs whose steps are allowed in the states they are taken in. -/
def Runs (allowed : Devices → Action → Prop) : Devices → Devices → Prop :=
  Relation.ReflTransGen fun s after => ∃ action, allowed s action ∧ s.act action = some after

def anyStep : Devices → Action → Prop := fun _ _ => True

/-- The selection is NULL or a device that has not been released. -/
def SelectionLive (s : Devices) : Prop := ∀ device ∈ s.lfGetSelected, s.Live device

/-- The step does not take the selected device out of the list: it is not detached while
attached, and not attached on exit. -/
def SparesSelection (s : Devices) : Action → Prop
  | .detach (some device) => ∀ d ∈ s.current, d ∈ s.attached → d.address ≠ device.address
  | .exit => ∀ d ∈ s.current, d ∉ s.attached
  | _ => True

variable {s after : Devices} {action : Action}

structure Sound (s : Devices) : Prop where
  addresses : (s.attached.map Device.address).Nodup
  live : ∀ device ∈ s.attached, s.Live device
  created : ∀ device ∈ s.released, device ∈ s.created
  once : s.released.Nodup

/-- Releasing some of the attached devices, each of them once. -/
theorem Sound.release (sound : Sound s) (kept freed : List Device)
    (split : (kept ++ freed).Perm s.attached) :
    Sound { s with attached := kept, released := s.released ++ freed } where
  addresses := by
    have all := (split.map Device.address).nodup_iff.mpr sound.addresses
    rw [List.map_append] at all
    exact (List.nodup_append.mp all).1
  live := by
    intro device member
    obtain ⟨created, unreleased⟩ := sound.live device (split.subset (List.mem_append_left _ member))
    have nodup := split.nodup_iff.mpr (List.Nodup.of_map _ sound.addresses)
    refine ⟨created, fun released => ?_⟩
    rcases List.mem_append.mp released with before | now
    · exact unreleased before
    · exact (List.nodup_append.mp nodup).2.2 device member device now rfl
  created := by
    intro device released
    rcases List.mem_append.mp released with before | now
    · exact sound.created device before
    · exact (sound.live device (split.subset (List.mem_append_right _ now))).1
  once := by
    have nodup := split.nodup_iff.mpr (List.Nodup.of_map _ sound.addresses)
    refine List.nodup_append.mpr ⟨sound.once, (List.nodup_append.mp nodup).2.1, ?_⟩
    rintro device before _ now rfl
    exact (sound.live device (split.subset (List.mem_append_right _ now))).2 before

theorem Sound.attach (sound : Sound s) (fresh : ∀ device ∈ devices, s.Fresh device)
    (distinct : (devices.map Device.address).Nodup) : Sound (s.lfAttach devices).2 where
  addresses := by
    rw [lfAttach, lfLlConcat, List.map_append, List.nodup_append]
    refine ⟨sound.addresses, distinct, ?_⟩
    intro address old _ new same
    obtain ⟨device, attached, rfl⟩ := List.mem_map.mp old
    obtain ⟨device', added, rfl⟩ := List.mem_map.mp new
    obtain ⟨created, unreleased⟩ := sound.live device attached
    exact (fresh device' added).2 device created unreleased same
  live := by
    intro device member
    rcases List.mem_append.mp member with old | new
    · obtain ⟨created, unreleased⟩ := sound.live device old
      exact ⟨List.mem_append_left _ created, unreleased⟩
    · exact ⟨List.mem_append_right _ new,
        fun released => (fresh device new).1 (sound.created _ released)⟩
  created device released := List.mem_append_left _ (sound.created device released)
  once := sound.once

/-- The list is split into what stays and what is freed, by whether it is at an address. -/
theorem remove_perm (list : List Device) (address : Nat) :
    ((lfLlRemove Device.address list address).1 ++ (lfLlRemove Device.address list address).2).Perm
      list := by
  simp only [lfLlRemove_eq]
  have parts := List.filter_append_perm (fun device : Device =>
    decide (device.address = address)) list
  refine List.perm_append_comm.trans ?_
  simpa using parts

theorem Sound.act (sound : Sound s) (step : s.act action = some after) : Sound after := by
  cases action with
  | create device =>
    simp only [Devices.act, Option.ite_none_right_eq_some, Option.some.injEq] at step
    obtain ⟨fresh, rfl⟩ := step
    exact { sound with
      live := fun device member =>
        ⟨List.mem_append_left _ (sound.live device member).1, (sound.live device member).2⟩
      created := fun device released => List.mem_append_left _ (sound.created device released) }
  | attach devices =>
    simp only [Devices.act, Option.ite_none_right_eq_some, Option.some.injEq] at step
    obtain ⟨⟨fresh, distinct⟩, rfl⟩ := step
    exact sound.attach fresh distinct
  | select device =>
    simp only [Devices.act, Option.ite_none_right_eq_some, Option.some.injEq] at step
    obtain ⟨_, rfl⟩ := step
    cases device with
    | none => exact sound
    | some device => exact { sound with }
  | detach device =>
    obtain rfl := Option.some.inj step
    cases device with
    | none => exact sound
    | some device => exact sound.release _ _ (remove_perm s.attached device.address)
  | exit =>
    obtain rfl := Option.some.inj step
    refine sound.release _ _ ?_
    simp

theorem Runs.sound (run : Runs allowed start s) : Sound s := by
  induction run with
  | refl => exact ⟨List.nodup_nil, by simp [start], by simp [start], List.nodup_nil⟩
  | tail _ step ih =>
    obtain ⟨action, _, step⟩ := step
    exact ih.act step

/-- Creating more devices releases none. -/
theorem SelectionLive.create (live : s.SelectionLive) (attached more : List Device) :
    SelectionLive { s with attached, created := s.created ++ more } := by
  intro d selected
  obtain ⟨created, unreleased⟩ := live d selected
  exact ⟨List.mem_append_left _ created, unreleased⟩

/-- Releasing devices is harmless to the selection just when it is not among them. -/
theorem SelectionLive.release (live : s.SelectionLive) (kept freed : List Device) :
    SelectionLive { s with attached := kept, released := s.released ++ freed } ↔
      ∀ d ∈ s.current, d ∉ freed := by
  constructor
  · intro after d selected now
    exact (after d selected).2 (List.mem_append_right _ now)
  · intro spared d selected
    obtain ⟨created, unreleased⟩ := live d selected
    refine ⟨created, fun released => ?_⟩
    rcases List.mem_append.mp released with before | now
    · exact unreleased before
    · exact spared d selected now

/-- A live selection survives a step exactly when the step spares it. -/
theorem act_selectionLive (live : s.SelectionLive) (step : s.act action = some after) :
    after.SelectionLive ↔ s.SparesSelection action := by
  cases action with
  | create device =>
    simp only [act, Option.ite_none_right_eq_some, Option.some.injEq] at step
    obtain ⟨_, rfl⟩ := step
    exact iff_of_true (live.create s.attached [device]) trivial
  | attach devices =>
    simp only [act, Option.ite_none_right_eq_some, Option.some.injEq] at step
    obtain ⟨_, rfl⟩ := step
    exact iff_of_true (live.create _ devices) trivial
  | select device =>
    simp only [act, Option.ite_none_right_eq_some, Option.some.injEq] at step
    obtain ⟨chosen, rfl⟩ := step
    cases device with
    | none => exact iff_of_true live trivial
    | some device => exact iff_of_true chosen trivial
  | detach device =>
    obtain rfl := Option.some.inj step
    cases device with
    | none => exact iff_of_true live trivial
    | some device =>
      refine (live.release _ _).trans ?_
      simp [SparesSelection]
  | exit =>
    obtain rfl := Option.some.inj step
    refine (live.release _ _).trans ?_
    simp [SparesSelection]

theorem Runs.selectionLive (run : Runs SparesSelection start s) : s.SelectionLive := by
  induction run with
  | refl => simp [SelectionLive, lfGetSelected, start]
  | tail _ step ih =>
    obtain ⟨action, spares, step⟩ := step
    exact (act_selectionLive ih step).mpr spares

/-- No run releases a device twice. The selection stays live in a run whose steps spare
it, and the first step that does not leaves it dangling. -/
theorem selection_live_iff_spared (s : Devices) :
    (Runs anyStep start s → s.released.Nodup) ∧
    (Runs SparesSelection start s → s.SelectionLive ∧
      ∀ action after, s.act action = some after →
      (after.SelectionLive ↔ s.SparesSelection action)) := by
  constructor
  · intro run
    exact run.sound.once
  · intro run
    exact ⟨run.selectionLive, fun action after step => act_selectionLive run.selectionLive step⟩

/-- Two devices are attached, the first is selected and the second detached. -/
theorem detach_of_other_spares :
    let first : Device := ⟨1, 0⟩
    let second : Device := ⟨2, 0⟩
    Runs SparesSelection start ⟨[first], some first, [first, second], [second]⟩ ∧
      SelectionLive ⟨[first], some first, [first, second], [second]⟩ := by
  intro first second
  have attach : start.act (.attach [first, second]) =
      some ⟨[first, second], none, [first, second], []⟩ := by decide
  have select : act ⟨[first, second], none, [first, second], []⟩ (.select (some first)) =
      some ⟨[first, second], some first, [first, second], []⟩ := by decide
  have detach : act ⟨[first, second], some first, [first, second], []⟩ (.detach (some second)) =
      some ⟨[first], some first, [first, second], [second]⟩ := rfl
  have spares : SparesSelection ⟨[first, second], some first, [first, second], []⟩
      (.detach (some second)) := by
    rintro _ ⟨⟩ _
    decide
  have run : Runs SparesSelection start ⟨[first], some first, [first, second], [second]⟩ :=
    ((Relation.ReflTransGen.refl.tail ⟨.attach [first, second], trivial, attach⟩).tail
      ⟨.select (some first), trivial, select⟩).tail ⟨_, spares, detach⟩
  exact ⟨run, ((selection_live_iff_spared _).2 run).1⟩

/-- A device is attached, selected, and detached or released on exit: it is still selected. -/
theorem selection_dangles :
    let device : Device := ⟨1, 0⟩
    let dangling : Devices := ⟨[], some device, [device], [device]⟩
    Runs anyStep start dangling ∧ ¬ dangling.SelectionLive ∧
      ∀ action ∈ [Action.detach (some device), .exit],
        (start.act (.attach [device]) >>= (·.act (.select (some device))) >>= (·.act action)) =
          some dangling := by
  intro device dangling
  refine ⟨?_, ?_, by decide +kernel⟩
  · have attach : start.act (.attach [device]) = some ⟨[device], none, [device], []⟩ := by decide
    have select : act ⟨[device], none, [device], []⟩ (.select (some device)) =
        some ⟨[device], some device, [device], []⟩ := by decide
    have detach : act ⟨[device], some device, [device], []⟩ (.detach (some device)) =
        some dangling := rfl
    exact ((Relation.ReflTransGen.refl.tail ⟨_, trivial, attach⟩).tail ⟨_, trivial, select⟩).tail
      ⟨_, trivial, detach⟩
  · intro live
    exact (live device rfl).2 (List.mem_singleton.mpr rfl)

end Devices
end Flipper.Host
