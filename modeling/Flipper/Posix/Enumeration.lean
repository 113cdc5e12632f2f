import Flipper.Posix.Transport
import Mathlib.Algebra.Order.Floor.Div

/-! `lf_libusb_get_devices` and the transfers of the devices it creates. What the calls on
an attached device come to is part of that device; each of them is made at most once. -/
namespace Flipper.Posix
open Binary Fmr

def flipperUsbVendorId : BitVec 16 := 0x16C0

/-- `struct _lf_libusb_context`; a handle is the position of the device it was opened for,
and `initialized` says that the `context` of the record is set. -/
structure LibusbContext where
  handle : Option Nat
  initialized : Bool
  inSz : Byte
  outSz : Byte
  deriving DecidableEq

def LibusbContext.zero : LibusbContext := ⟨none, false, 0, 0⟩

/-- A device `lf_device_create` made for the USB device at a position of the bus. -/
structure LibusbDevice where
  position : Nat
  epCtx : LibusbContext
  deriving DecidableEq

/-- A device on the bus: what its descriptor says, the ints returned for it, and whether
there is memory for the device record, its context and its node in the list. -/
structure UsbDevice where
  descriptor : Int
  idVendor : BitVec 16
  deviceBlock : Bool
  contextBlock : Bool
  opened : Int
  claimed : Int
  nodeBlock : Bool
  deriving DecidableEq

/-- What `libusb_init` returns and the device list, if its count is not negative. -/
structure UsbBus where
  init : Int
  list : Option (List UsbDevice)

structure Enumeration where
  devices : List LibusbDevice
  created : List LibusbDevice

/-- How one turn of the loop ends: at the label `fail`, behind the loop body, or with a
NULL context dereferenced. -/
inductive Turn where
  | fails (err : LfErr) (s : Enumeration)
  | continues (s : Enumeration)
  | crashes

def appendNode (list : List α) (item : α) (block : Bool) : Int × List α :=
  if block then (lfSuccess, list ++ [item]) else (lfError, list)

/-- The rest of a turn once the context is allocated. -/
def openDevice (s : Enumeration) (position : Nat) (usb : UsbDevice) : Turn :=
  let ctx := { LibusbContext.zero with initialized := true }
  if usb.opened ≠ 0 then .fails .eNoDevice { s with created := s.created ++ [⟨position, ctx⟩] }
  else
    let device : LibusbDevice := ⟨position, { ctx with handle := some position }⟩
    let s := { s with created := s.created ++ [device] }
    if usb.claimed ≠ 0 then .fails .eLibusb s
    else
      let (status, devices) := appendNode s.devices device usb.nodeBlock
      let s := { s with devices }
      -- The assertion takes the status for a truth value.
      if status = 0 then .fails .eNull s else .continues s

def enumerate (s : Enumeration) (position : Nat) (usb : UsbDevice) : Turn :=
  if usb.descriptor ≠ 0 then .fails .eLibusb s
  else if usb.idVendor = flipperUsbVendorId then
    if ¬usb.deviceBlock then .fails .eEndpoint s
    -- The assertion after `calloc` looks at the context of `libusb_init`, not at the result.
    else if ¬usb.contextBlock then .crashes
    else openDevice s position usb
  else .continues s

def enumerateFrom (s : Enumeration) (position : Nat) : List UsbDevice → Turn
  | [] => .continues s
  | usb :: rest => match enumerate s position usb with
    | .continues s => enumerateFrom s (position + 1) rest
    | ended => ended

/-- The list returned, NULL being the empty one; the error raised; every device created and,
in order, those released. -/
structure GetDevices where
  devices : List LibusbDevice
  err : Option Byte
  created : List LibusbDevice
  released : List LibusbDevice

/-- From the end of the loop to the return, through the label `fail` or not. -/
def returnDevices : Turn → Option GetDevices
  | .continues s => some ⟨s.devices, none, s.created, []⟩
  | .fails err s =>
    let (devices, released) := lfLlRelease s.devices
    some ⟨devices, some err.code, s.created, released⟩
  | .crashes => none

/-- Nothing when the process dies. -/
def lfLibusbGetDevices (bus : UsbBus) : Option GetDevices :=
  returnDevices (if bus.init ≠ 0 then .fails .eLibusb ⟨[], []⟩
    else enumerateFrom ⟨[], []⟩ 0 (bus.list.getD []))

/-! The contracts. -/

/-- A call that needs this many transfers, all of which return zero, and then succeeds. -/
def EndsAfter (count : Nat) (call : List Transfer → Option WriteReply) : Prop :=
  ∀ transfers : List Transfer, (∀ transfer ∈ transfers, transfer.status = 0) →
    call transfers = if count ≤ transfers.length then some ⟨lfSuccess, none⟩ else none

def readStatus (inSz : Byte) (dst : Mem) (length : Nat) (transfers : List Transfer) :
    Option WriteReply :=
  (lfLibusbRead (some inSz) dst length transfers).map Prod.fst

def writeStatus (outSz : Byte) (src : Mem) (length : Nat) (transfers : List Transfer) :
    Option WriteReply :=
  (lfLibusbWrite (some outSz) src length transfers).map Prod.fst

/-- Both transfer loops of a device end after as many transfers as its endpoints need. -/
def TransfersEnd (ctx : LibusbContext) (length : Nat) : Prop :=
  (∀ dst, EndsAfter (length ⌈/⌉ ctx.inSz.toNat) (readStatus ctx.inSz dst length)) ∧
    ∀ src, EndsAfter (length ⌈/⌉ ctx.outSz.toNat) (writeStatus ctx.outSz src length)

/-- Nothing that is asked of the device fails. -/
structure UsbDevice.Works (usb : UsbDevice) : Prop where
  descriptor : usb.descriptor = 0
  deviceBlock : usb.deviceBlock = true
  contextBlock : usb.contextBlock = true
  opened : usb.opened = 0
  claimed : usb.claimed = 0
  nodeBlock : usb.nodeBlock = true

/-- The positions of the devices with the vendor id, from a position on. -/
def matching (position : Nat) : List UsbDevice → List Nat
  | [] => []
  | usb :: rest =>
    if usb.idVendor = flipperUsbVendorId then position :: matching (position + 1) rest
    else matching (position + 1) rest

/-- One device for each USB device with the vendor id, in order. -/
def ListsMatching (attached : List UsbDevice) : Prop :=
  ∃ returned, lfLibusbGetDevices ⟨0, some attached⟩ = some returned ∧
    returned.devices.map LibusbDevice.position = matching 0 attached

/-! Transfer loops that never see an error. -/

section Loop
variable (size : Nat) (move : σ → Nat → Nat → Transfer → σ)

theorem bulkLoop_status {transfers : List Transfer}
    (zero : ∀ transfer ∈ transfers, transfer.status = 0) (s : σ) (offset length : Nat)
    (run : bulkLoop size move transfers s offset length = some (status, s')) :
    status = lfSuccess := by
  induction transfers generalizing s offset length with
  | nil =>
    cases length with
    | zero =>
      cases run
      rfl
    | succ length => cases run
  | cons transfer later ih =>
    cases length with
    | zero =>
      cases run
      rfl
    | succ length =>
      simp only [bulkLoop_cons size move _ _ _ _ (Nat.succ_pos _), zero transfer List.mem_cons_self,
        ne_eq, not_true_eq_false, if_false] at run
      exact ih (fun transfer member => zero transfer (List.mem_cons_of_mem _ member)) _ _ _ run

/-- The loop asks for the transfers up to the rounded quotient and for no more. -/
theorem succeed_iff_le {transfers : List Transfer}
    (zero : ∀ transfer ∈ transfers, transfer.status = 0) (sized : 0 < size) (length : Nat) :
    Succeed size length transfers ↔ length ⌈/⌉ size ≤ transfers.length := by
  rw [ceilDiv_le_iff_le_mul sized]
  constructor
  · intro succeed
    by_contra short
    rw [Nat.not_le, mul_comm] at short
    obtain ⟨transfer, found, _⟩ := succeed transfers.length short
    rw [List.getElem?_eq_none (Nat.le_refl _)] at found
    cases found
  · intro enough i asked
    have inside : i < transfers.length :=
      Nat.lt_of_mul_lt_mul_right (Nat.lt_of_lt_of_le asked (mul_comm size _ ▸ enough))
    exact ⟨transfers[i], List.getElem?_eq_getElem inside, zero _ (List.getElem_mem inside)⟩

end Loop

/-- A call on an endpoint of some size ends after the rounded quotient. -/
theorem bulk_ends (size : Byte) (sized : size ≠ 0) (move : σ → Nat → Nat → Transfer → σ) (s : σ)
    (length : Nat) :
    EndsAfter (length ⌈/⌉ size.toNat) fun transfers =>
      (bulk (some size) move transfers s length).map Prod.fst := by
  intro transfers zero
  have positive : 0 < size.toNat := by
    rw [Nat.pos_iff_ne_zero]
    exact fun zero => sized (BitVec.eq_of_toNat_eq zero)
  have success := bulkLoop_success size.toNat move transfers s 0 length
  rw [succeed_iff_le size.toNat zero positive] at success
  cases run : bulkLoop size.toNat move transfers s 0 length with
  | none =>
    rw [run] at success
    have few : ¬length ⌈/⌉ size.toNat ≤ transfers.length := by simpa using success
    simp [bulk, run, few]
  | some ended =>
    obtain ⟨status, s'⟩ := ended
    obtain rfl := bulkLoop_status size.toNat move zero s 0 length run
    have enough := success.mp ⟨s', run⟩
    simp [bulk, run, enough]

/-- With the sizes filled in, both loops would end as they should. -/
theorem sized_transfers_end (ctx : LibusbContext) (inSz : ctx.inSz ≠ 0) (outSz : ctx.outSz ≠ 0)
    (length : Nat) : TransfersEnd ctx length :=
  ⟨fun _ => bulk_ends ctx.inSz inSz receiveBulk _ length,
    fun src => bulk_ends ctx.outSz outSz (sendBulk src) _ length⟩

/-- On an endpoint of size zero a call of some length never ends. -/
theorem bulk_never (move : σ → Nat → Nat → Transfer → σ) (s : σ) {length : Nat} (more : 0 < length)
    (transfers : List Transfer) (zero : ∀ transfer ∈ transfers, transfer.status = 0) :
    bulk (some 0) move transfers s length = none := by
  have stuck : bulkLoop 0 move transfers s 0 length = none := by
    cases run : bulkLoop 0 move transfers s 0 length with
    | none => rfl
    | some ended =>
      obtain ⟨status, s'⟩ := ended
      obtain rfl := bulkLoop_status 0 move zero s 0 length run
      have succeed := (bulkLoop_success 0 move transfers s 0 length).mp ⟨s', run⟩
      obtain ⟨transfer, found, _⟩ := succeed transfers.length (by simpa using more)
      rw [List.getElem?_eq_none (Nat.le_refl _)] at found
      cases found
  simp [bulk, stuck]

theorem bulk_ends_zero (move : σ → Nat → Nat → Transfer → σ) (s : σ) (length : Nat) :
    EndsAfter (length ⌈/⌉ 0) (fun transfers =>
      (bulk (some 0) move transfers s length).map Prod.fst) ↔
      length = 0 := by
  constructor
  · intro ends
    by_contra more
    have called := ends [] (by simp)
    dsimp only at called
    rw [bulk_never move s (Nat.pos_of_ne_zero more) [] (by simp)] at called
    simp at called
  · rintro rfl transfers zero
    cases transfers <;> simp [bulk, bulkLoop]

/-! The enumeration. -/

/-- The endpoint sizes of a context are never filled in. -/
def Unsized (device : LibusbDevice) : Prop := device.epCtx.inSz = 0 ∧ device.epCtx.outSz = 0

/-- What a turn leaves: sizes of zero in every context, and a list that is empty whenever
the loop goes on. -/
def Turn.Fruitless : Turn → Prop
  | .fails _ s => ∀ device ∈ s.created, Unsized device
  | .continues s => (∀ device ∈ s.created, Unsized device) ∧ s.devices = []
  | .crashes => True

theorem openDevice_fruitless (s : Enumeration) (position : Nat) (usb : UsbDevice)
    (start : (Turn.continues s).Fruitless) : (openDevice s position usb).Fruitless := by
  obtain ⟨unsized, empty⟩ := start
  have created : ∀ handle, ∀ device ∈ s.created ++ [⟨position, ⟨handle, true, 0, 0⟩⟩],
      Unsized device := by
    intro handle device member
    rcases List.mem_append.mp member with old | new
    · exact unsized device old
    · rw [List.mem_singleton.mp new]
      exact ⟨rfl, rfl⟩
  unfold openDevice
  by_cases opened : usb.opened = 0
  · by_cases claimed : usb.claimed = 0
    · -- An appended node ends the loop; a node that could not be appended does not.
      cases block : usb.nodeBlock
      · simpa [opened, claimed, appendNode, lfError, Turn.Fruitless, LibusbContext.zero,
          empty] using
          created (some position)
      · simpa [opened, claimed, appendNode, lfSuccess, Turn.Fruitless, LibusbContext.zero] using
          created (some position)
    · simpa [opened, claimed, Turn.Fruitless, LibusbContext.zero] using created (some position)
  · simpa [opened, Turn.Fruitless, LibusbContext.zero] using created none

theorem enumerate_fruitless (s : Enumeration) (position : Nat) (usb : UsbDevice)
    (start : (Turn.continues s).Fruitless) : (enumerate s position usb).Fruitless := by
  unfold enumerate
  split
  · exact start.1
  · split
    · split
      · exact start.1
      · split
        · trivial
        · exact openDevice_fruitless s position usb start
    · exact start

theorem enumerateFrom_fruitless (s : Enumeration) (position : Nat) (attached : List UsbDevice)
    (start : (Turn.continues s).Fruitless) : (enumerateFrom s position attached).Fruitless := by
  induction attached generalizing s position with
  | nil => exact start
  | cons usb rest ih =>
    have turn := enumerate_fruitless s position usb start
    unfold enumerateFrom
    cases ended : enumerate s position usb with
    | continues s' =>
      rw [ended] at turn
      exact ih s' (position + 1) turn
    | fails err s' => rwa [ended] at turn
    | crashes => trivial

/-- Whatever is attached and whatever fails, no device is returned and no endpoint of a
created device has a size. -/
theorem getDevices_fruitless {bus : UsbBus} (run : lfLibusbGetDevices bus = some returned) :
    returned.devices = [] ∧ ∀ device ∈ returned.created, Unsized device := by
  have start : (Turn.continues ⟨[], []⟩).Fruitless := ⟨by simp, rfl⟩
  have turn := enumerateFrom_fruitless ⟨[], []⟩ 0 (bus.list.getD []) start
  unfold lfLibusbGetDevices at run
  split at run
  · cases run
    exact ⟨rfl, by simp⟩
  · cases ended : enumerateFrom ⟨[], []⟩ 0 (bus.list.getD []) with
    | continues s =>
      rw [ended] at run turn
      cases run
      exact ⟨turn.2, turn.1⟩
    | fails err s =>
      rw [ended] at run turn
      simp only [returnDevices, lfLlRelease_eq] at run
      cases run
      exact ⟨rfl, turn⟩
    | crashes =>
      rw [ended] at run
      cases run

/-- The transfer loops of a device that was created end only where nothing is asked of
them. -/
theorem created_transfers_end (bus : UsbBus) (returned : GetDevices)
    (run : lfLibusbGetDevices bus = some returned) (device : LibusbDevice)
    (created : device ∈ returned.created) (length : Nat) :
    TransfersEnd device.epCtx length ↔ length = 0 := by
  obtain ⟨inSz, outSz⟩ := (getDevices_fruitless run).2 device created
  unfold TransfersEnd
  rw [inSz, outSz]
  constructor
  · rintro ⟨reads, _⟩
    exact (bulk_ends_zero receiveBulk ⟨fun _ => 0, []⟩ length).mp (reads _)
  · intro nothing
    exact ⟨fun dst => (bulk_ends_zero receiveBulk ⟨dst, []⟩ length).mpr nothing,
      fun src => (bulk_ends_zero (sendBulk src) [] length).mpr nothing⟩

def workingFlipper : UsbDevice := ⟨0, flipperUsbVendorId, true, true, 0, 0, true⟩

/-- What a bus with this one device comes to: it is created, and released again. -/
def flipperFound : GetDevices :=
  let device : LibusbDevice := ⟨0, some 0, true, 0, 0⟩
  ⟨[], some LfErr.eNull.code, [device], [device]⟩

theorem created_transfers_end_one :
    TransfersEnd ⟨some 0, true, 0, 0⟩ 1 ↔ 1 = 0 :=
  created_transfers_end ⟨0, some [workingFlipper]⟩ flipperFound rfl ⟨0, some 0, true, 0, 0⟩
    List.mem_cons_self 1

theorem flipper_transfers_never_end :
    lfLibusbGetDevices ⟨0, some [workingFlipper]⟩ = some flipperFound ∧
      ∀ device ∈ flipperFound.created, ¬TransfersEnd device.epCtx 1 := by
  refine ⟨rfl, fun device created => ?_⟩
  rw [List.mem_singleton.mp created]
  rintro ⟨reads, _⟩
  have called := reads (fun _ => 0) [] (by simp)
  simp [readStatus, lfLibusbRead, bulk, bulkLoop] at called

theorem matching_eq_nil (position : Nat) (attached : List UsbDevice) :
    matching position attached = [] ↔ ∀ usb ∈ attached, usb.idVendor ≠ flipperUsbVendorId := by
  induction attached generalizing position with
  | nil => simp [matching]
  | cons usb rest ih =>
    by_cases vendor : usb.idVendor = flipperUsbVendorId <;> simp [matching, vendor, ih]

/-- Devices of other vendors are passed by. -/
theorem enumerateFrom_others (s : Enumeration) (position : Nat) (attached : List UsbDevice)
    (works : ∀ usb ∈ attached, usb.Works)
    (others : ∀ usb ∈ attached, usb.idVendor ≠ flipperUsbVendorId) :
    enumerateFrom s position attached = .continues s := by
  induction attached generalizing position with
  | nil => rfl
  | cons usb rest ih =>
    have passed : enumerate s position usb = .continues s := by
      rw [enumerate, if_neg (not_not.mpr (works usb List.mem_cons_self).descriptor),
        if_neg (others usb List.mem_cons_self)]
    rw [enumerateFrom, passed]
    exact ih (position + 1) (fun usb member => works usb (List.mem_cons_of_mem _ member))
      fun usb member => others usb (List.mem_cons_of_mem _ member)

/-- Where nothing fails, the list is right only if there is nothing to list. -/
theorem lists_matching_iff (attached : List UsbDevice) (works : ∀ usb ∈ attached, usb.Works) :
    ListsMatching attached ↔ ∀ usb ∈ attached, usb.idVendor ≠ flipperUsbVendorId := by
  rw [← matching_eq_nil 0]
  constructor
  · rintro ⟨returned, run, listed⟩
    rw [(getDevices_fruitless run).1, List.map_nil] at listed
    exact listed.symm
  · intro nothing
    have passed := enumerateFrom_others ⟨[], []⟩ 0 attached works
      ((matching_eq_nil 0 attached).mp nothing)
    refine ⟨⟨[], none, [], []⟩, ?_, ?_⟩
    · simp [lfLibusbGetDevices, passed, returnDevices]
    · rw [nothing, List.map_nil]

theorem workingFlipper_works : workingFlipper.Works := ⟨rfl, rfl, rfl, rfl, rfl, rfl⟩

theorem lists_matching_iff_flipper :
    ListsMatching [workingFlipper] ↔ ∀ usb ∈ [workingFlipper], usb.idVendor ≠ flipperUsbVendorId :=
  lists_matching_iff [workingFlipper] (by simp [workingFlipper_works])

theorem flipper_not_listed : workingFlipper.Works ∧ ¬ListsMatching [workingFlipper] := by
  refine ⟨workingFlipper_works, ?_⟩
  rintro ⟨returned, run, listed⟩
  have found : lfLibusbGetDevices ⟨0, some [workingFlipper]⟩ = some flipperFound := rfl
  rw [found] at run
  cases run
  exact absurd listed (by decide)

end Flipper.Posix
