import Flipper.Binary.Memory

/-! The control endpoint of `platforms/atmegau2`: `USB_COM_vect` and the reset part of
`USB_GEN_vect` in `control.c`, with the tables of `descriptors.c`. -/
namespace Flipper.Atmega.Control
open Binary

def usbControlSize : Nat := 16

/-! The bits of UECONX and UDADDR. -/

def stallrq : Byte := 0x20

def stallrqc : Byte := 0x10

def rstdt : Byte := 0x08

def epen : Byte := 0x01

def adden : Byte := 0x80

def rxstpe : Byte := 0x08

def endpointSingleBuffer : Byte := 0x02

def endpointSize (size : Nat) : Byte :=
  if 32 < size then 0x30 else if 16 < size then 0x20 else if 8 < size then 0x10 else 0x00

/-- `endpoint`: for each endpoint whether it is enabled, its type, and its size. -/
def endpoint : List Byte := [
  1, 0x81, endpointSize 64 ||| endpointSingleBuffer,
  1, 0x80, endpointSize 64 ||| endpointSingleBuffer,
  1, 0xC1, endpointSize 32 ||| endpointSingleBuffer]

def getStatus : Byte := 0x00

def clearFeature : Byte := 0x01

def setFeature : Byte := 0x03

def setAddress : Byte := 0x05

def getDescriptor : Byte := 0x06

def getConfiguration : Byte := 0x08

def setConfiguration : Byte := 0x09

def maxEndpoint : Nat := 4

/-- `struct _descriptor` with the bytes at its address. -/
structure Descriptor where
  value : BitVec 16
  index : BitVec 16
  bytes : List Byte

def deviceDescriptor : List Byte :=
  [18, 1, 0x00, 0x02, 0xFF, 0, 0, BitVec.ofNat 8 usbControlSize, 0xC0, 0x16, 0x80, 0x04, 0x00, 0x01,
    1, 2, 0, 1]

def configurationDescriptor : List Byte := [
  9, 2, 48, 0, 1, 1, 0, 0xC0, 250,
  9, 4, 0, 0, 2, 0xFF, 1, 1, 0,
  7, 5, 0x81, 2, 64, 0, 1,
  7, 5, 0x02, 2, 64, 0, 1,
  9, 4, 1, 0, 1, 0xFF, 1, 1, 0,
  7, 5, 0x83, 3, 32, 0, 1]

/-- `struct usb_string`; its length leaves out the end of the text. -/
def usbString (text : String) : List Byte :=
  BitVec.ofNat 8 (2 * text.length + 2) :: 3 :: text.toList.flatMap fun c =>
    [BitVec.ofNat 8 c.toNat, 0]

def descriptors : List Descriptor := [
  ⟨0x0100, 0x0000, deviceDescriptor⟩,
  ⟨0x0200, 0x0000, configurationDescriptor⟩,
  ⟨0x0300, 0x0000, [4, 3, 0x09, 0x04]⟩,
  ⟨0x0301, 0x0409, usbString "flipper.io"⟩,
  ⟨0x0302, 0x0409, usbString "Flipper: Carbon"⟩]

structure Endpoint where
  ueconx : Byte
  uecfg0x : Byte
  uecfg1x : Byte
  ueienx : Byte

/-- The registers of the controller, `megausb_configuration`, and for the record the packets
sent on the control endpoint. -/
structure Usb where
  uenum : Nat
  endpoints : Nat → Endpoint
  udaddr : Byte
  configuration : Byte
  sent : List (List Byte)

structure Setup where
  bmRequestType : Byte
  bRequest : Byte
  wValue : BitVec 16
  wIndex : BitVec 16
  wLength : BitVec 16

structure Reading where
  txini : Bool
  rxouti : Bool

namespace Usb

/-- A write to registers of the endpoint that UENUM selects. -/
def write (s : Usb) (change : Endpoint → Endpoint) : Usb :=
  { s with endpoints := Function.update s.endpoints s.uenum (change (s.endpoints s.uenum)) }

def select (s : Usb) (uenum : Nat) : Usb := { s with uenum }

def stall (s : Usb) : Usb := s.write ({ · with ueconx := stallrq ||| epen })

/-- `usb_send_in` with the bytes in the bank. -/
def sendIn (s : Usb) (bytes : List Byte) : Usb := { s with sent := s.sent ++ [bytes] }

end Usb

/-- `usb_wait_in_ready`: it ends if one look finds the bank free. -/
def waitInReady (readings : List Reading) : Option Unit :=
  if readings.any Reading.txini then some () else none

/-- The bytes of a descriptor, packet after packet, until a short one is out or the host ends
the transfer. -/
def sendDescriptor (bytes : List Byte) : List Reading → (offset len : Nat) → List (List Byte) →
    Option (List (List Byte))
  | [], _, _, _ => none
  | reading :: later, offset, len, sent =>
    if !(reading.txini || reading.rxouti) then sendDescriptor bytes later offset len sent
    else if reading.rxouti then some sent
    else
      let n := if len < usbControlSize then len else usbControlSize
      let sent := sent ++ [(bytes.drop offset).take n]
      let len := len - n
      if len ≠ 0 ∨ n = usbControlSize then sendDescriptor bytes later
        (offset + n) len sent else some sent

/-- What the source does not say: the program memory behind the table of the endpoints, and
whether STALLRQ stays set when a 0 is written to it and STALLRQC is not set. -/
structure Chip where
  behind : Nat → Byte
  sticky : Bool

namespace Chip
variable (chip : Chip)

def endpointTable (k : Nat) : Byte := endpoint.getD k (chip.behind k)

/-- The STALLRQ bit of an endpoint after a 0 was written to it. -/
def stallLeft (e : Endpoint) : Byte := if chip.sticky then e.ueconx &&& stallrq else 0

/-- The loop over the endpoints from `i` on, with the table at `cfg`. -/
def configureEndpoints : (turns i cfg : Nat) → Usb → Usb
  | 0, _, _, s => s
  | turns + 1, i, cfg, s =>
    let en := chip.endpointTable cfg
    let s := (s.select i).write fun e => { e with ueconx := en ||| chip.stallLeft e }
    if en ≠ 0 then
      configureEndpoints turns (i + 1) (cfg + 3) (s.write ({ · with
        uecfg0x := chip.endpointTable (cfg + 1), uecfg1x := chip.endpointTable (cfg + 2) }))
    else configureEndpoints turns (i + 1) (cfg + 1) s

end Chip

def descriptorFor (setup : Setup) : Option Descriptor :=
  descriptors.find? fun d => d.value == setup.wValue && d.index == setup.wIndex

/-- `USB_COM_vect`; without a result if one of its waits does not end. The setup packet is
there if `RXSTPI` is set. -/
def usbCom (chip : Chip) (setup : Option Setup) (readings : List Reading) (s : Usb) :
    Option Usb :=
  let s := s.select 0
  match setup with
  | none => some s.stall
  | some setup =>
    if setup.bRequest = getDescriptor then
      match descriptorFor setup with
      | none => some s.stall
      | some d =>
        let len := if setup.wLength.toNat < 256 then setup.wLength.toNat else 255
        let len := if len > d.bytes.length then d.bytes.length else len
        (sendDescriptor d.bytes readings 0 len s.sent).map fun sent => { s with sent }
    else if setup.bRequest = setAddress then
      (waitInReady readings).map fun _ =>
        { s.sendIn [] with udaddr := setup.wValue.setWidth 8 ||| adden }
    else if setup.bRequest = setConfiguration ∧ setup.bmRequestType = 0 then
      let s := { s with configuration := setup.wValue.setWidth 8 }
      some (chip.configureEndpoints 4 1 0 (s.sendIn []))
    else if setup.bRequest = getConfiguration ∧ setup.bmRequestType = 0x80 then
      (waitInReady readings).map fun _ => s.sendIn [s.configuration]
    else if setup.bRequest = getStatus then
      (waitInReady readings).map fun _ =>
        let halted := setup.bmRequestType = 0x82 ∧
          (s.endpoints (setup.wIndex.toNat % 8)).ueconx &&& stallrq ≠ 0
        s.sendIn [if halted then 1 else 0, 0]
    else if (setup.bRequest = clearFeature ∨ setup.bRequest = setFeature) ∧
      setup.bmRequestType = 0x02 ∧
        setup.wValue = 0 then
      let i := (setup.wIndex &&& 0x7F).toNat
      if 1 ≤ i ∧ i ≤ maxEndpoint then
        let s := (s.sendIn []).select i
        if setup.bRequest = setFeature then some s.stall
        else some (s.write ({ · with ueconx := stallrqc ||| rstdt ||| epen }))
      else some s.stall
    else some s.stall

/-- `USB_GEN_vect` for the end of a reset, which disables the other endpoints. -/
def endOfReset (s : Usb) : Usb :=
  { s with
    uenum := 0
    endpoints := Function.update (fun _ => ⟨0, 0, 0, 0⟩) 0
      ⟨epen, 0x00, endpointSize usbControlSize ||| endpointSingleBuffer, rxstpe⟩
    configuration := 0 }

inductive Action where
  | endOfReset
  | control (setup : Option Setup) (readings : List Reading)

def act (chip : Chip) (s : Usb) : Action → Option Usb
  | .endOfReset => some (endOfReset s)
  | .control setup readings => usbCom chip setup readings s

def run (chip : Chip) (s : Usb) (actions : List Action) : Option Usb :=
  actions.foldlM (act chip) s

def start : Usb := ⟨0, fun _ => ⟨0, 0, 0, 0⟩, 0, 0, []⟩

/-! A descriptor on its way. -/

/-- All packets of some bytes: full ones and a short one, which may be empty. -/
def controlPackets (bytes : List Byte) : List (List Byte) :=
  (List.range (bytes.length / 16 + 1)).map fun i => (bytes.drop (16 * i)).take 16

section Packets
variable (bytes : List Byte)

theorem controlPackets_short (short : bytes.length < 16) : controlPackets bytes = [bytes] := by
  simp [controlPackets, Nat.div_eq_of_lt short, List.take_of_length_le short.le]

theorem controlPackets_full (full : 16 ≤ bytes.length) :
    controlPackets bytes = bytes.take 16 :: controlPackets (bytes.drop 16) := by
  have count : bytes.length / 16 + 1 = (bytes.drop 16).length / 16 + 1 + 1 := by
    rw [List.length_drop]
    omega
  rw [controlPackets, controlPackets, count, List.range_succ_eq_map, List.map_cons, List.map_map]
  congr 1
  refine List.map_congr_left fun i _ => ?_
  rw [Function.comp_apply, List.drop_drop, Nat.succ_eq_add_one, Nat.mul_succ, Nat.add_comm]

/-- The packets carry the bytes, and the first one that is not full is the last. -/
theorem controlPackets_shape :
    (controlPackets bytes).flatten = bytes ∧
      ∃ full last, controlPackets bytes = full ++ [last] ∧ (∀ packet ∈ full, packet.length = 16) ∧
        last.length < 16 := by
  induction length : bytes.length using Nat.strongRecOn generalizing bytes with
  | ind length' ih =>
    rcases Nat.lt_or_ge bytes.length 16 with short | long
    · rw [controlPackets_short bytes short]
      exact ⟨by simp, [], bytes, rfl, by simp, short⟩
    · obtain ⟨flat, full, last, split, whole, short⟩ :=
        ih (bytes.drop 16).length (by rw [List.length_drop]; omega) (bytes.drop 16) rfl
      rw [controlPackets_full bytes long]
      refine ⟨by rw [List.flatten_cons, flat, List.take_append_drop], bytes.take 16 :: full, last,
        by rw [split]; rfl, ?_, short⟩
      intro packet member
      rcases List.mem_cons.mp member with rfl | later
      · rw [List.length_take]
        omega
      · exact whole packet later

/-- The bytes from an offset on. -/
theorem window_short (offset : Nat) {len : Nat} (short : len < 16) :
    controlPackets ((bytes.drop offset).take len) = [(bytes.drop offset).take len] := by
  refine controlPackets_short _ ?_
  rw [List.length_take, List.length_drop]
  omega

theorem window_full {offset len : Nat} (inside : offset + len ≤ bytes.length) (long : 16 ≤ len) :
    controlPackets ((bytes.drop offset).take len) =
      (bytes.drop offset).take 16 :: controlPackets
      ((bytes.drop (offset + 16)).take (len - 16)) := by
  rw [controlPackets_full _ (by rw [List.length_take, List.length_drop]; omega), List.take_take,
    Nat.min_eq_left long, List.drop_take, List.drop_drop]

end Packets

section Send
variable {bytes : List Byte} {readings : List Reading} {offset len : Nat}
  {sent after : List (List Byte)}

/-- One packet more. -/
theorem sendDescriptor_ready (reading : Reading) (ready : reading.txini = true)
    (open_ : reading.rxouti = false) :
    sendDescriptor bytes (reading :: readings) offset len sent =
      if len < 16 then some (sent ++ [(bytes.drop offset).take len])
      else sendDescriptor bytes readings (offset + 16) (len - 16)
        (sent ++ [(bytes.drop offset).take 16]) := by
  rw [sendDescriptor, if_neg (by simp [ready]), if_neg (by simp [open_])]
  rcases Nat.lt_or_ge len 16 with short | long
  · have all : (if len < usbControlSize then len else usbControlSize) = len := if_pos short
    simp only [all]
    rw [if_pos short, if_neg (by simp only [usbControlSize]; omega)]
  · have full : (if len < usbControlSize then len else usbControlSize) = 16 :=
      if_neg (Nat.not_lt.mpr long)
    simp only [full]
    rw [if_neg (Nat.not_lt.mpr long)]
    exact if_pos (Or.inr rfl)

theorem sendDescriptor_all (open_ : ∀ reading ∈ readings, reading.rxouti = false)
    (enough : len / 16 + 1 ≤ (readings.filter Reading.txini).length)
    (inside : offset + len ≤ bytes.length) :
    sendDescriptor bytes readings offset len sent =
      some (sent ++ controlPackets ((bytes.drop offset).take len)) := by
  induction readings generalizing offset len sent with
  | nil => simp at enough
  | cons reading later ih =>
    have first := open_ reading (by simp)
    have rest : ∀ reading ∈ later, reading.rxouti = false :=
      fun other member => open_ other (by simp [member])
    cases ready : reading.txini with
    | false =>
      rw [sendDescriptor, if_pos (by simp [ready, first])]
      exact ih rest (by simpa [ready] using enough) inside
    | true =>
      rw [sendDescriptor_ready reading ready first]
      split
      · rename_i short
        rw [window_short bytes offset short]
      · rename_i long
        have count : (len - 16) / 16 + 1 ≤ (later.filter Reading.txini).length := by
          rw [List.filter_cons_of_pos ready, List.length_cons] at enough
          omega
        rw [ih rest count (by omega), window_full bytes inside (by omega), List.append_assoc]
        rfl

/-- Whatever the host does, it gets the first packets. -/
theorem sendDescriptor_some (inside : offset + len ≤ bytes.length)
    (ran : sendDescriptor bytes readings offset len sent = some after) :
    ∃ packets, after = sent ++ packets ∧
      packets <+: controlPackets ((bytes.drop offset).take len) := by
  induction readings generalizing offset len sent with
  | nil => cases ran
  | cons reading later ih =>
    cases ended : reading.rxouti with
    | true =>
      rw [sendDescriptor, if_neg (by simp [ended]), if_pos ended] at ran
      cases ran
      exact ⟨[], by simp, List.nil_prefix⟩
    | false =>
      cases ready : reading.txini with
      | false =>
        rw [sendDescriptor, if_pos (by simp [ready, ended])] at ran
        exact ih inside ran
      | true =>
        rw [sendDescriptor_ready reading ready ended] at ran
        split at ran
        · rename_i short
          cases ran
          exact ⟨_, rfl, (window_short bytes offset short).symm ▸ List.prefix_rfl⟩
        · rename_i long
          obtain ⟨packets, rfl, first⟩ := ih (by omega) ran
          refine ⟨(bytes.drop offset).take 16 :: packets, by simp, ?_⟩
          rw [window_full bytes inside (by omega)]
          exact List.cons_prefix_cons.mpr ⟨rfl, first⟩

end Send

/-- A host that reads on gets the descriptor, cut to what it asked for, in full packets and a
short one at the end; one that does not gets the first of these packets. -/
theorem descriptor_transfer (chip : Chip) (s : Usb) {setup : Setup}
    (asked : setup.bRequest = getDescriptor)
    {d : Descriptor} (found : descriptorFor setup = some d) :
    ∃ full last, (∀ packet ∈ full, packet.length = usbControlSize) ∧ last.length < usbControlSize ∧
      full.flatten ++ last = d.bytes.take (min setup.wLength.toNat 255) ∧
      (∀ readings, (∀ reading ∈ readings, reading.rxouti = false) →
        full.length < (readings.filter Reading.txini).length →
          usbCom chip (some setup) readings s =
            some { s.select 0 with sent := s.sent ++ (full ++ [last]) }) ∧
      ∀ readings after, usbCom chip (some setup) readings s = some after →
        ∃ packets, after = { s.select 0 with sent := s.sent ++ packets } ∧
          packets <+: full ++ [last] := by
  let len := min (min setup.wLength.toNat 255) d.bytes.length
  have runs : ∀ readings, usbCom chip (some setup) readings s =
      (sendDescriptor d.bytes readings 0 len s.sent).map fun sent => { s.select 0 with sent } := by
    intro readings
    have cut :
        (if (if setup.wLength.toNat < 256 then setup.wLength.toNat else 255) > d.bytes.length
          then d.bytes.length
          else if setup.wLength.toNat < 256 then setup.wLength.toNat else 255) = len := by
      dsimp only [len]
      split <;> split <;> omega
    simp only [usbCom, if_pos asked, found, cut]
    rfl
  have inside : 0 + len ≤ d.bytes.length := by omega
  have bytes : (d.bytes.drop 0).take len = d.bytes.take (min setup.wLength.toNat 255) := by
    rw [List.drop_zero, List.take_eq_take_iff]
    omega
  obtain ⟨flat, full, last, split, whole, short⟩ := controlPackets_shape ((d.bytes.drop 0).take len)
  refine ⟨full, last, whole, short, ?_, fun readings open_ enough => ?_,
    fun readings after ran => ?_⟩
  · rw [← bytes, ← flat, split]
    simp
  · have count : len / 16 + 1 ≤ (readings.filter Reading.txini).length := by
      have packets := congrArg List.length split
      have window : ((d.bytes.drop 0).take len).length = len := by
        rw [List.length_take, List.length_drop]
        omega
      rw [controlPackets, List.length_map, List.length_range, window, List.length_append,
        List.length_singleton]
        at packets
      omega
    rw [runs, sendDescriptor_all open_ count inside, split]
    rfl
  · rw [runs, Option.map_eq_some_iff] at ran
    obtain ⟨sent, ran, rfl⟩ := ran
    obtain ⟨packets, rfl, first⟩ := sendDescriptor_some inside ran
    exact ⟨packets, rfl, split ▸ first⟩

/-- Zeros behind the table, and STALLRQ is cleared by STALLRQC only. -/
def zeroChip : Chip := ⟨fun _ => 0, true⟩

/-- The device descriptor, asked for with room to spare. -/
theorem descriptor_transfer_device :
    ∃ full last, (∀ packet ∈ full, packet.length = usbControlSize) ∧ last.length < usbControlSize ∧
      full.flatten ++ last = deviceDescriptor ∧
      (∀ readings, (∀ reading ∈ readings, reading.rxouti = false) →
        full.length < (readings.filter Reading.txini).length →
          usbCom zeroChip (some ⟨0x80, 6, 0x0100, 0, 64⟩) readings start =
            some { start.select 0 with sent := start.sent ++ (full ++ [last]) }) ∧
      ∀ readings after, usbCom zeroChip (some ⟨0x80, 6, 0x0100, 0, 64⟩) readings start =
        some after →
        ∃ packets, after = { start.select 0 with sent := start.sent ++ packets } ∧
          packets <+: full ++ [last] := by
  have found : descriptorFor ⟨0x80, 6, 0x0100, 0, 64⟩ = some ⟨0x0100, 0x0000, deviceDescriptor⟩ :=
    rfl
  exact descriptor_transfer zeroChip start rfl found

/-! The endpoints over a whole run. -/

abbrev Setup.Configures (r : Setup) : Prop := r.bRequest = setConfiguration ∧ r.bmRequestType = 0

/-- The endpoint that the request halts or releases. -/
def Setup.feature (r : Setup) : Option Nat :=
  let i := (r.wIndex &&& 0x7F).toNat
  if ((r.bRequest = clearFeature ∨ r.bRequest = setFeature) ∧ r.bmRequestType = 0x02 ∧
    r.wValue = 0) ∧
      1 ≤ i ∧ i ≤ maxEndpoint then some i
  else none

/-- What an interrupt of the control endpoint can do to the configuration and to the
other endpoints. -/
inductive Outcome (chip : Chip) (s after : Usb) : Option Setup → Prop
  | kept (setup : Option Setup) (other : ∀ r ∈ setup, ¬r.Configures ∧ r.feature = none)
      (configuration : after.configuration = s.configuration)
      (endpoints : ∀ i ≠ 0, after.endpoints i = s.endpoints i) : Outcome chip s after setup
  | configured (r : Setup) (asked : r.Configures) (before : Usb)
      (same : before.endpoints = s.endpoints)
      (done : after = chip.configureEndpoints 4 1 0 before) : Outcome chip s after (some r)
  | feature (r : Setup) (i : Nat) (notConfigures : ¬r.Configures) (asked : r.feature = some i)
      (configuration : after.configuration = s.configuration)
      (endpoints : after.endpoints = Function.update s.endpoints i
        { s.endpoints i with
          ueconx := if r.bRequest = setFeature then stallrq ||| epen else stallrqc ||| rstdt |||
            epen }) :
      Outcome chip s after (some r)

section Outcome
variable {chip : Chip} {s after : Usb}

theorem Usb.stall_endpoints (s : Usb) (i : Nat) (other : i ≠ 0) :
    (s.select 0).stall.endpoints i = s.endpoints i := by
  simp [stall, write, select, other]

theorem Setup.feature_none {r : Setup} (clears : r.bRequest ≠ clearFeature)
    (sets : r.bRequest ≠ setFeature) :
    r.feature = none :=
  if_neg fun accepted => accepted.1.1.elim clears sets

theorem usbCom_outcome {setup : Option Setup} {readings : List Reading}
    (ran : usbCom chip setup readings s = some after) : Outcome chip s after setup := by
  cases setup with
  | none =>
    cases ran
    exact .kept none (fun _ given => nomatch given) rfl s.stall_endpoints
  | some r =>
    have apart : ∀ request : Byte, request ∉ [setConfiguration, clearFeature, setFeature] →
        r.bRequest = request → ∀ q ∈ some r, ¬q.Configures ∧ q.feature = none := by
      rintro _ other rfl q ⟨⟩
      simp only [List.mem_cons, List.not_mem_nil, or_false, not_or] at other
      exact ⟨fun asked => other.1 asked.1, Setup.feature_none other.2.1 other.2.2⟩
    simp only [usbCom] at ran
    split at ran
    · rename_i request
      have others := apart getDescriptor (by decide) request
      split at ran
      · cases ran
        exact .kept _ others rfl s.stall_endpoints
      · obtain ⟨sent, -, rfl⟩ := Option.map_eq_some_iff.mp ran
        exact .kept _ others rfl fun _ _ => rfl
    · split at ran
      · rename_i request
        obtain ⟨_, -, rfl⟩ := Option.map_eq_some_iff.mp ran
        exact .kept _ (apart setAddress (by decide) request) rfl fun _ _ => rfl
      · split at ran
        · rename_i asked
          cases ran
          exact .configured r asked
            (Usb.sendIn { s.select 0 with configuration := r.wValue.setWidth 8 } []) rfl rfl
        · rename_i notConfigures
          split at ran
          · rename_i request
            obtain ⟨_, -, rfl⟩ := Option.map_eq_some_iff.mp ran
            exact .kept _ (apart getConfiguration (by decide) request.1) rfl fun _ _ => rfl
          · split at ran
            · rename_i request
              obtain ⟨_, -, rfl⟩ := Option.map_eq_some_iff.mp ran
              exact .kept _ (apart getStatus (by decide) request) rfl fun _ _ => rfl
            · -- the requests for a feature, and those that the device does not know
              split at ran
              · rename_i asked
                split at ran
                · rename_i within
                  have accepted : r.feature = some (r.wIndex &&& 0x7F).toNat :=
                    if_pos ⟨asked, within⟩
                  split at ran
                  · rename_i sets
                    cases ran
                    exact .feature r _ notConfigures accepted rfl (by rw [if_pos sets]; rfl)
                  · rename_i clears
                    cases ran
                    exact .feature r _ notConfigures accepted rfl (by rw [if_neg clears]; rfl)
                · rename_i outside
                  cases ran
                  refine .kept _ ?_ rfl s.stall_endpoints
                  rintro q ⟨⟩
                  exact ⟨notConfigures, if_neg fun accepted => outside accepted.2⟩
              · rename_i unknown
                cases ran
                refine .kept _ ?_ rfl s.stall_endpoints
                rintro q ⟨⟩
                exact ⟨notConfigures, if_neg fun accepted => unknown accepted.1⟩

section Configure
variable (chip) (turns i cfg : Nat) (s : Usb)

theorem configureEndpoints_below {j : Nat} (below : j < i) :
    (chip.configureEndpoints turns i cfg s).endpoints j = s.endpoints j := by
  induction turns generalizing i cfg s with
  | zero => rfl
  | succ turns ih =>
    have other : j ≠ i := Nat.ne_of_lt below
    rw [Chip.configureEndpoints]
    split <;> rw [ih _ _ _ (by omega)] <;> simp [Usb.write, Usb.select, other]

theorem configureEndpoints_here (en : chip.endpointTable cfg ≠ 0) :
    (chip.configureEndpoints (turns + 1) i cfg s).endpoints i =
      { s.endpoints i with
        ueconx := chip.endpointTable cfg ||| chip.stallLeft (s.endpoints i)
        uecfg0x := chip.endpointTable (cfg + 1)
        uecfg1x := chip.endpointTable (cfg + 2) } := by
  rw [Chip.configureEndpoints, if_pos en, configureEndpoints_below _ _ _ _ _ (Nat.lt_succ_self i)]
  simp [Usb.write, Usb.select]

/-- The loop takes three bytes for an endpoint it enables, and leaves those that follow alone. -/
theorem configureEndpoints_next (en : chip.endpointTable cfg ≠ 0) :
    ∃ s', chip.configureEndpoints (turns + 1) i cfg s =
        chip.configureEndpoints turns (i + 1) (cfg + 3) s' ∧
      ∀ j > i, s'.endpoints j = s.endpoints j := by
  refine ⟨_, by rw [Chip.configureEndpoints, if_pos en], fun j above => ?_⟩
  simp [Usb.write, Usb.select, Nat.ne_of_gt above]

end Configure

end Outcome

/-- The type and the size of the endpoint are those of its entry in the table. -/
structure Endpoint.Typed (i : Nat) (e : Endpoint) : Prop where
  type : e.uecfg0x = endpoint.getD (3 * (i - 1) + 1) 0
  size : e.uecfg1x = endpoint.getD (3 * (i - 1) + 2) 0

theorem configureEndpoints_table (chip : Chip) (s : Usb) {i : Nat} (lower : 1 ≤ i)
    (upper : i ≤ 3) :
    let e := (chip.configureEndpoints 4 1 0 s).endpoints i
    e.ueconx = epen ||| chip.stallLeft (s.endpoints i) ∧ e.Typed i := by
  -- the first byte of each of the three entries
  have en : epen ≠ 0 := by decide
  obtain ⟨second, after1, same1⟩ := configureEndpoints_next chip 3 1 0 s en
  obtain ⟨third, after2, same2⟩ := configureEndpoints_next chip 2 2 3 second en
  obtain rfl | rfl | rfl : i = 1 ∨ i = 2 ∨ i = 3 := by omega
  · rw [configureEndpoints_here chip _ _ 0 _ en]
    exact ⟨rfl, rfl, rfl⟩
  · rw [after1, configureEndpoints_here chip _ _ 3 _ en, same1 2 (by decide)]
    exact ⟨rfl, rfl, rfl⟩
  · rw [after1, after2, configureEndpoints_here chip _ _ 6 _ en, same2 3 (by decide),
      same1 3 (by decide)]
    exact ⟨rfl, rfl, rfl⟩

theorem stallLeft_enables (chip : Chip) (e : Endpoint) :
    (epen ||| chip.stallLeft e).getLsbD 0 = true := by
  rw [BitVec.getLsbD_or]
  rfl

theorem stallLeft_halts (chip : Chip) (e : Endpoint) :
    (epen ||| chip.stallLeft e) &&& stallrq ≠ 0 ↔ chip.sticky ∧ e.ueconx &&& stallrq ≠ 0 := by
  have apart : stallrq &&& epen = 0#8 := by decide
  rw [BitVec.and_comm, BitVec.and_or_distrib_left, apart, BitVec.zero_or, Chip.stallLeft]
  cases chip.sticky with
  | false => simp
  | true =>
    rw [if_pos rfl, BitVec.and_comm e.ueconx, ← BitVec.and_assoc, BitVec.and_self]
    simp

def haltedAfter (chip : Chip) (i : Nat) (halted : Bool) : Action → Bool
  | .endOfReset => false
  | .control none _ => halted
  | .control (some r) _ =>
    if r.Configures then chip.sticky && halted
    else if r.feature = some i then r.bRequest == setFeature
    else halted

/-- An endpoint of the table: enabled in a configured device, and halted if the last request for
it says so. -/
structure Endpoint.Follows (i : Nat) (configuration : Byte) (halted : Bool) (e : Endpoint) :
    Prop where
  enabled : configuration ≠ 0 → e.ueconx.getLsbD 0 = true ∧ e.Typed i
  halts : e.ueconx &&& stallrq ≠ 0 ↔ halted = true

section Follows
variable {chip : Chip} {s after : Usb} {i : Nat} {halted : Bool}

theorem Endpoint.Follows.write {e : Endpoint} {configuration : Byte}
    (follows : e.Follows i configuration halted)
    (value : Byte) (enables : value.getLsbD 0 = true) {halts : Bool}
    (stalls : value &&& stallrq ≠ 0 ↔ halts = true) :
    ({ e with ueconx := value } : Endpoint).Follows i configuration halts where
  enabled configured :=
    have typed := (follows.enabled configured).2
    ⟨enables, typed.type, typed.size⟩
  halts := stalls

theorem Endpoint.follows_reset (i : Nat) : (⟨0, 0, 0, 0⟩ : Endpoint).Follows i 0 false :=
  have disabled : (0 : Byte) &&& stallrq ≠ 0 ↔ false = true := by decide
  ⟨fun configured => absurd rfl configured, disabled⟩

theorem act_follows (lower : 1 ≤ i) (upper : i ≤ 3)
    (follows : (s.endpoints i).Follows i s.configuration halted)
    {action : Action} (acted : act chip s action = some after) :
    (after.endpoints i).Follows i after.configuration (haltedAfter chip i halted action) := by
  have positive : i ≠ 0 := Nat.ne_of_gt lower
  cases action with
  | endOfReset =>
    cases acted
    simp only [endOfReset, Function.update_of_ne positive]
    exact Endpoint.follows_reset i
  | control setup readings =>
    cases usbCom_outcome acted with
    | kept _ other configuration endpoints =>
      have same : haltedAfter chip i halted (.control setup readings) = halted := by
        cases setup with
        | none => rfl
        | some r =>
          have apart := other r rfl
          rw [haltedAfter, if_neg apart.1, if_neg (by simp [apart.2])]
      rw [endpoints i positive, configuration, same]
      exact follows
    | configured r asked before same done =>
      obtain ⟨value, typed⟩ := configureEndpoints_table chip before lower upper
      rw [same] at value
      rw [haltedAfter, if_pos asked, done]
      refine ⟨fun _ => ⟨?_, typed⟩, ?_⟩
      · rw [value]
        exact stallLeft_enables chip _
      · rw [value, stallLeft_halts, follows.halts, Bool.and_eq_true]
    | feature r j notConfigures asked configuration endpoints =>
      rw [haltedAfter, if_neg notConfigures, endpoints, configuration, asked]
      by_cases here : i = j
      · subst here
        rw [Function.update_self, if_pos rfl]
        by_cases sets : r.bRequest = setFeature
        · rw [if_pos sets, sets]
          exact follows.write (stallrq ||| epen) (by decide) (by decide)
        · rw [if_neg sets, beq_eq_false_iff_ne.mpr sets]
          exact follows.write (stallrqc ||| rstdt ||| epen) (by decide) (by decide)
      · rw [Function.update_of_ne here, if_neg fun same => here (Option.some.inj same).symm]
        exact follows

theorem run_follows (lower : 1 ≤ i) (upper : i ≤ 3) {actions : List Action}
    (follows : (s.endpoints i).Follows i s.configuration halted)
    (ran : run chip s actions = some after) :
    (after.endpoints i).Follows i after.configuration
      (actions.foldl (haltedAfter chip i) halted) := by
  induction actions generalizing s halted with
  | nil =>
    cases ran
    exact follows
  | cons action later ih =>
    simp only [run, List.foldlM_cons, Option.bind_eq_bind, Option.bind_eq_some_iff] at ran
    obtain ⟨middle, acted, rest⟩ := ran
    exact ih (act_follows lower upper follows acted) rest

end Follows

/-- Over every run of resets and requests: while the device counts as configured, the endpoints
of the table are enabled, with the type and the size that it gives them. -/
theorem endpoints_enabled (chip : Chip) {actions : List Action} {s : Usb}
    (ran : run chip start actions = some s) (configured : s.configuration ≠ 0) {i : Nat}
    (lower : 1 ≤ i) (upper : i ≤ 3) :
    (s.endpoints i).ueconx.getLsbD 0 = true ∧
      (s.endpoints i).uecfg0x = endpoint.getD (3 * (i - 1) + 1) 0 ∧
      (s.endpoints i).uecfg1x = endpoint.getD (3 * (i - 1) + 2) 0 := by
  obtain ⟨enabled, typed⟩ := (run_follows lower upper (Endpoint.follows_reset _) ran).enabled
    configured
  exact ⟨enabled, typed.type, typed.size⟩

/-- The debug endpoint after a reset and a configuration. -/
theorem endpoints_enabled_third :
    ∃ s, run zeroChip start [.endOfReset, .control (some ⟨0, 9, 1, 0, 0⟩) []] = some s ∧
      (s.endpoints 3).ueconx.getLsbD 0 = true ∧ (s.endpoints 3).uecfg0x = 0xC1 ∧
      (s.endpoints 3).uecfg1x = 0x22 := by
  have ran : run zeroChip start [.endOfReset, .control (some ⟨0, 9, 1, 0, 0⟩) []] = some _ :=
    rfl
  exact ⟨_, ran, endpoints_enabled zeroChip ran (by decide) (by decide) (by decide)⟩

/-- Over every run the status of an endpoint is what the last reset or request that concerned it
has left; a configuration ends a halt just if the controller lets it. -/
theorem halt_status (chip : Chip) {actions : List Action} {s : Usb}
    (ran : run chip start actions = some s) {setup : Setup} (asked : setup.bRequest = getStatus)
    (recipient : setup.bmRequestType = 0x82) (lower : 1 ≤ setup.wIndex.toNat % 8)
    (upper : setup.wIndex.toNat % 8 ≤ 3) {readings : List Reading}
    (ready : readings.any Reading.txini = true) :
    usbCom chip (some setup) readings s =
      some ((s.select 0).sendIn
        [if actions.foldl (haltedAfter chip (setup.wIndex.toNat % 8)) false then 1 else 0, 0]) := by
  have halts := (run_follows lower upper (Endpoint.follows_reset _) ran).halts
  have status : (setup.bmRequestType = 0x82 ∧
      ((s.select 0).endpoints (setup.wIndex.toNat % 8)).ueconx &&& stallrq ≠ 0) ↔
        actions.foldl (haltedAfter chip (setup.wIndex.toNat % 8)) false = true :=
    ⟨fun halted => halts.mp halted.2, fun halted => ⟨recipient, halts.mpr halted⟩⟩
  have notConfigures : ¬(getStatus = setConfiguration ∧ setup.bmRequestType = 0) := fun both =>
    absurd both.1 (by decide)
  have notConfiguration : ¬(getStatus = getConfiguration ∧ setup.bmRequestType = 0x80) :=
    fun both => absurd both.1 (by decide)
  simp only [usbCom, asked, waitInReady, if_pos ready, Option.map_some, status,
    if_neg notConfigures, if_neg notConfiguration]
  rw [if_neg (by decide), if_neg (by decide), if_pos trivial]

/-- The second endpoint after it was halted and the device configured again. -/
theorem halt_status_second :
    ∃ s, run zeroChip start [.endOfReset, .control (some ⟨0, 9, 1, 0, 0⟩) [],
        .control (some ⟨2, 3, 0, 2, 0⟩) [], .control (some ⟨0, 9, 1, 0, 0⟩) []] = some s ∧
      usbCom zeroChip (some ⟨0x82, 0, 0, 2, 2⟩) [⟨true, false⟩] s =
        some ((s.select 0).sendIn [1, 0]) := by
  have ran : run zeroChip start [.endOfReset, .control (some ⟨0, 9, 1, 0, 0⟩) [],
      .control (some ⟨2, 3, 0, 2, 0⟩) [], .control (some ⟨0, 9, 1, 0, 0⟩) []] = some _ := rfl
  have asked : (⟨0x82, 0, 0, 2, 2⟩ : Setup).bRequest = getStatus := rfl
  have ready : [(⟨true, false⟩ : Reading)].any Reading.txini = true := rfl
  refine ⟨_, ran, (halt_status zeroChip ran asked rfl (by decide) (by decide) ready).trans ?_⟩
  rw [if_pos (by decide)]

end Flipper.Atmega.Control
