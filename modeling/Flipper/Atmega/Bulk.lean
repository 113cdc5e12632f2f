import Flipper.Posix.Transport

/-! The bulk endpoints of `platforms/atmegau2/src/bulk.c` and the USB link to the transfers of
`platforms/posix`. A packet of the link stands in the bank of its endpoint, and the processor
takes bytes from the bank whether there are any or not. -/
namespace Flipper.Atmega
open Binary Fmr Posix

def bulkOutSize : Nat := 64

def bulkInSize : Nat := 64

def usbTimeoutMs : Byte := 3

def lfCeiling (x y : BitVec 32) : BitVec 32 := (x + y - 1) / y

/-- One round of waiting for the controller: the RWAL bit, the frame number and whether the
device is still configured. -/
structure Poll where
  rwal : Bool
  udfnuml : Byte
  configured : Bool

/-- One wait: the frame number before it, its rounds, and the bank that is ready after it. -/
structure Wait where
  udfnuml : Byte
  polls : List Poll
  bank : List Byte

/-- Whether the endpoint got ready; without an answer if no round ends the wait. -/
def awaitReady (timeout : Byte) : List Poll → Option Bool
  | [] => none
  | poll :: later =>
    if poll.rwal then some true
    else if poll.udfnuml = timeout then some false
    else if !poll.configured then some false
    else awaitReady timeout later

/-- The `int` of 16 bits that counts the packets. -/
def packetTotal (length : BitVec 32) : Nat :=
  ((lfCeiling length (BitVec.ofNat 32 bulkOutSize)).setWidth 16).toInt.toNat

/-- The loop of both functions over some packets, with the waits that are left after it. -/
def packetLoop (turn : List Byte → σ → σ) : Nat → List Wait → σ → Option (Int × σ × List Wait)
  | 0, waits, s => some (lfSuccess, s, waits)
  | _ + 1, [], _ => none
  | packets + 1, wait :: later, s =>
    match awaitReady (wait.udfnuml + usbTimeoutMs) wait.polls with
    | none => none
    | some false => some (lfError, s, later)
    | some true => packetLoop turn packets later (turn wait.bank s)

/-- The destination of a receive, how far it is filled and what is left to come. -/
structure Receiving where
  dst : Mem
  offset : Nat
  length : Nat

/-- The bytes of one packet; `stale` is what the data register holds once the bank is empty. -/
def unload (stale : Byte) : Nat → List Byte → Receiving → Receiving
  | 0, _, s => s
  | len + 1, bank, s =>
    if s.length = 0 then unload stale len bank s
    else unload stale len bank.tail ⟨s.dst.set s.offset (bank.headD stale), s.offset + 1,
      s.length - 1⟩

def megausbBulkReceive (configured : Bool) (stale : Byte) (waits : List Wait) (destination : Mem)
    (length : BitVec 32) : Option (Int × Mem × List Wait) :=
  if !configured then some (lfError, destination, waits)
  else (packetLoop (unload stale bulkOutSize) (packetTotal length) waits
    ⟨destination, 0, length.toNat⟩).map fun (status, s, later) => (status, s.dst, later)

/-- The packets that are sent, how far the source is read and what is left of it. -/
structure Transmitting where
  packets : List (List Byte)
  offset : Nat
  length : Nat

def fill (source : Mem) : Nat → List Byte → (offset length : Nat) → List Byte × Nat × Nat
  | 0, bank, offset, length => (bank, offset, length)
  | len + 1, bank, offset, length =>
    if length = 0 then fill source len bank offset length
    else fill source len (bank ++ [source offset]) (offset + 1) (length - 1)

def transmitPacket (source : Mem) (s : Transmitting) : Transmitting :=
  let (bank, offset, length) := fill source bulkInSize [] s.offset s.length
  ⟨s.packets ++ [bank], offset, length⟩

def megausbBulkTransmit (configured : Bool) (waits : List Wait) (source : Mem)
    (length : BitVec 32) :
    Option (Int × List (List Byte) × List Wait) :=
  if !configured then some (lfError, [], waits)
  else (packetLoop (fun _ => transmitPacket source) (packetTotal length) waits
    ⟨[], 0, length.toNat⟩).map fun (status, s, later) => (status, s.packets, later)

/-! The link. -/

/-- The packets of a transfer: all but the last are full. -/
def usbPackets (bytes : List Byte) : List (List Byte) :=
  (List.range ((bytes.length + 63) / 64)).map fun i => (bytes.drop (64 * i)).take 64

def sendPackets (src : Mem) (out : List (List Byte)) (offset count : Nat) (_ : Transfer) :
    List (List Byte) :=
  out ++ usbPackets (Mem.slice src offset count)

def libusbWritePackets (outSz : Option Byte) (src : Mem) (length : Nat)
    (transfers : List Transfer) :
    Option (WriteReply × List (List Byte)) :=
  bulk outSz (sendPackets src) transfers [] length

/-- A transfer of `lf_libusb_read` that takes one packet of the link. -/
def packetTransfer (packet : List Byte) : Transfer :=
  ⟨0, packet.length, Mem.overlay (fun _ => 0) packet⟩

def Wait.Timely (wait : Wait) : Prop :=
  awaitReady (wait.udfnuml + usbTimeoutMs) wait.polls = some true

/-! One packet. -/

theorem unload_eq (stale : Byte) (len : Nat) (bank : List Byte) (s : Receiving) :
    unload stale len bank s =
      ⟨s.dst.copy s.offset (min len s.length) fun k => bank.getD k stale,
        s.offset + min len s.length, s.length - min len s.length⟩ := by
  induction len generalizing bank s with
  | zero =>
    have unchanged : s.dst.copy s.offset 0 (fun k => bank.getD k stale) = s.dst :=
      funext fun i => Mem.copy_outside _ _ _ _ (by omega)
    rw [unload, Nat.zero_min, unchanged]
    rfl
  | succ len ih =>
    rw [unload]
    split
    · rename_i none
      rw [ih, none]
      simp
    · rename_i more
      rw [ih, Receiving.mk.injEq]
      dsimp only
      refine ⟨funext fun i => ?_, by omega, by omega⟩
      by_cases inside : s.offset ≤ i ∧ i < s.offset + min (len + 1) s.length
      · rw [Mem.copy_inside _ _ _ _ inside.1 inside.2]
        rcases Nat.eq_or_lt_of_le inside.1 with rfl | later
        · rw [Mem.copy_outside _ _ _ _ (by omega), Nat.sub_self, Mem.set_self]
          cases bank <;> rfl
        · rw [Mem.copy_inside _ _ _ _ (by omega) (by omega),
            show i - s.offset = i - (s.offset + 1) + 1 by omega]
          cases bank <;> simp
      · rw [Mem.copy_outside _ _ _ _ (by omega), Mem.copy_outside _ _ _ _ (by omega),
          Mem.set_other _ _ (by omega)]

theorem fill_eq (source : Mem) (len : Nat) (bank : List Byte) (offset length : Nat) :
    fill source len bank offset length =
      (bank ++ Mem.slice source offset (min len length), offset + min len length,
        length - min len length) := by
  induction len generalizing bank offset length with
  | zero => simp [fill, Mem.slice]
  | succ len ih =>
    rw [fill]
    split
    · rename_i none
      rw [ih, none]
      simp
    · rename_i more
      have split : min (len + 1) length = 1 + min len (length - 1) := by omega
      rw [ih, split, Mem.slice_append]
      refine Prod.ext ?_ (Prod.ext ?_ ?_)
      · simp [Mem.slice]
      all_goals
        dsimp only
        omega

/-! All packets of a call. -/

theorem packetTotal_eq (length : BitVec 32) (short : length.toNat ≤ 64 * 32767) :
    packetTotal length = (length.toNat + 63) / 64 := by
  have ceiling : (lfCeiling length (BitVec.ofNat 32 bulkOutSize)).toNat =
      (length.toNat + 63) / 64 := by
    have sum : length + BitVec.ofNat 32 bulkOutSize - 1 = length + 63 := by
      rw [bulkOutSize]
      bv_omega
    rw [lfCeiling, sum, BitVec.toNat_udiv, BitVec.toNat_add]
    change (length.toNat + 63) % 2 ^ 32 / 64 = _
    omega
  have small : ((lfCeiling length (BitVec.ofNat 32 bulkOutSize)).setWidth 16).toNat =
      (length.toNat + 63) / 64 := by
    rw [BitVec.toNat_setWidth, ceiling]
    omega
  rw [packetTotal, BitVec.toInt_eq_toNat_of_lt (by omega), small]
  rfl

theorem packetLoop_timely (turn : List Byte → σ → σ) (s : σ) {waits : List Wait}
    (enough : count ≤ waits.length) (timely : ∀ wait ∈ waits.take count, wait.Timely) :
    packetLoop turn count waits s =
      some (lfSuccess, (waits.take count).foldl (fun s wait => turn wait.bank s) s,
        waits.drop count) := by
  induction count generalizing waits s with
  | zero => rfl
  | succ count ih =>
    cases waits with
    | nil => simp at enough
    | cons wait later =>
      have first : wait.Timely := timely wait (by simp)
      rw [packetLoop, first]
      simpa using ih (turn wait.bank s) (by simpa using enough) fun other member =>
        timely other (by simp [member])

/-- What the data register reads as, byte after byte of full banks. -/
def register (stale : Byte) (banks : List (List Byte)) : Mem :=
  fun k => (banks.getD (k / 64) []).getD (k % 64) stale

theorem register_cons (stale : Byte) (bank : List Byte) (banks : List (List Byte)) (k : Nat) :
    register stale (bank :: banks) k = if k < 64 then bank.getD k stale else register stale banks
      (k - 64) := by
  split
  · rename_i inside
    rw [register, Nat.div_eq_of_lt inside, Nat.mod_eq_of_lt inside]
    rfl
  · rename_i outside
    rw [register, register, show k / 64 = (k - 64) / 64 + 1 by omega,
      show k % 64 = (k - 64) % 64 by omega]
    rfl

theorem unload_all (stale : Byte) (waits : List Wait) (s : Receiving) :
    (waits.foldl (fun s wait => unload stale bulkOutSize wait.bank s) s).dst =
      s.dst.copy s.offset (min (64 * waits.length) s.length)
        (register stale (waits.map Wait.bank)) := by
  induction waits generalizing s with
  | nil => exact (funext fun i => Mem.copy_outside _ _ _ _ (by simp; omega)).symm
  | cons wait later ih =>
    rw [List.foldl_cons, ih, unload_eq, bulkOutSize, List.length_cons, List.map_cons]
    funext i
    dsimp only
    by_cases inside : s.offset ≤ i ∧ i < s.offset + min (64 * (later.length + 1)) s.length
    · rw [Mem.copy_inside s.dst _ _ _ inside.1 inside.2, register_cons]
      split
      · rw [Mem.copy_outside _ _ _ _ (by omega), Mem.copy_inside _ _ _ _ inside.1 (by omega)]
      · rw [Mem.copy_inside _ _ _ _ (by omega) (by omega),
          show i - (s.offset + min 64 s.length) = i - s.offset - 64 by omega]
    · rw [Mem.copy_outside s.dst _ (min (64 * (later.length + 1)) s.length) _ (by omega),
        Mem.copy_outside _ _ _ _ (by omega), Mem.copy_outside _ _ _ _ (by omega)]

/-- A receive that need not wait too long: it takes the packets that hold the length and reads
the register for each byte. -/
theorem bulkReceive_timely (stale : Byte) (destination : Mem) (short : length.toNat ≤ 64 * 32767)
    {waits : List Wait} (enough : (length.toNat + 63) / 64 ≤ waits.length)
    (timely : ∀ wait ∈ waits.take ((length.toNat + 63) / 64), wait.Timely) :
    megausbBulkReceive true stale waits destination length =
      some (lfSuccess, destination.copy 0 length.toNat (register stale (waits.map Wait.bank)),
        waits.drop ((length.toNat + 63) / 64)) := by
  rw [megausbBulkReceive, packetTotal_eq length short, packetLoop_timely _ _ enough timely]
  simp only [Bool.not_true, Bool.false_eq_true, if_false, Option.map_some, unload_all,
    List.length_take, Nat.min_eq_left enough, List.map_take]
  congr 3
  funext i
  by_cases inside : i < length.toNat
  · rw [Mem.copy_inside _ _ _ _ (Nat.zero_le _) (by omega),
      Mem.copy_inside _ _ _ _ (Nat.zero_le _) (by omega), register, register]
    have taken : (i - 0) / 64 < (length.toNat + 63) / 64 := by omega
    simp only [List.getD_eq_getElem?_getD, List.getElem?_take_of_lt taken]
  · rw [Mem.copy_outside _ _ _ _ (by omega), Mem.copy_outside _ _ _ _ (by omega)]

/-! Packets on the link. -/

@[simp] theorem usbPackets_length (bytes : List Byte) :
    (usbPackets bytes).length = (bytes.length + 63) / 64 := by
  rw [usbPackets, List.length_map, List.length_range]

theorem usbPackets_getElem? (bytes : List Byte) (inside : i < (bytes.length + 63) / 64) :
    (usbPackets bytes)[i]? = some ((bytes.drop (64 * i)).take 64) := by
  rw [usbPackets, List.getElem?_map, List.getElem?_range inside]
  rfl

theorem usbPackets_flatten (bytes : List Byte) : (usbPackets bytes).flatten = bytes := by
  have taken : ∀ count, ((List.range count).map fun i => (bytes.drop (64 * i)).take 64).flatten =
      bytes.take (64 * count) := by
    intro count
    induction count with
    | zero => simp
    | succ count ih =>
      rw [List.range_succ, List.map_append, List.flatten_append, ih, Nat.mul_succ, List.take_add]
      simp
  rw [usbPackets, taken, List.take_of_length_le (by omega)]

/-- The packets on the link are the bytes that `lf_libusb_write` is said to send. -/
theorem libusbWritePackets_bytes (outSz : Option Byte) (src : Mem) (length : Nat)
    (transfers : List Transfer) :
    lfLibusbWrite outSz src length transfers =
      (libusbWritePackets outSz src length transfers).map (Prod.map id List.flatten) := by
  have loop : ∀ (size : Nat) (transfers : List Transfer) (out : List (List Byte))
      (offset length : Nat), bulkLoop size (sendBulk src) transfers out.flatten offset length =
        (bulkLoop size (sendPackets src) transfers out offset length).map
          (Prod.map id List.flatten) := by
    intro size transfers
    induction transfers with
    | nil =>
      intro out offset length
      simp only [bulkLoop]
      split <;> rfl
    | cons transfer later ih =>
      intro out offset length
      have sends : ∀ count, sendBulk src out.flatten offset count transfer =
          (sendPackets src out offset count transfer).flatten := by
        intro count
        rw [sendBulk, sendPackets, List.flatten_append, usbPackets_flatten]
      simp only [bulkLoop, sends, ih]
      split
      · rfl
      · split
        · rfl
        · split <;> rfl
  cases outSz with
  | none => rfl
  | some size =>
    have sent := loop size.toNat transfers [] 0 length
    rw [List.flatten_nil] at sent
    simp only [lfLibusbWrite, libusbWritePackets, bulk, sent, Option.map_map]
    rfl

theorem usbPackets_append (first second : List Byte) (full : 64 ∣ first.length) :
    usbPackets (first ++ second) = usbPackets first ++ usbPackets second := by
  obtain ⟨packets, length⟩ := full
  have count : ((first ++ second).length + 63) / 64 = packets + (second.length + 63) / 64 := by
    rw [List.length_append]
    omega
  have count' : (first.length + 63) / 64 = packets := by omega
  rw [usbPackets, usbPackets, usbPackets, count, count', List.range_add, List.map_append,
    List.map_map]
  congr 1
  · refine List.map_congr_left fun i member => ?_
    rw [List.mem_range] at member
    rw [List.drop_append_of_le_length (by omega),
      List.take_append_of_le_length (by rw [List.length_drop]; omega)]
  · refine List.map_congr_left fun i _ => ?_
    rw [Function.comp_apply, show 64 * (packets + i) = first.length + 64 * i by omega,
      ← List.drop_drop, List.drop_left]

/-- The packets of a transfer fill their banks, so that the register gives the transfer back. -/
theorem register_usbPackets (stale : Byte) (bytes : List Byte) (later : List (List Byte))
    (inside : k < bytes.length) :
    register stale (usbPackets bytes ++ later) k = bytes[k] := by
  have bank : (usbPackets bytes ++ later).getD (k / 64) [] =
      (bytes.drop (64 * (k / 64))).take 64 := by
    rw [List.getD_eq_getElem?_getD, List.getElem?_append_left (by rw [usbPackets_length]; omega),
      usbPackets_getElem? bytes (by omega), Option.getD_some]
  rw [register, bank, List.getD_eq_getElem?_getD, List.getElem?_take_of_lt (by omega),
    List.getElem?_drop, show 64 * (k / 64) + k % 64 = k by omega, List.getElem?_eq_getElem inside,
    Option.getD_some]

section Sent
variable {src : Mem} {size offset length : Nat} {transfers : List Transfer}
  {out sent : List (List Byte)}

/-- What is on the link stays in front of what comes later. -/
theorem sendPackets_extends (run : bulkLoop size (sendPackets src) transfers out offset length =
    some (lfSuccess, sent)) :
    out <+: sent := by
  refine bulkLoop_induction size (sendPackets src) (fun _ out _ _ => out <+: sent) ?_ ?_ run
  · intro _ _
    exact List.prefix_rfl
  · intro transfer later out offset length _ _ extends_
    exact (List.prefix_append _ _).trans extends_

theorem sendPackets_first (more : 0 < length) (whole : Whole size length transfers)
    (run : bulkLoop size (sendPackets src) transfers out offset length = some (lfSuccess, sent)) :
    out ++ usbPackets (Mem.slice src offset (min size length)) <+: sent := by
  cases transfers with
  | nil => simp [bulkLoop, Nat.ne_of_gt more] at run
  | cons transfer later =>
    have full := ((whole_cons _ _ _ more).mp whole).1
    rw [bulkLoop_cons size _ _ _ _ _ more] at run
    dsimp only at run
    split at run
    · cases run
    · rw [Nat.min_eq_right full] at run
      exact sendPackets_extends run

/-- In one transfer, or in transfers of full packets, only the last packet is short. -/
theorem sendPackets_all (sized : length ≤ size ∨ 64 ∣ size) (whole : Whole size length transfers)
    (run : bulkLoop size (sendPackets src) transfers out offset length = some (lfSuccess, sent)) :
    sent = out ++ usbPackets (Mem.slice src offset length) := by
  refine bulkLoop_induction size (sendPackets src) (fun transfers out offset length =>
    length ≤ size ∨ 64 ∣ size → Whole size length transfers →
      sent = out ++ usbPackets (Mem.slice src offset length)) ?_ ?_ run sized whole
  · intro _ _ _ _
    simp [Mem.slice, usbPackets]
  · intro transfer later out offset length more _ ih sized whole
    obtain ⟨full, rest⟩ := (whole_cons _ _ _ more).mp whole
    have left : length - size ≤ size ∨ 64 ∣ size := sized.imp_left fun _ => by omega
    have later := ih left rest
    rw [Nat.min_eq_right full, sendPackets, List.append_assoc] at later
    have aligned : length ≤ size ∨ 64 ∣ min size length := by
      rcases Nat.le_total length size with one | several
      · exact .inl one
      · exact sized.imp_right fun full => by rwa [Nat.min_eq_left several]
    rcases aligned with one | full
    · have none : length - size = 0 := by omega
      have all : min size length = length := by omega
      simpa [none, all, Mem.slice, usbPackets] using later
    · rw [← usbPackets_append _ _ (by rwa [Mem.slice_length]), ← Mem.slice_append] at later
      rwa [show min size length + (length - size) = length by omega] at later

theorem sendPackets_enough (whole : Whole size length transfers)
    (run : bulkLoop size (sendPackets src) transfers out offset length = some (lfSuccess, sent)) :
    out.length + (length + 63) / 64 ≤ sent.length := by
  refine bulkLoop_induction size (sendPackets src) (fun transfers out _ length =>
    Whole size length transfers → out.length + (length + 63) / 64 ≤ sent.length) ?_ ?_ run whole
  · intro _ _ _
    simp
  · intro transfer later out offset length more _ ih whole
    obtain ⟨full, rest⟩ := (whole_cons _ _ _ more).mp whole
    have later := ih rest
    rw [Nat.min_eq_right full, sendPackets, List.length_append, usbPackets_length,
      Mem.slice_length] at later
    omega

end Sent

/-- A transfer that ends in a short packet leaves a byte of its bank to the register. -/
theorem register_short (stale : Byte) {bytes : List Byte} (packets : List (List Byte))
    (first : usbPackets bytes <+: packets) (short : ¬64 ∣ bytes.length) :
    register stale packets bytes.length = stale := by
  obtain ⟨later, rfl⟩ := first
  have bank : (usbPackets bytes ++ later).getD (bytes.length / 64) [] =
      (bytes.drop (64 * (bytes.length / 64))).take 64 := by
    rw [List.getD_eq_getElem?_getD, List.getElem?_append_left (by rw [usbPackets_length]; omega),
      usbPackets_getElem? bytes (by omega), Option.getD_some]
  rw [register, bank, List.getD_eq_getElem?_getD, List.getElem?_eq_none, Option.getD_none]
  rw [List.length_take, List.length_drop]
  omega

/-- A message of the host that was sent whole and is picked up in time arrives just when it is
one transfer or the transfers are whole packets: else a short packet is read as a full one. -/
theorem message_received_iff {size : Byte} (src : Mem) (length : BitVec 32)
    (short : length.toNat ≤ 64 * 32767)
    {transfers : List Transfer} (whole : Whole size.toNat length.toNat transfers)
    {reply : WriteReply}
    {sent : List (List Byte)} (written : libusbWritePackets (some size) src length.toNat transfers =
      some (reply, sent))
    (success : reply.status = lfSuccess) {waits : List Wait} {later : List (List Byte)}
    (banks : waits.map Wait.bank = sent ++ later) (timely : ∀ wait ∈ waits, wait.Timely) :
    (∀ stale destination, ∃ after,
        megausbBulkReceive true stale waits destination length =
          some (lfSuccess, after, waits.drop ((length.toNat + 63) / 64)) ∧
        Mem.slice after 0 length.toNat = Mem.slice src 0 length.toNat) ↔
      length.toNat ≤ size.toNat ∨ 64 ∣ size.toNat := by
  obtain ⟨_, sized, _, run⟩ :=
    (bulk_success (some size) (sendPackets src) transfers [] length.toNat (reply, sent)).mp
      ⟨written, success⟩
  cases sized
  dsimp only at run
  have enough : (length.toNat + 63) / 64 ≤ waits.length := by
    have packets := congrArg List.length banks
    rw [List.length_map, List.length_append] at packets
    have sends := sendPackets_enough whole run
    rw [List.length_nil] at sends
    omega
  have receives := fun stale destination => bulkReceive_timely stale destination short enough
    fun wait member => timely wait (List.mem_of_mem_take member)
  constructor
  · intro arrives
    by_contra cut
    rw [not_or] at cut
    have long : size.toNat < length.toNat := Nat.lt_of_not_le cut.1
    -- The byte behind the first transfer is read from an empty bank.
    obtain ⟨after, received, same⟩ := arrives (src size.toNat + 1) fun _ => 0
    rw [receives, Option.some.injEq, Prod.mk.injEq, Prod.mk.injEq] at received
    obtain ⟨-, rfl, -⟩ := received
    have byte := Mem.slice_inj same long
    have first := sendPackets_first (by omega) whole run
    rw [Nat.min_eq_left long.le, List.nil_append] at first
    have left := register_short (src size.toNat + 1) (waits.map Wait.bank)
      (banks ▸ first.trans (List.prefix_append _ _)) (by rw [Mem.slice_length]; exact cut.2)
    rw [Mem.slice_length] at left
    rw [Nat.zero_add, Mem.copy_inside _ _ _ _ (Nat.zero_le _) (by omega), Nat.sub_zero,
      left] at byte
    exact absurd byte (by simp)
  · intro sized stale destination
    refine ⟨_, receives stale destination, ?_⟩
    have packets := sendPackets_all sized whole run
    rw [List.nil_append] at packets
    refine Mem.slice_congr fun i _ inside => ?_
    have byte := register_usbPackets stale (Mem.slice src 0 length.toNat) later
      (by rw [Mem.slice_length]; omega : i < _)
    rw [Mem.copy_inside _ _ _ _ (Nat.zero_le _) inside, Nat.sub_zero, banks, packets, byte]
    simp [Mem.slice]

theorem message_received_iff_five :
    (∀ stale destination, ∃ after,
        megausbBulkReceive true stale [⟨0, [⟨true, 0, true⟩], [1, 2, 3, 4, 5]⟩] destination 5 =
          some (lfSuccess, after, []) ∧
        Mem.slice after 0 5 = Mem.slice (Mem.overlay (fun _ => 0) [1, 2, 3, 4, 5]) 0 5) ↔ 5 ≤ 64 ∨
          64 ∣ 64 := by
  have whole : Whole (64 : Byte).toNat (5 : BitVec 32).toNat [⟨0, 5, fun _ => 0⟩] := by
    intro i transfer asked found
    obtain rfl : i = 0 := by
      change i * 64 < 5 at asked
      omega
    cases found
    decide
  have written : libusbWritePackets (some 64) (Mem.overlay (fun _ => 0) [1, 2, 3, 4, 5])
      (5 : BitVec 32).toNat
      [⟨0, 5, fun _ => 0⟩] = some (⟨lfSuccess, none⟩, [[1, 2, 3, 4, 5]]) := by
    simp [libusbWritePackets, bulk, bulkLoop, sendPackets, usbPackets, Mem.slice, Mem.overlay,
      List.range_succ]
  have banks : [(⟨0, [⟨true, 0, true⟩], [1, 2, 3, 4, 5]⟩ : Wait)].map Wait.bank =
      [[1, 2, 3, 4, 5]] ++ [] := rfl
  exact message_received_iff _ 5 (by decide) whole written rfl banks
    (by simp [Wait.Timely, awaitReady])

/-! From the device to the host. -/

theorem usbPackets_cons (source : Mem) (offset : Nat) (more : 0 < length) :
    usbPackets (Mem.slice source offset length) =
      Mem.slice source offset (min 64 length) ::
        usbPackets (Mem.slice source (offset + min 64 length) (length - min 64 length)) := by
  have packet : ∀ count, 0 < count → count ≤ 64 →
      usbPackets (Mem.slice source offset count) = [Mem.slice source offset count] := by
    intro count positive few
    have one : (count + 63) / 64 = 1 := by omega
    simp [usbPackets, one, List.take_of_length_le, few]
  have split : length = min 64 length + (length - min 64 length) := by omega
  rcases Nat.lt_or_ge length 64 with less | full
  · have all : min 64 length = length := by omega
    rw [all, packet length more less.le, Nat.sub_self]
    simp [Mem.slice, usbPackets]
  · conv_lhs => rw [split, Mem.slice_append]
    have aligned : min 64 length = 64 := by omega
    rw [usbPackets_append _ _ (by rw [Mem.slice_length, aligned]), packet _ (by omega) (by omega)]
    rfl

theorem packetTotal_le (length : BitVec 32) : packetTotal length ≤ 32767 := by
  have bound := BitVec.toInt_lt (x := (lfCeiling length (BitVec.ofNat 32 bulkOutSize)).setWidth 16)
  rw [packetTotal]
  omega

section Transmit
variable (source : Mem)

theorem transmitPacket_eq (s : Transmitting) :
    transmitPacket source s =
      ⟨s.packets ++ [Mem.slice source s.offset (min 64 s.length)], s.offset + min 64 s.length,
        s.length - min 64 s.length⟩ := by
  rw [transmitPacket, fill_eq, List.nil_append]
  rfl

theorem transmit_count (waits : List Wait) (s : Transmitting) :
    (waits.foldl (fun s _ => transmitPacket source s) s).packets.length = s.packets.length +
    waits.length := by
  induction waits generalizing s with
  | nil => rfl
  | cons wait later ih =>
    rw [List.foldl_cons, ih, transmitPacket_eq, List.length_append, List.length_cons]
    simp
    omega

theorem transmit_all (waits : List Wait) (s : Transmitting)
    (count : waits.length = (s.length + 63) / 64) :
    (waits.foldl (fun s _ => transmitPacket source s) s).packets =
      s.packets ++ usbPackets (Mem.slice source s.offset s.length) := by
  induction waits generalizing s with
  | nil =>
    have none : s.length = 0 := by
      rw [List.length_nil] at count
      omega
    simp [none, Mem.slice, usbPackets]
  | cons wait later ih =>
    rw [List.length_cons] at count
    rw [List.foldl_cons, ih, transmitPacket_eq, usbPackets_cons source s.offset (by omega)]
    · simp
    · rw [transmitPacket_eq]
      dsimp only
      omega

/-- The transfers of the host take the packets one by one. -/
theorem read_packets (buffer : Inbound) (offset length : Nat) :
    ∃ received, bulkLoop 64 receiveBulk
      ((usbPackets (Mem.slice source offset length)).map packetTransfer) buffer
      offset length = some (lfSuccess,
        ⟨buffer.dst.copy offset length fun k => source (offset + k), received⟩) := by
  induction length using Nat.strongRecOn generalizing buffer offset with
  | ind length ih =>
    rcases Nat.eq_zero_or_pos length with rfl | more
    · have unchanged : buffer.dst.copy offset 0 (fun k => source (offset + k)) = buffer.dst :=
        funext fun i => Mem.copy_outside _ _ _ _ (by omega)
      exact ⟨buffer.received, by rw [unchanged]; simp [bulkLoop, Mem.slice, usbPackets]⟩
    · let packet := packetTransfer (Mem.slice source offset (min 64 length))
      obtain ⟨received, rest⟩ := ih (length - min 64 length) (by omega)
        (receiveBulk buffer offset (min 64 length) packet) (offset + min 64 length)
      refine ⟨received, ?_⟩
      have taken : min packet.actual (min 64 length) = min 64 length :=
        Nat.min_eq_right (Mem.slice_length ..).ge
      have zero : ¬packet.status ≠ 0 := not_not.mpr rfl
      have left : length - 64 = length - min 64 length := by omega
      have moved : (receiveBulk buffer offset (min 64 length) packet).dst =
        buffer.dst.copy offset (min 64 length) packet.bytes := rfl
      have bytes : ∀ k < min 64 length, packet.bytes k = source (offset + k) := by
        intro k inside
        have long : k < (Mem.slice source offset (min 64 length)).length :=
          by rwa [Mem.slice_length]
        change Mem.overlay (fun _ => 0) (Mem.slice source offset (min 64 length)) k = _
        rw [Mem.overlay_inside _ long]
        simp [Mem.slice]
      rw [usbPackets_cons source offset more, List.map_cons, bulkLoop_cons _ _ _ _ _ _ more]
      change (if packet.status ≠ 0 then _ else bulkLoop _ _ _ (receiveBulk buffer offset
        (min packet.actual (min 64 length)) packet) _ _) = _
      rw [taken, left, if_neg zero, rest]
      congr 3
      funext i
      by_cases inside : offset ≤ i ∧ i < offset + length
      · rw [Mem.copy_inside buffer.dst _ _ _ inside.1 inside.2]
        by_cases first : i < offset + min 64 length
        · rw [Mem.copy_outside _ _ _ _ (by omega), moved, Mem.copy_inside _ _ _ _ inside.1 first,
            bytes _ (by omega)]
        · rw [Mem.copy_inside _ _ _ _ (by omega) (by omega),
            show offset + min 64 length + (i - (offset + min 64 length)) =
              offset + (i - offset) by omega]
      · rw [Mem.copy_outside buffer.dst _ _ _ (by omega),
          Mem.copy_outside _ _ _ _ (by omega), moved, Mem.copy_outside _ _ _ _ (by omega)]

end Transmit

/-- A reply that the device sends arrives just when the packets can be counted in its `int`; it
is reported as sent in any case. -/
theorem reply_received_iff (source dst : Mem) (length : BitVec 32) {waits : List Wait}
    (enough : packetTotal length ≤ waits.length) (timely : ∀ wait ∈ waits, wait.Timely) :
    ∃ packets, megausbBulkTransmit true waits source length =
        some (lfSuccess, packets, waits.drop (packetTotal length)) ∧
      ((∃ returned, lfLibusbRead (some 64) dst length.toNat (packets.map packetTransfer) =
        some returned ∧
          returned.1.status = lfSuccess ∧
          Mem.slice returned.2.dst 0 length.toNat = Mem.slice source 0 length.toNat) ↔
        length.toNat ≤ 64 * 32767) := by
  have sends := packetLoop_timely (fun _ => transmitPacket source) ⟨[], 0, length.toNat⟩ enough
    fun wait member => timely wait (List.mem_of_mem_take member)
  refine ⟨_, by rw [megausbBulkTransmit, sends]; rfl, ?_, ?_⟩
  · rintro ⟨returned, read, success, -⟩
    obtain ⟨_, sized, _, run⟩ :=
      (bulk_success (some 64) receiveBulk _ ⟨dst, []⟩ length.toNat returned).mp
      ⟨read, success⟩
    cases sized
    -- The transfer behind the last packet is one that never comes.
    have few := packetTotal_le length
    by_contra long
    obtain ⟨transfer, found, _⟩ :=
      (bulkLoop_success 64 receiveBulk _ ⟨dst, []⟩ 0 length.toNat).mp ⟨_, run⟩
      (packetTotal length) (by omega)
    rw [List.getElem?_eq_none] at found
    · cases found
    · rw [List.length_map, transmit_count, List.length_take, Nat.min_eq_left enough]
      exact (Nat.zero_add _).le
  · intro short
    have total := packetTotal_eq length short
    have count : (waits.take (packetTotal length)).length = (length.toNat + 63) / 64 := by
      rw [List.length_take, Nat.min_eq_left enough, total]
    rw [transmit_all source _ ⟨[], 0, length.toNat⟩ count, List.nil_append]
    obtain ⟨received, read⟩ := read_packets source ⟨dst, []⟩ 0 length.toNat
    obtain ⟨returns, success⟩ := (bulk_success (some 64) receiveBulk _ ⟨dst, []⟩ length.toNat
      (⟨lfSuccess, none⟩, _)).mpr ⟨64, rfl, rfl, read⟩
    refine ⟨_, returns, success, Mem.slice_congr fun i _ inside => ?_⟩
    dsimp only
    rw [Mem.copy_inside _ _ _ _ (Nat.zero_le _) inside, Nat.zero_add, Nat.sub_zero]

theorem reply_received_iff_two :
    ∃ packets, megausbBulkTransmit true [⟨0, [⟨false, 1, true⟩, ⟨true, 1, true⟩], []⟩]
      (fun k => BitVec.ofNat 8 k) 2 =
        some (lfSuccess, packets, []) ∧
      ((∃ returned, lfLibusbRead (some 64) (fun _ => 0) 2 (packets.map packetTransfer) =
        some returned ∧
          returned.1.status = lfSuccess ∧ Mem.slice returned.2.dst 0 2 = [0, 1]) ↔
            2 ≤ 64 * 32767) :=
  reply_received_iff (fun k => BitVec.ofNat 8 k) (fun _ => 0) 2 (by decide)
    (by simp [Wait.Timely, awaitReady, usbTimeoutMs])

end Flipper.Atmega
