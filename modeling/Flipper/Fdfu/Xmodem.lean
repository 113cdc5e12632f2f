import Flipper.Fdfu.Verify
import Flipper.Fmr.CrcRemainder

/-! The transfer loop of `sam_ba_copy` in `utils/fdfu`: the XMODEM packets it hands to
`sam_write` and the bytes of the source it reads for them. -/
namespace Flipper.Fdfu
open Binary Fmr

def soh : Byte := 0x01

def ack : Byte := 0x06

def can : Byte := 0x18

def xlen : Nat := 128

/-- `little`: the bytes of a short exchanged. -/
def little (x : BitVec 16) : BitVec 16 := x <<< 8 ||| x >>> 8

/-- `struct _xpacket`; the second number is `_number`. -/
structure XPacket where
  header : Byte
  number : Byte
  complement : Byte
  data : List Byte
  crc : BitVec 16
  deriving DecidableEq

/-- The packed struct on a little-endian host. -/
def XPacket.bytes (packet : XPacket) : List Byte :=
  [packet.header, packet.number, packet.complement] ++ packet.data ++
    [byteOf packet.crc 0, byteOf packet.crc 1]

/-- The packet of turn `i`, with `len` bytes of the source. -/
def xPacket (signed : Bool) (src : Mem) (i len : Nat) : XPacket :=
  let data : Mem := Mem.copy (fun _ => 0) 0 len fun k => src (i * xlen + k)
  ⟨soh, BitVec.ofNat 8 (i + 1), ~~~BitVec.ofNat 8 (i + 1), Mem.slice data 0 xlen,
    little (calcrc signed data xlen)⟩

/-- The packets, the blocks of the source copied into them as offsets and lengths, and the
error if an assertion fails. -/
structure Transmission where
  packets : List XPacket
  reads : List (Nat × Nat)
  err : Option LfErr
  deriving DecidableEq

/-- The loop from turn `i` on; `answers` is what `getbyte` returns after each packet. -/
def copyLoop (signed : Bool) (src : Mem) (answers : Nat → Byte) (i length : Nat) : Transmission :=
  if length = 0 then ⟨[], [], none⟩
  else
    let len := if xlen < length then xlen else length
    let packet := xPacket signed src i len
    let c := answers i
    if c = can then ⟨[packet], [(i * xlen, len)], some .eTimeout⟩
    else if c ≠ ack then ⟨[packet], [(i * xlen, len)], some .eUnimplemented⟩
    else
      let later := copyLoop signed src answers (i + 1) (length - len)
      ⟨packet :: later.packets, (i * xlen, len) :: later.reads, later.err⟩
termination_by length
decreasing_by
  unfold xlen
  split <;> omega

/-- What a receiver makes of the packet with this number: its checksum, high byte first,
is that of its data. -/
def Framed (signed : Bool) (k : Nat) (packet : XPacket) : Prop :=
  let c := calcrc signed (Mem.overlay (fun _ => 0) packet.data) xlen
  packet.data.length = xlen ∧
    packet.bytes = [soh, BitVec.ofNat 8 (k % 256), BitVec.ofNat 8 (255 - k % 256)] ++ packet.data ++
      [byteOf c 1, byteOf c 0] ∧
    calcrc signed (Mem.overlay (fun _ => 0) (packet.data ++ [byteOf c 1, byteOf c 0]))
      (xlen + 2) = 0

/-! One packet. -/

theorem byteOf_little_low (x : BitVec 16) : byteOf (little x) 0 = byteOf x 1 := by
  apply BitVec.eq_of_getLsbD_eq
  intro j less
  simp [byteOf, little, less]

theorem byteOf_little_high (x : BitVec 16) : byteOf (little x) 1 = byteOf x 0 := by
  apply BitVec.eq_of_getLsbD_eq
  intro j less
  have above : x.getLsbD (8 + (8 + j)) = false := BitVec.getLsbD_of_ge x _ (by omega)
  simp [byteOf, little, less, above, show 8 + j < 16 by omega,
    BitVec.getLsbD_eq_getElem (by omega : j < 16)]

theorem number_mod (k : Nat) : BitVec.ofNat 8 k = BitVec.ofNat 8 (k % 256) := by
  apply BitVec.eq_of_toNat_eq
  simp

theorem number_complement (k : Nat) : ~~~BitVec.ofNat 8 k = BitVec.ofNat 8 (255 - k % 256) := by
  apply BitVec.eq_of_toNat_eq
  rw [BitVec.toNat_not, BitVec.toNat_ofNat, BitVec.toNat_ofNat]
  omega

section Packet
variable (signed : Bool) (src : Mem) (i len : Nat)

theorem xPacket_framed : Framed signed (i + 1) (xPacket signed src i len) := by
  let data : Mem := Mem.copy (fun _ => 0) 0 len fun k => src (i * xlen + k)
  have length : (Mem.slice data 0 xlen).length = xlen := Mem.slice_length _ _ _
  have crc : calcrc signed (Mem.overlay (fun _ => 0) (Mem.slice data 0 xlen)) xlen =
      calcrc signed data xlen :=
    calcrc_congr fun k inside => Mem.overlay_slice _ data inside
  have checked := calcrc_checked signed (Mem.slice data 0 xlen) fun _ => 0
  dsimp only at checked
  rw [length, crc] at checked
  refine ⟨length, ?_, ?_⟩
  · change [_, BitVec.ofNat 8 (i + 1), ~~~BitVec.ofNat 8 (i + 1)] ++ _ ++
      [byteOf (little (calcrc signed data xlen)) 0, byteOf (little (calcrc signed data xlen)) 1] = _
    rw [byteOf_little_low, byteOf_little_high, number_complement, number_mod (i + 1), ← crc]
    rfl
  · change calcrc signed (Mem.overlay _ (Mem.slice data 0 xlen ++
      [byteOf (calcrc signed (Mem.overlay _ (Mem.slice data 0 xlen)) xlen) 1,
        byteOf (calcrc signed (Mem.overlay _ (Mem.slice data 0 xlen)) xlen) 0])) _ = 0
    rw [crc]
    exact checked

/-- The bytes of the source, and zeros up to the size of a packet. -/
theorem xPacket_data (short : len ≤ xlen) :
    (xPacket signed src i len).data = Mem.slice src (i * xlen) len ++ List.replicate
    (xlen - len) 0 := by
  let data : Mem := Mem.copy (fun _ => 0) 0 len fun k => src (i * xlen + k)
  have split : Mem.slice data 0 xlen = Mem.slice data 0 len ++ Mem.slice data (0 + len)
      (xlen - len) := by
    rw [← Mem.slice_append, Nat.add_sub_cancel' short]
  have copied : Mem.slice data 0 len = Mem.slice src (i * xlen) len := by
    apply List.map_congr_left
    intro k inside
    rw [List.mem_range] at inside
    exact (Mem.copy_inside _ _ _ _ (Nat.zero_le _) (by omega)).trans
      (by rw [Nat.zero_add, Nat.sub_zero])
  have filled : Mem.slice data (0 + len) (xlen - len) = List.replicate (xlen - len) 0 := by
    rw [List.eq_replicate_iff]
    refine ⟨Mem.slice_length _ _ _, ?_⟩
    intro byte member
    obtain ⟨k, _, rfl⟩ := List.mem_map.mp member
    exact Mem.copy_outside _ _ _ _ (by omega)
  rw [← copied, ← filled, ← split]
  rfl

theorem xPacket_congr {src src' : Mem} (same : ∀ k, i * xlen ≤ k → k < i * xlen + len →
    src k = src' k) :
    xPacket signed src i len = xPacket signed src' i len := by
  have data : Mem.copy (fun _ => 0) 0 len (fun k => src (i * xlen + k)) =
      Mem.copy (fun _ => 0) 0 len fun k => src' (i * xlen + k) := by
    funext k
    unfold Mem.copy
    split
    · exact same _ (by omega) (by omega)
    · rfl
  rw [xPacket, xPacket, data]

end Packet

/-! What one turn of the loop takes from the length. -/

theorem len_eq_min (length : Nat) : (if xlen < length then xlen else length) = min xlen length := by
  split <;> omega

theorem lfCeiling_after_packet (some_left : length ≠ 0) :
    lfCeiling length xlen = lfCeiling (length - min xlen length) xlen + 1 := by
  unfold lfCeiling xlen
  omega

theorem left_after_packet (length k : Nat) :
    length - min xlen length - k * xlen = length - (k + 1) * xlen := by
  unfold xlen
  omega

section Loop
variable (signed : Bool) (src : Mem) (answers : Nat → Byte)

/-- Whatever is answered, no byte of the source past its end matters. -/
theorem copyLoop_congr {src src' : Mem} (i length : Nat)
    (same : ∀ k, i * xlen ≤ k → k < i * xlen + length → src k = src' k) :
    copyLoop signed src answers i length = copyLoop signed src' answers i length := by
  induction length using Nat.strongRecOn generalizing i with
  | ind length ih =>
    rw [copyLoop, copyLoop.eq_def signed src']
    by_cases done : length = 0
    · rw [if_pos done, if_pos done]
    · rw [if_neg done, if_neg done]
      dsimp only
      have packet : xPacket signed src i (min xlen length) = xPacket signed src' i
          (min xlen length) :=
        xPacket_congr signed i _ fun k lower upper => same k lower (by omega)
      have later := ih (length - min xlen length) (by unfold xlen; omega)
        (i + 1) fun k lower upper =>
        same k (by unfold xlen at *; omega) (by unfold xlen at *; omega)
      rw [len_eq_min, packet, later]

/-! The loop, where every packet is acknowledged. -/

/-- The loop has a closed form: full packets, and one with the rest. -/
theorem copyLoop_eq (i length : Nat)
    (acknowledged : ∀ k < lfCeiling length xlen, answers (i + k) = ack) :
    copyLoop signed src answers i length =
      ⟨(List.range (lfCeiling length xlen)).map fun k =>
          xPacket signed src (i + k) (min xlen (length - k * xlen)),
        (List.range (lfCeiling length xlen)).map fun k =>
          ((i + k) * xlen, min xlen (length - k * xlen)), none⟩ := by
  induction length using Nat.strongRecOn generalizing i with
  | ind length ih =>
    rw [copyLoop]
    by_cases done : length = 0
    · subst done
      rfl
    · have count := lfCeiling_after_packet done
      have first : answers i = ack := acknowledged 0 (by omega)
      have later := ih (length - min xlen length) (by unfold xlen; omega) (i + 1) fun k inside => by
        rw [Nat.add_right_comm]
        exact acknowledged (k + 1) (by omega)
      rw [if_neg done]
      dsimp only
      rw [len_eq_min, first, if_neg (by decide), if_neg (by decide), later, count,
        List.range_succ_eq_map]
      simp only [List.map_cons, List.map_map, Nat.add_zero, Nat.zero_mul, Nat.sub_zero,
        left_after_packet, Function.comp_def, Nat.succ_eq_add_one, Nat.add_assoc, Nat.add_comm 1]

/-- The data of consecutive packets, the last one filled up. -/
theorem packets_data (i length : Nat) :
    (List.range (lfCeiling length xlen)).flatMap (fun k =>
        (xPacket signed src (i + k) (min xlen (length - k * xlen))).data) =
      Mem.slice src (i * xlen) length ++ List.replicate
        (lfCeiling length xlen * xlen - length) 0 := by
  induction length using Nat.strongRecOn generalizing i with
  | ind length ih =>
    by_cases done : length = 0
    · subst done
      rfl
    · have later := ih (length - min xlen length) (by unfold xlen; omega) (i + 1)
      simp only [left_after_packet, Nat.add_assoc, Nat.add_comm 1] at later
      rw [lfCeiling_after_packet done, List.range_succ_eq_map, List.flatMap_cons, List.flatMap_map]
      simp only [Nat.succ_eq_add_one, Nat.add_zero, Nat.zero_mul, Nat.sub_zero]
      rw [later, xPacket_data _ _ _ _ (Nat.min_le_left _ _)]
      by_cases full : xlen ≤ length
      · rw [Nat.min_eq_left full]
        have filled : lfCeiling (length - xlen) xlen * xlen - (length - xlen) =
            (lfCeiling (length - xlen) xlen + 1) * xlen - length := by
          unfold xlen at full ⊢
          omega
        rw [Nat.sub_self, List.replicate_zero, List.append_nil, ← List.append_assoc,
          Nat.add_one_mul i, ← Mem.slice_append, Nat.add_sub_cancel' full, filled]
      · rw [Nat.min_eq_right (by omega), Nat.sub_self]
        simp [Mem.slice, lfCeiling, xlen]

end Loop

/-- Every packet acknowledged, the loop sends the source in whole packets, each framed for
a receiver, and reads nothing else. The offsets into the source are ints, so its length has
31 bits. -/
theorem xmodem_framing (signed : Bool) (src : Mem) (n : Nat) (short : n < 2 ^ 31)
    (answers : Nat → Byte) (acknowledged : ∀ k < lfCeiling n xlen, answers k = ack) :
    let sent := copyLoop signed src answers 0 n
    sent.err = none ∧ sent.packets.length = lfCeiling n xlen ∧
      (∀ packet ∈ sent.packets, packet.bytes.length = 133) ∧
      (∀ k packet, sent.packets[k]? = some packet → Framed signed (k + 1) packet) ∧
      sent.packets.flatMap XPacket.data =
        Mem.slice src 0 n ++ List.replicate (lfCeiling n xlen * xlen - n) 0 ∧
      (∀ offset len, (offset, len) ∈ sent.reads → offset + len ≤ n ∧ offset + len < 2 ^ 31) ∧
      ∀ src' : Mem, (∀ k < n, src k = src' k) → copyLoop signed src' answers 0 n = sent := by
  intro sent
  have closed : sent = _ := copyLoop_eq signed src answers 0 n fun k inside => by
    rw [Nat.zero_add]
    exact acknowledged k inside
  have framed : ∀ k packet, sent.packets[k]? = some packet → Framed signed (k + 1) packet := by
    intro k packet found
    rw [closed] at found
    simp only [List.getElem?_map, Option.map_eq_some_iff, Nat.zero_add] at found
    obtain ⟨j, at_k, rfl⟩ := found
    obtain ⟨_, rfl⟩ := List.getElem?_eq_some_iff.mp at_k
    rw [List.getElem_range]
    exact xPacket_framed _ _ _ _
  have inside : ∀ offset len, (offset, len) ∈ sent.reads → offset + len ≤ n := by
    intro offset len member
    rw [closed] at member
    simp only [List.mem_map, List.mem_range, Prod.mk.injEq, Nat.zero_add] at member
    obtain ⟨k, less, rfl, rfl⟩ := member
    unfold lfCeiling xlen at *
    omega
  refine ⟨?_, ?_, ?_, framed, ?_, ?_, ?_⟩
  · rw [closed]
  · rw [closed, List.length_map, List.length_range]
  · intro packet member
    obtain ⟨k, found⟩ := List.mem_iff_getElem?.mp member
    obtain ⟨length, bytes, _⟩ := framed k packet found
    simp [bytes, length, xlen]
  · rw [closed, List.flatMap_map]
    simpa only [Nat.zero_mul] using packets_data signed src 0 n
  · intro offset len member
    have fits := inside offset len member
    exact ⟨fits, Nat.lt_of_le_of_lt fits short⟩
  · intro src' same
    exact (copyLoop_congr signed answers 0 n fun k _ less => same k (by omega)).symm

/-- Two packets, the second with one byte of the source. -/
theorem xmodem_framing_two :
    let sent := copyLoop true (fun _ => 1) (fun _ => ack) 0 129
    sent.packets.length = 2 ∧
      sent.packets.flatMap XPacket.data = Mem.slice (fun _ => 1) 0 129 ++ List.replicate 127 0 :=
  have framing := xmodem_framing true (fun _ => 1) 129 (by decide) (fun _ => ack) fun _ _ => rfl
  ⟨framing.2.1, framing.2.2.2.2.1⟩

end Flipper.Fdfu
