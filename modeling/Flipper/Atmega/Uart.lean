import Flipper.Fmr.Interface

/-! The receive side of `platforms/atmegau2/api/uart0.c`: an interrupt fills a buffer that
`uart0_read` empties before it polls the receiver. -/
namespace Flipper.Atmega
open Binary Fmr

def uart0BufferSize : Nat := 64

/-- `uart0_buffer` and `idx`, with the characters handed to `usb_debug_putchar`. -/
structure Uart where
  buffer : Mem
  idx : Byte
  debug : List Byte

/-- `USART1_RX_vect` with the level of the FMR line and the byte in the receiver. -/
def usart1Rx (s : Uart) (fmr : Bool) (c : Byte) : Uart :=
  let s := if s.idx.toNat = uart0BufferSize then { s with idx := 0 } else s
  if fmr then { s with debug := s.debug ++ [c] }
  else { s with buffer := s.buffer.set s.idx.toNat c, idx := s.idx + 1 }

/-- The polling loop, storing at a distance from `dst`. The receiver gives these bytes
before the timeout and no more. -/
def pollLoop (dst : Mem) (offset : Nat) : (length : Nat) → (receiver : List Byte) → WriteReply × Mem
  | 0, _ => (⟨lfSuccess, none⟩, dst)
  | _ + 1, [] => (⟨lfError, some LfErr.eUart0ReadTimeout.code⟩, dst)
  | length + 1, c :: receiver => pollLoop (dst.set offset c) (offset + 1) length receiver

structure UartRead where
  reply : WriteReply
  dst : Mem
  uart : Uart

def uart0Read (s : Uart) (dst : Mem) (length : Nat) (receiver : List Byte) : UartRead :=
  let idx := s.idx.toNat
  if idx ≠ 0 then
    if idx ≤ length then
      let (reply, dst) := pollLoop (dst.copy 0 idx s.buffer) idx (length - idx) receiver
      ⟨reply, dst, { s with idx := 0 }⟩
    else
      ⟨⟨lfSuccess, none⟩, dst.copy 0 length s.buffer, { s with
        buffer := s.buffer.copy 0 (idx - length) fun i => s.buffer (length + i)
        idx := BitVec.ofNat 8 (idx - length) }⟩
  else
    let (reply, dst) := pollLoop dst 0 length receiver
    ⟨reply, dst, s⟩

def Uart.buffered (s : Uart) : List Byte := s.buffer.slice 0 s.idx.toNat

/-! Runs. -/

/-- The receiver's side of the story: every byte that arrived and every byte a read gave. -/
structure Line where
  uart : Uart
  received : List Byte
  returned : List Byte

inductive Action where
  | interrupt (c : Byte)
  | read (dst : Mem) (length : Nat) (polled : List Byte)

namespace Line

def start : Line := ⟨⟨fun _ => 0, 0, []⟩, [], []⟩

/-- One step: an interrupt with the FMR line low while the buffer is not full, or a read
whose polling finds the bytes it needs. -/
def act (s : Line) : Action → Option Line
  | .interrupt c =>
    if s.uart.idx.toNat ≠ uart0BufferSize then
      some { s with uart := usart1Rx s.uart false c, received := s.received ++ [c] }
    else none
  | .read dst length polled =>
    if polled.length = length - s.uart.idx.toNat then
      let read := uart0Read s.uart dst length polled
      some ⟨read.uart, s.received ++ polled, s.returned ++ read.dst.slice 0 length⟩
    else none

def run (s : Line) : List Action → Option Line
  | [] => some s
  | action :: rest => (s.act action).bind (run · rest)

/-- Nothing is lost, repeated or out of order, and the buffer has room for what it holds. -/
structure InOrder (s : Line) : Prop where
  stream : s.returned ++ s.uart.buffered = s.received
  bounded : s.uart.idx.toNat ≤ uart0BufferSize

end Line

/-! One interrupt and one read. -/

theorem usart1Rx_appends (s : Uart) (c : Byte) (room : s.idx.toNat < uart0BufferSize) :
    (usart1Rx s false c).idx.toNat = s.idx.toNat + 1 ∧
      (usart1Rx s false c).buffered = s.buffered ++ [c] := by
  have stored : usart1Rx s false c =
      { s with buffer := s.buffer.set s.idx.toNat c, idx := s.idx + 1 } := by
    simp [usart1Rx, Nat.ne_of_lt room]
  have next : (s.idx + 1).toNat = s.idx.toNat + 1 := by
    unfold uart0BufferSize at room
    rw [BitVec.toNat_add]
    exact Nat.mod_eq_of_lt (by simp; omega)
  rw [stored, Uart.buffered]
  dsimp only
  rw [next, Mem.slice_set]
  exact ⟨rfl, rfl⟩

theorem pollLoop_slice (dst : Mem) (offset : Nat) (receiver : List Byte) :
    (pollLoop dst offset receiver.length receiver).1.status = lfSuccess ∧
      (pollLoop dst offset receiver.length receiver).2.slice 0 (offset + receiver.length) =
        dst.slice 0 offset ++ receiver := by
  induction receiver generalizing dst offset with
  | nil => exact ⟨rfl, (List.append_nil _).symm⟩
  | cons c receiver ih =>
    obtain ⟨status, filled⟩ := ih (dst.set offset c) (offset + 1)
    refine ⟨status, ?_⟩
    rw [Mem.slice_set, List.append_assoc, Nat.add_right_comm] at filled
    exact filled

theorem slice_copied (dst src : Mem) (count : Nat) :
    (dst.copy 0 count src).slice 0 count = src.slice 0 count := by
  have block := Mem.slice_copy dst src 0 count
  rwa [Nat.zero_add] at block

/-- A read took the oldest bytes there are and left the others. -/
structure Takes (s : Uart) (length : Nat) (polled : List Byte) (read : UartRead) : Prop where
  status : read.reply.status = lfSuccess
  shorter : read.uart.idx.toNat ≤ s.idx.toNat
  taken : read.dst.slice 0 length ++ read.uart.buffered = s.buffered ++ polled

section Paths
variable (s : Uart) (dst : Mem) (length : Nat) (polled : List Byte)

theorem poll_takes (empty : s.idx.toNat = 0) (enough : polled.length = length) :
    Takes s length polled ⟨(pollLoop dst 0 length polled).1, (pollLoop dst 0 length polled).2,
      s⟩ := by
  obtain ⟨status, filled⟩ := pollLoop_slice dst 0 polled
  rw [enough, Nat.zero_add] at filled
  rw [enough] at status
  have nothing : s.buffered = [] := by
    rw [Uart.buffered, empty]
    rfl
  refine ⟨status, Nat.le_refl _, ?_⟩
  rw [filled, nothing]
  simp [Mem.slice]

/-- The path that empties the buffer and polls for the rest. -/
theorem drain_takes (drains : s.idx.toNat ≤ length)
    (enough : polled.length = length - s.idx.toNat) :
    let polling := pollLoop (dst.copy 0 s.idx.toNat s.buffer) s.idx.toNat
      (length - s.idx.toNat) polled
    Takes s length polled ⟨polling.1, polling.2, { s with idx := 0 }⟩ := by
  intro polling
  obtain ⟨status, filled⟩ := pollLoop_slice (dst.copy 0 s.idx.toNat s.buffer) s.idx.toNat polled
  rw [enough] at status filled
  rw [Nat.add_sub_cancel' drains, slice_copied] at filled
  refine ⟨status, Nat.zero_le _, ?_⟩
  rw [filled]
  exact List.append_nil _

/-- The path that takes a part of the buffer and moves the rest down. -/
theorem move_takes (less : length < s.idx.toNat) :
    Takes s length [] ⟨⟨lfSuccess, none⟩, dst.copy 0 length s.buffer, { s with
      buffer := s.buffer.copy 0 (s.idx.toNat - length) fun i => s.buffer (length + i)
      idx := BitVec.ofNat 8 (s.idx.toNat - length) }⟩ := by
  have left : (BitVec.ofNat 8 (s.idx.toNat - length)).toNat = s.idx.toNat - length := by
    have bound : s.idx.toNat < 256 := s.idx.isLt
    rw [BitVec.toNat_ofNat]
    omega
  have moved : (s.buffer.copy 0 (s.idx.toNat - length) fun i => s.buffer (length + i)).slice 0
      (s.idx.toNat - length) = s.buffer.slice (0 + length) (s.idx.toNat - length) := by
    rw [slice_copied]
    simp [Mem.slice]
  refine ⟨rfl, by simp only [left]; omega, ?_⟩
  rw [Uart.buffered]
  simp only [left]
  rw [slice_copied, moved, ← Mem.slice_append, Nat.add_sub_cancel' (Nat.le_of_lt less),
    List.append_nil]
  rfl

/-- Every read whose polling does not run dry. -/
theorem uart0Read_takes (enough : polled.length = length - s.idx.toNat) :
    Takes s length polled (uart0Read s dst length polled) := by
  by_cases empty : s.idx.toNat = 0
  · have path : uart0Read s dst length polled =
        ⟨(pollLoop dst 0 length polled).1, (pollLoop dst 0 length polled).2, s⟩ := by
      simp [uart0Read, empty]
    rw [path]
    rw [empty, Nat.sub_zero] at enough
    exact poll_takes s dst length polled empty enough
  · by_cases drains : s.idx.toNat ≤ length
    · have takes := drain_takes s dst length polled drains enough
      simpa [uart0Read, empty, drains] using takes
    · have none : polled = [] := List.length_eq_zero_iff.mp (by omega)
      have takes := move_takes s dst length (Nat.lt_of_not_le drains)
      simpa [uart0Read, empty, drains, none] using takes

end Paths

/-! The line. -/

namespace Line
variable {s after : Line}

theorem InOrder.start : InOrder start := ⟨rfl, Nat.zero_le _⟩

theorem InOrder.interrupt (inOrder : InOrder s) (c : Byte)
    (room : s.uart.idx.toNat ≠ uart0BufferSize) :
    InOrder { s with uart := usart1Rx s.uart false c, received := s.received ++ [c] } := by
  obtain ⟨stream, bounded⟩ := inOrder
  obtain ⟨counted, buffered⟩ := usart1Rx_appends s.uart c (Nat.lt_of_le_of_ne bounded room)
  constructor
  · change s.returned ++ (usart1Rx s.uart false c).buffered = s.received ++ [c]
    rw [buffered, ← List.append_assoc, stream]
  · change (usart1Rx s.uart false c).idx.toNat ≤ uart0BufferSize
    omega

theorem InOrder.read (inOrder : InOrder s) (dst : Mem) (length : Nat) (polled : List Byte)
    (enough : polled.length = length - s.uart.idx.toNat) :
    InOrder ⟨(uart0Read s.uart dst length polled).uart, s.received ++ polled,
      s.returned ++ (uart0Read s.uart dst length polled).dst.slice 0 length⟩ := by
  obtain ⟨stream, bounded⟩ := inOrder
  have takes := uart0Read_takes s.uart dst length polled enough
  constructor
  · rw [List.append_assoc, takes.taken, ← List.append_assoc, stream]
  · exact Nat.le_trans takes.shorter bounded

theorem InOrder.act (inOrder : InOrder s) (step : s.act action = some after) : InOrder after := by
  cases action with
  | interrupt c =>
    simp only [Line.act, ne_eq, ite_not] at step
    split at step
    · cases step
    · rename_i room
      cases step
      exact inOrder.interrupt c room
  | read dst length polled =>
    simp only [Line.act] at step
    split at step
    · rename_i enough
      cases step
      exact inOrder.read dst length polled enough
    · cases step

theorem InOrder.run (inOrder : InOrder s) (steps : s.run actions = some after) : InOrder after := by
  induction actions generalizing s with
  | nil =>
    cases steps
    exact inOrder
  | cons action rest ih =>
    obtain ⟨next, step, later⟩ := Option.bind_eq_some_iff.mp steps
    exact ih (inOrder.act step) later

/-- Over every run the bytes returned and then those in the buffer are the bytes received,
and the buffer never holds more than fits. -/
theorem receive_fifo (actions : List Action) (after : Line)
    (steps : start.run actions = some after) :
    after.returned ++ after.uart.buffered = after.received ∧
      after.uart.idx.toNat ≤ uart0BufferSize := by
  have inOrder := InOrder.start.run steps
  exact ⟨inOrder.stream, inOrder.bounded⟩

/-- All three paths of a read: shorter than the buffered bytes, longer, and polling only. -/
def threeReads : List Action :=
  [.interrupt 1, .interrupt 2, .interrupt 3, .read (fun _ => 0) 2 [], .interrupt 4,
    .read (fun _ => 0) 3 [5], .read (fun _ => 0) 1 [6], .interrupt 7]

theorem receive_fifo_threeReads :
    ∃ after, start.run threeReads = some after ∧ after.received = [1, 2, 3, 4, 5, 6, 7] ∧
      after.returned ++ after.uart.buffered = after.received ∧
        after.uart.idx.toNat ≤ uart0BufferSize := by
  refine ⟨_, rfl, rfl, ?_⟩
  exact receive_fifo threeReads _ rfl

end Line
end Flipper.Atmega
