import Flipper.Fmr.Service

/-! The service of `platforms/atsam4s`: `main` reads a packet from uart0, and each interrupt that
finds it complete performs it and reads the next one. A packet is the next 64 bytes that the
receiver hands over, wherever they start; bytes lost to an overrun are not among them. -/
namespace Flipper.Sam4s
open Binary Effect Fmr

/-- The bytes that `uart0_get` is still to return, those sent, and the modules. -/
@[ext] structure Uart0 (σ : Type) where
  incoming : List Byte
  outgoing : List Byte
  modules : σ

/-- `uart0_read` from index `i` on, with what is left of the line; without a result if it waits
for a byte that does not come. -/
def uart0ReadFrom (dst : Mem) : (length i : Nat) → List Byte → Option (Mem × List Byte)
  | 0, _, incoming => some (dst, incoming)
  | _ + 1, _, [] => none
  | length + 1, i, byte :: incoming => uart0ReadFrom (dst.set i byte) length (i + 1) incoming

def uart0Read (dst : Mem) (length : Nat) (incoming : List Byte) : Option (Mem × List Byte) :=
  uart0ReadFrom dst length 0 incoming

/-- `uart0_put` for each byte, which waits until the transmitter is ready. -/
def uart0Write (s : Uart0 σ) (bytes : List Byte) : Int × Uart0 σ :=
  (0, bytes.foldl (fun s byte => { s with outgoing := s.outgoing ++ [byte] }) s)

/-- The device with `atsam4s_write`; no handler reads from it. -/
def attached (far : World fmr σ) : World fmr (Uart0 σ) where
  answer op s := match op with
    | .write bytes =>
      let (status, s) := uart0Write s bytes
      (⟨status, none⟩, s)
    | op =>
      let reply := far.answer op s.modules
      (reply.1, { s with modules := reply.2 })

section Interrupts
variable (registry : Registry) (device : LfDevice) (far : World fmr σ)

/-- `uart0_isr` with the ENDRX bit of the status it reads. -/
def uart0Isr (s : Mem × Uart0 σ) (endrx : Bool) : Option (Mem × Uart0 σ) :=
  if endrx then
    let outcome := (fmrPerform registry device s.1).run (attached far) s.2
    (uart0Read outcome.value.mem fmrPacketSize outcome.state.incoming).map fun (packet, incoming) =>
      (packet, { outcome.state with incoming })
  else some s

/-- `main` from its first read on, with the interrupts that come. -/
def main (packet : Mem) (line : Uart0 σ) (interrupts : List Bool) : Option (Mem × Uart0 σ) := do
  let (packet, incoming) ← uart0Read packet fmrPacketSize line.incoming
  interrupts.foldlM (uart0Isr registry device far) (packet, { line with incoming })

end Interrupts

/-! Reading. -/

theorem uart0ReadFrom_eq (dst : Mem) (length i : Nat) (incoming : List Byte) :
    uart0ReadFrom dst length i incoming =
      if length ≤ incoming.length then
        some (dst.copy i length fun k => incoming.getD k 0, incoming.drop length)
      else none := by
  induction length generalizing dst i incoming with
  | zero =>
    have unchanged : dst.copy i 0 (fun k => incoming.getD k 0) = dst :=
      funext fun k => Mem.copy_outside _ _ _ _ (by omega)
    rw [uart0ReadFrom, if_pos (Nat.zero_le _), unchanged, List.drop_zero]
  | succ length ih =>
    cases incoming with
    | nil => rfl
    | cons byte later =>
      rw [uart0ReadFrom, ih, List.length_cons, List.drop_succ_cons]
      simp only [Nat.add_le_add_iff_right]
      congr 3
      funext k
      by_cases inside : i ≤ k ∧ k < i + (length + 1)
      · rw [Mem.copy_inside _ i _ _ inside.1 inside.2]
        rcases Nat.eq_or_lt_of_le inside.1 with rfl | later'
        · rw [Mem.copy_outside _ _ _ _ (by omega), Mem.set_self, Nat.sub_self]
          rfl
        · rw [Mem.copy_inside _ _ _ _ (by omega) (by omega), show k - i = k - (i + 1) + 1 by omega]
          rfl
      · rw [Mem.copy_outside _ i _ _ (by omega), Mem.copy_outside _ _ _ _ (by omega),
          Mem.set_other _ _ (by omega)]

/-- A read takes the next bytes of the line if there are as many. -/
theorem uart0Read_eq (dst : Mem) (length : Nat) (incoming : List Byte) :
    uart0Read dst length incoming =
      if length ≤ incoming.length then some
        (dst.overlay (incoming.take length), incoming.drop length) else none := by
  rw [uart0Read, uart0ReadFrom_eq]
  split
  · rename_i enough
    have size : (incoming.take length).length = length :=
      by rw [List.length_take, Nat.min_eq_left enough]
    refine congrArg some (Prod.ext (funext fun k => ?_) rfl)
    rcases Nat.lt_or_ge k length with inside | outside
    · have taken : k < (incoming.take length).length := by rwa [size]
      dsimp only
      rw [Mem.copy_inside _ _ _ _ (Nat.zero_le k) (by omega), Mem.overlay_inside _ taken,
        Nat.sub_zero, List.getD_eq_getElem?_getD, List.getElem?_eq_getElem (by omega),
        List.getElem_take, Option.getD_some]
    · dsimp only
      rw [Mem.copy_outside _ _ _ _ (by omega), Mem.overlay_outside _ (by rw [size]; exact outside)]
  · rfl

/-! Performing. -/

theorem uart0Write_eq (s : Uart0 σ) (bytes : List Byte) :
    uart0Write s bytes = (0, { s with outgoing := s.outgoing ++ bytes }) := by
  have sent : bytes.foldl (fun s byte => { s with outgoing := s.outgoing ++ [byte] }) s =
      { s with outgoing := s.outgoing ++ bytes } := by
    induction bytes generalizing s with
    | nil => simp
    | cons byte later ih =>
      rw [List.foldl_cons, ih]
      simp
  rw [uart0Write, sent]

/-- The bytes sent are those of the messages, and reading is left to the interrupt. -/
structure Lined (incoming : List Byte) (t : Uart0 σ) (s : σ × List (List Byte)) : Prop where
  modules : t.modules = s.1
  outgoing : t.outgoing = s.2.flatten
  incoming : t.incoming = incoming

theorem attached_simulates (far : World fmr σ) (incoming : List Byte) :
    Simulates (attached far) (delivering far) (fun _ => True) (Lined incoming) := by
  intro op t s _ lined
  cases op with
  | write bytes =>
    dsimp only [attached, delivering]
    rw [uart0Write_eq]
    refine ⟨rfl, lined.modules, ?_, lined.incoming⟩
    simp [lined.outgoing]
  | _ =>
    dsimp only [attached, delivering]
    rw [lined.modules]
    exact ⟨rfl, rfl, lined.outgoing, lined.incoming⟩

/-- The packets of a line: full blocks, one after the other. -/
def blocks (incoming : List Byte) (count : Nat) : List (List Byte) :=
  (List.range count).map fun k => (incoming.drop (fmrPacketSize * k)).take fmrPacketSize

theorem blocks_succ (incoming : List Byte) (count : Nat) :
    blocks incoming (count + 1) = incoming.take fmrPacketSize :: blocks
      (incoming.drop fmrPacketSize) count := by
  rw [blocks, blocks, List.range_succ_eq_map, List.map_cons, List.map_map]
  refine congrArg₂ List.cons rfl (List.map_congr_left fun k _ => ?_)
  rw [Function.comp_apply, List.drop_drop, Nat.mul_succ, Nat.add_comm]

section Refinement
variable (registry : Registry) (device : LfDevice) (far : World fmr σ)

/-- The service has got as far as the interrupts; the next packet stands in the buffer. -/
structure Follows (incoming : List Byte) (t : Mem × Uart0 σ) (s : Service σ) : Prop where
  packet : t.1 = s.buffer.overlay (incoming.take fmrPacketSize)
  line : Lined (incoming.drop fmrPacketSize) t.2 (s.modules, s.messages)

theorem uart0Isr_follows {incoming : List Byte} {t : Mem × Uart0 σ} {s : Service σ}
    (follows : Follows incoming t s) :
    (2 * fmrPacketSize ≤ incoming.length → ∃ after,
      uart0Isr registry device far t true = some after ∧
      Follows (incoming.drop fmrPacketSize) after
        (s.serve registry device far (incoming.take fmrPacketSize))) ∧
    (incoming.length < 2 * fmrPacketSize → uart0Isr registry device far t true = none) := by
  obtain ⟨value, -, line⟩ := (attached_simulates far (incoming.drop fmrPacketSize)).run
    (fmrPerform registry device (s.buffer.overlay (incoming.take fmrPacketSize))) follows.line
    fun event _ => by cases event <;> trivial
  rw [uart0Isr, if_pos rfl, follows.packet]
  dsimp only
  rw [line.incoming, uart0Read_eq, List.length_drop]
  constructor
  · intro enough
    rw [if_pos (by omega)]
    refine ⟨_, rfl, ?_, line.modules, line.outgoing, rfl⟩
    dsimp only
    rw [value]
    rfl
  · intro few
    rw [if_neg (by unfold fmrPacketSize at few ⊢; omega)]
    rfl

/-- After the interrupts as many packets are performed as were found complete, and one more is
read. -/
theorem interrupts_follow {incoming : List Byte} {t : Mem × Uart0 σ} {s : Service σ}
    (follows : Follows incoming t s)
    (read : fmrPacketSize ≤ incoming.length) (interrupts : List Bool) :
    (fmrPacketSize * (interrupts.count true + 1) ≤ incoming.length →
      ∃ after, interrupts.foldlM (uart0Isr registry device far) t = some after ∧
        Follows (incoming.drop (fmrPacketSize * interrupts.count true)) after
          (s.serveAll registry device far (blocks incoming (interrupts.count true)))) ∧
    (incoming.length < fmrPacketSize * (interrupts.count true + 1) →
      interrupts.foldlM (uart0Isr registry device far) t = none) := by
  induction interrupts generalizing incoming t s with
  | nil => exact ⟨fun _ => ⟨t, rfl, follows⟩, fun few => absurd read (by simpa using few)⟩
  | cons endrx later ih =>
    rw [List.foldlM_cons]
    cases endrx with
    | false =>
      rw [List.count_cons_of_ne (by decide)]
      exact ih follows read
    | true =>
      obtain ⟨performs, waits⟩ := uart0Isr_follows registry device far follows
      rw [List.count_cons_self, blocks_succ]
      rcases Nat.lt_or_ge incoming.length (2 * fmrPacketSize) with few | enough
      · rw [waits few]
        refine ⟨fun more => ?_, fun _ => rfl⟩
        unfold fmrPacketSize at few more
        omega
      · obtain ⟨middle, performed, followed⟩ := performs enough
        have left : fmrPacketSize ≤ (incoming.drop fmrPacketSize).length := by
          rw [List.length_drop]
          omega
        obtain ⟨goesOn, blocked⟩ := ih followed left
        rw [List.length_drop] at goesOn blocked
        have dropped : incoming.drop (fmrPacketSize * (later.count true + 1)) =
            (incoming.drop fmrPacketSize).drop (fmrPacketSize * later.count true) := by
          rw [List.drop_drop, Nat.mul_succ, Nat.add_comm]
        rw [performed, dropped, Nat.mul_succ]
        exact ⟨fun more => goesOn (by omega), fun few => blocked (by omega)⟩

theorem main_follows (packet : Mem) (incoming : List Byte) (modules : σ) (interrupts : List Bool) :
    (fmrPacketSize * (interrupts.count true + 1) ≤ incoming.length →
      ∃ after, main registry device far packet ⟨incoming, [], modules⟩ interrupts = some after ∧
        Follows (incoming.drop (fmrPacketSize * interrupts.count true)) after
          ((⟨packet, modules, []⟩ : Service σ).serveAll registry device far
            (blocks incoming (interrupts.count true)))) ∧
    (incoming.length < fmrPacketSize * (interrupts.count true + 1) →
      main registry device far packet ⟨incoming, [], modules⟩ interrupts = none) := by
  have reads := uart0Read_eq packet fmrPacketSize incoming
  rcases Nat.lt_or_ge incoming.length fmrPacketSize with few | enough
  · rw [if_neg (Nat.not_le.mpr few)] at reads
    refine ⟨fun more => ?_, fun _ => ?_⟩
    · rw [Nat.mul_succ] at more
      omega
    · simp only [main, reads, Option.bind_eq_bind, Option.bind_none]
  · rw [if_pos enough] at reads
    have start : Follows incoming (packet.overlay (incoming.take fmrPacketSize),
        ⟨incoming.drop fmrPacketSize, [], modules⟩) (⟨packet, modules, []⟩ :
          Service σ) := ⟨rfl, rfl, rfl, rfl⟩
    have begun : main registry device far packet ⟨incoming, [], modules⟩ interrupts =
        interrupts.foldlM (uart0Isr registry device far)
          (packet.overlay (incoming.take fmrPacketSize),
            ⟨incoming.drop fmrPacketSize, [], modules⟩) := by
      simp only [main, reads, Option.bind_eq_bind, Option.bind_some]
    rw [begun]
    exact interrupts_follow registry device far start enough interrupts

end Refinement

end Flipper.Sam4s
