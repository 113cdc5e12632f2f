import Flipper.Fmr.Handlers

/-! What `lib/debug.c` touches when the FVM prints a packet it received. The FVM does so
before anything is checked: the class, the types, the count and the length are those of
the sender. -/
namespace Flipper.Fvm
open Binary Fmr

inductive DebugLevel where
  | off | warnings | errors | all
  deriving DecidableEq

def classstrs : List String := ["exec", "push", "pull", "dyld", "malloc", "free"]

def typestrs : List String :=
  ["unknown", "unknown", "void", "uint64", "int", "unknown", "ptr", "int64",
    "unknown", "unknown", "unknown", "unknown", "unknown", "unknown", "unknown", "unknown",
    "uint8", "uint16", "unknown", "uint32", "unknown", "unknown", "unknown", "unknown",
    "int8", "int16", "unknown", "int32", "unknown", "unknown", "unknown", "unknown"]

/-- A read of the packet, or of one of the two tables of strings. -/
inductive Access where
  | bytes (offset size : Nat)
  | classstr (index : Byte)
  | typestr (index : Byte)

/-- The table has the entry, and every byte read is one of the 64. -/
def Access.Inside : Access → Prop
  | .bytes offset size => ∀ b < size, offset + b < fmrPacketSize
  | .classstr index => index.toNat < classstrs.length
  | .typestr index => index.toNat < typestrs.length

def debugTypes (m : Mem) (i : Nat) : Nat → List Access
  | 0 => []
  | n + 1 => .bytes (argTypesOffset + i) 1 :: .typestr (argType m i) :: debugTypes m (i + 1) n

def debugArgs (m : Mem) (i offset : Nat) : Nat → List Access
  | 0 => []
  | n + 1 =>
    let type := argType m i
    .bytes (argTypesOffset + i) 1 :: .bytes offset (lfSizeof type) :: .typestr type ::
      debugArgs m (i + 1) (offset + lfSizeof type) n

def lfDebugCall (m : Mem) : List Access :=
  [.bytes 6 1, .bytes 7 1, .bytes 8 1, .typestr (callRet m), .bytes 9 1] ++
    debugTypes m 0 (callArgc m).toNat ++ debugArgs m 0 argvOffset (callArgc m).toNat

/-- `%s`: characters up to the first NUL, as far as `fuel` goes. -/
def debugString (m : Mem) (offset : Nat) : (fuel : Nat) → List Access
  | 0 => []
  | fuel + 1 => .bytes offset 1 :: if m offset = 0 then [] else debugString m (offset + 1) fuel

/-- The switch over the class. -/
def debugPayload (fuel : Nat) (m : Mem) : List Access :=
  if hdrType m = FmrClass.rpc.code then lfDebugCall m
  else if hdrType m = FmrClass.push.code ∨
    hdrType m = FmrClass.pull.code then [.bytes 10 8, .bytes 6 4]
  else if hdrType m = FmrClass.dyld.code then debugString m headerSize fuel
  else if hdrType m = FmrClass.malloc.code then [.bytes 6 4]
  else if hdrType m = FmrClass.free.code then [.bytes 10 8]
  else []

def debugDump (m : Mem) : List Access :=
  (List.range (hdrLen m).toNat).map fun i => .bytes i 1

def lfDebugPacket (level : DebugLevel) (fuel : Nat) (m : Mem) : List Access :=
  if level ≠ .all then []
  else .bytes 0 headerSize ::
    if hdrMagic m = fmrMagicNumber then .classstr (hdrType m) ::
      (debugPayload fuel m ++ debugDump m)
    else []

/-- However long a string is followed, nothing outside the packet and the tables is read. -/
def DebugInside (m : Mem) : Prop :=
  ∀ fuel, ∀ access ∈ lfDebugPacket .all fuel m, access.Inside

/-- A call with types the table has, in a packet that holds them and the values. -/
def CallPrintable (m : Mem) : Prop :=
  let argc := (callArgc m).toNat
  (callRet m).toNat < 32 ∧ argTypesOffset + argc ≤ fmrPacketSize ∧
    (∀ i < argc, (argType m i).toNat < 32) ∧ argvOffset + argBytes m 0 argc ≤ fmrPacketSize

/-- With the right magic number: a length within the packet, a class that exists, a call
that can be printed, a module name that ends. -/
def Printable (m : Mem) : Prop :=
  hdrMagic m = fmrMagicNumber → (hdrLen m).toNat ≤ fmrPacketSize ∧ hdrType m < fmrClassCount ∧
    (hdrType m = FmrClass.rpc.code → CallPrintable m) ∧
    (hdrType m = FmrClass.dyld.code → ∃ k < fmrPacketSize, headerSize ≤ k ∧ m k = 0)

instance (m : Mem) : Decidable (CallPrintable m) := inferInstanceAs (Decidable (_ ∧ _))

instance (m : Mem) : Decidable (Printable m) := inferInstanceAs (Decidable (_ → _))

theorem inside_byte : (Access.bytes offset 1).Inside ↔ offset < fmrPacketSize := by
  simp [Access.Inside]

theorem inside_bytes (low : offset ≤ fmrPacketSize) :
    (Access.bytes offset size).Inside ↔ offset + size ≤ fmrPacketSize := by
  constructor
  · intro inside
    by_contra beyond
    have last := inside (size - 1) (by omega)
    omega
  · intro fits b less
    omega

theorem debugTypes_inside (m : Mem) (i n : Nat) :
    (∀ access ∈ debugTypes m i n, access.Inside) ↔
      ∀ j < n, argTypesOffset + (i + j) < fmrPacketSize ∧ (argType m (i + j)).toNat < 32 := by
  induction n generalizing i with
  | zero => simp [debugTypes]
  | succ n ih =>
    simp only [debugTypes, List.forall_mem_cons, ih, inside_byte]
    constructor
    · rintro ⟨slot, type, later⟩ j less
      cases j with
      | zero => exact ⟨slot, type⟩
      | succ j =>
        rw [show i + (j + 1) = i + 1 + j by omega]
        exact later j (by omega)
    · intro all
      refine ⟨(all 0 (by omega)).1, (all 0 (by omega)).2, fun j less => ?_⟩
      rw [show i + 1 + j = i + (j + 1) by omega]
      exact all (j + 1) (by omega)

/-- The second loop needs of the types what the first one does, and room for the values. -/
theorem debugArgs_inside (m : Mem) (i offset n : Nat) (low : offset ≤ fmrPacketSize) :
    (∀ access ∈ debugArgs m i offset n, access.Inside) ↔
      (∀ access ∈ debugTypes m i n, access.Inside) ∧ offset + argBytes m i n ≤ fmrPacketSize := by
  induction n generalizing i offset with
  | zero => simpa [debugArgs, debugTypes, argBytes] using low
  | succ n ih =>
    simp only [debugArgs, debugTypes, argBytes, List.forall_mem_cons, inside_bytes low]
    constructor
    · rintro ⟨slot, value, type, later⟩
      obtain ⟨types, fits⟩ := (ih _ _ value).mp later
      exact ⟨⟨slot, type, types⟩, by omega⟩
    · rintro ⟨⟨slot, type, types⟩, fits⟩
      exact ⟨slot, by omega, type, (ih _ _ (by omega)).mpr ⟨types, by omega⟩⟩

theorem lfDebugCall_inside (m : Mem) :
    (∀ access ∈ lfDebugCall m, access.Inside) ↔ CallPrintable m := by
  simp only [lfDebugCall, List.forall_mem_append, List.forall_mem_cons, inside_byte, CallPrintable,
    debugArgs_inside m 0 argvOffset _ (by decide), debugTypes_inside, Nat.zero_add]
  have ret : (Access.typestr (callRet m)).Inside ↔ (callRet m).toNat < 32 := Iff.rfl
  rw [ret]
  constructor
  · rintro ⟨⟨⟨_, _, _, ret, _, _⟩, types⟩, _, values⟩
    refine ⟨ret, ?_, fun i less => (types i less).2, values⟩
    by_contra beyond
    have last := (types ((callArgc m).toNat - 1)
      (by unfold argTypesOffset fmrPacketSize at *; omega)).1
    omega
  · rintro ⟨ret, slots, types, values⟩
    have all : ∀ j < (callArgc m).toNat, argTypesOffset + j < fmrPacketSize ∧
        (argType m j).toNat < 32 :=
      fun j less => ⟨by omega, types j less⟩
    exact ⟨⟨⟨by decide, by decide, by decide, ret, by decide, by simp⟩, all⟩, all, values⟩

/-- A string is read up to its NUL. -/
theorem debugString_inside (m : Mem) (ends : m k = 0) (before : offset ≤ k)
    (inside : k < fmrPacketSize)
    (fuel : Nat) : ∀ access ∈ debugString m offset fuel, access.Inside := by
  induction fuel generalizing offset with
  | zero => simp [debugString]
  | succ fuel ih =>
    rw [debugString, List.forall_mem_cons, inside_byte]
    refine ⟨by omega, ?_⟩
    split
    · simp
    · rename_i more
      have other : offset ≠ k := fun same => more (same ▸ ends)
      exact ih (by omega)

/-- Without a NUL in the packet the byte behind it is read. -/
theorem debugString_overruns (m : Mem) (n : Nat)
    (full : ∀ k, offset ≤ k → k < offset + n → m k ≠ 0) :
    Access.bytes (offset + n) 1 ∈ debugString m offset (n + 1) := by
  induction n generalizing offset with
  | zero => simp [debugString]
  | succ n ih =>
    rw [debugString, if_neg (full offset (Nat.le_refl _) (by omega))]
    have later : Access.bytes (offset + 1 + n) 1 ∈ debugString m (offset + 1) (n + 1) :=
      ih fun k lower upper => full k (by omega) (by omega)
    rw [show offset + (n + 1) = offset + 1 + n by omega]
    exact List.mem_cons_of_mem _ later

theorem debugString_inside_iff (m : Mem) :
    (∀ fuel, ∀ access ∈ debugString m headerSize fuel, access.Inside) ↔
      ∃ k < fmrPacketSize, headerSize ≤ k ∧ m k = 0 := by
  constructor
  · intro inside
    by_contra none
    have full : ∀ k, headerSize ≤ k → k < headerSize + (fmrPacketSize - headerSize) → m k ≠ 0 := by
      intro k lower upper zero
      exact none ⟨k, upper, lower, zero⟩
    have overrun := inside _ _ (debugString_overruns m _ full)
    rw [inside_byte] at overrun
    exact absurd overrun (by decide)
  · rintro ⟨k, inside, before, ends⟩ fuel
    exact debugString_inside m ends before inside fuel

theorem debugDump_inside (m : Mem) :
    (∀ access ∈ debugDump m, access.Inside) ↔ (hdrLen m).toNat ≤ fmrPacketSize := by
  simp only [debugDump, List.forall_mem_map, List.mem_range, inside_byte]
  constructor
  · intro inside
    by_contra beyond
    exact absurd (inside fmrPacketSize (by omega)) (Nat.lt_irrefl _)
  · intro fits i less
    omega

/-- Only calls and module names lead outside. -/
theorem debugPayload_inside (m : Mem) :
    (∀ fuel, ∀ access ∈ debugPayload fuel m, access.Inside) ↔
      (hdrType m = FmrClass.rpc.code → CallPrintable m) ∧
        (hdrType m = FmrClass.dyld.code → ∃ k < fmrPacketSize, headerSize ≤ k ∧ m k = 0) := by
  rw [← lfDebugCall_inside, ← debugString_inside_iff]
  unfold debugPayload
  have codes : FmrClass.rpc.code ≠ FmrClass.dyld.code := by decide
  by_cases rpc : hdrType m = FmrClass.rpc.code
  · simp [rpc, codes]
  by_cases dyld : hdrType m = FmrClass.dyld.code
  · have other : FmrClass.dyld.code ≠ FmrClass.rpc.code ∧ FmrClass.dyld.code ≠ FmrClass.push.code ∧
        FmrClass.dyld.code ≠ FmrClass.pull.code := by decide
    simp [dyld, other]
  have pointer : (Access.bytes 10 8).Inside := (inside_bytes (by decide)).mpr (by decide)
  have word : (Access.bytes 6 4).Inside := (inside_bytes (by decide)).mpr (by decide)
  simp only [rpc, dyld, if_false, false_implies, and_self, iff_true]
  intro fuel
  split
  · simp [pointer, word]
  split
  · simp [word]
  split
  · simp [pointer]
  · simp

/-- Printing a received packet stays inside it and the tables exactly when the numbers it
carries do. -/
theorem debug_inside_iff (m : Mem) : DebugInside m ↔ Printable m := by
  have header : (Access.bytes 0 headerSize).Inside := (inside_bytes (by decide)).mpr (by decide)
  have class_ : (Access.classstr (hdrType m)).Inside ↔ hdrType m < fmrClassCount := Iff.rfl
  by_cases magic : hdrMagic m = fmrMagicNumber
  case neg => simp [DebugInside, Printable, lfDebugPacket, magic, header]
  simp only [DebugInside, Printable, lfDebugPacket, magic, ne_eq, not_true_eq_false, if_false,
    if_true, List.forall_mem_cons, List.forall_mem_append, class_, true_implies, debugDump_inside,
    header, true_and,
    ← debugPayload_inside]
  constructor
  · intro inside
    exact ⟨(inside 0).2.2, (inside 0).1, fun fuel => (inside fuel).2.1⟩
  · rintro ⟨len, known, payload⟩ fuel
    exact ⟨known, payload fuel, len⟩

/-- A packet of a class that does not exist indexes past the six names, and a length of
65535 is dumped to its end. -/
theorem unknown_class_outside :
    let m : Mem := fun k => if k = 0 then 0xFE else if k = 5 then 6 else 0xFF
    ¬ DebugInside m ∧ Access.classstr 6 ∈ lfDebugPacket .all 0 m ∧ ¬ (Access.classstr 6).Inside ∧
      Access.bytes 64 1 ∈ lfDebugPacket .all 0 m ∧ ¬ (Access.bytes 64 1).Inside := by
  intro m
  have indexed : Access.classstr 6 ∈ lfDebugPacket .all 0 m :=
    List.mem_cons_of_mem _ List.mem_cons_self
  have outside : ¬ (Access.classstr 6).Inside := by
    change ¬ (6 : Byte).toNat < classstrs.length
    decide
  have dumped : Access.bytes 64 1 ∈ lfDebugPacket .all 0 m := by
    refine List.mem_cons_of_mem _ (List.mem_cons_of_mem _ (List.mem_append_right _ ?_))
    exact List.mem_map.mpr ⟨64, List.mem_range.mpr (by decide), rfl⟩
  refine ⟨fun inside => outside (inside 0 _ indexed), indexed, outside, dumped, ?_⟩
  rw [inside_byte]
  decide

end Flipper.Fvm
