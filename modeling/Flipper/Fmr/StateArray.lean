import Flipper.Fmr.OperandOrigin

/-! Runs of `fmr_push` and `fmr_pull`: what lies behind the state pointers of the modules
is an array of bytes for each module. -/
namespace Flipper.Fmr
open Binary Effect

inductive AccessKind where
  | push | pull
  deriving DecidableEq

/-- One execution of a handler, with the memory it takes its operands from. -/
structure Access where
  kind : AccessKind
  m : Mem

namespace Access

def handler (access : Access) : Handler :=
  match access.kind with
  | .push => fmrPush
  | .pull => fmrPull

/-! The operands, as `struct _fmr_push` and `struct _fmr_pull` have them. -/

def module (access : Access) : Nat := (operands access.m 0).toNat

def index (access : Access) : Nat := (operands access.m 1).toNat

def length (access : Access) : Nat := (operands access.m 2).toNat

def data (access : Access) (i : Nat) : Byte := operands access.m (3 + i)

/-- The byte at this offset of the module's state is one of those accessed. -/
def Covers (access : Access) (module offset : Nat) : Prop :=
  module = access.module ∧ access.index ≤ offset ∧ offset < access.index + access.length

instance (access : Access) (module offset : Nat) : Decidable (access.Covers module offset) :=
  inferInstanceAs (Decidable (_ ∧ _))

def update (module offset : Nat) (value : Byte) (access : Access) : Byte :=
  if access.kind = .push ∧ access.Covers module offset then access.data
    (offset - access.index) else value

end Access

/-- The value pushed last to a byte by these accesses, or the one it had. -/
def latest (module offset : Nat) (initial : Byte) (accesses : List Access) : Byte :=
  accesses.foldl (Access.update module offset) initial

def stateAt (device : LfDevice) (module : Nat) : Option (BitVec 64) :=
  device.modules[module]?.bind LfModule.state

/-- The states of the modules are blocks of these sizes that share no byte. -/
structure StatesApart (device : LfDevice) (size : Nat → Nat) : Prop where
  fits : ∀ module, size module ≤ 2 ^ 64
  apart : ∀ module module' state state' offset offset', module ≠ module' →
    stateAt device module = some state → stateAt device module' = some state' →
      offset < size module → offset' < size module' →
        state + BitVec.ofNat 64 offset ≠ state' + BitVec.ofNat 64 offset'

/-- The range of an access that names a state is not empty and lies inside that state. -/
def Access.InRange (device : LfDevice) (size : Nat → Nat) (access : Access) : Prop :=
  ∀ state, stateAt device access.module = some state →
    1 ≤ access.length ∧ access.index + access.length ≤ size access.module

section Run
variable {σ : Type} (far : World fmr (AddressSpace 64 × σ)) (device : LfDevice)

/-- The device takes what it is given and leaves the memory of the modules alone. -/
def WritesSucceed : Prop :=
  ∀ bytes s, (far.answer (Op.write bytes) s).1.status = lfSuccess ∧
    (far.answer (Op.write bytes) s).2.1 = s.1

def Access.perform (access : Access) (s : AddressSpace 64 × σ) :
    Outcome fmr (AddressSpace 64 × σ) HandlerReturn :=
  (access.handler device access.m 0 LfErr.eOk.code).run (onMemory far) s

def afterAll (s : AddressSpace 64 × σ) (accesses : List Access) : AddressSpace 64 × σ :=
  accesses.foldl (fun s access => (access.perform far device s).state) s

/-! One access. -/

variable {far device} {access : Access} (s : AddressSpace 64 × σ)

theorem operandState_eq (access : Access) :
    operandState device access.m = stateAt device access.module := rfl

/-- Operands that name no state are refused. -/
theorem perform_refused (missing : stateAt device access.module = none) :
    access.perform far device s = ⟨⟨lfError, 0, LfErr.eOk.code⟩, [], s⟩ := by
  rw [← operandState_eq] at missing
  unfold Access.perform Access.handler
  cases access.kind with
  | push =>
    simp only [fmrPush, missing]
    rfl
  | pull =>
    simp only [fmrPull, missing]
    rfl

theorem perform_push (push : access.kind = .push)
    (found : stateAt device access.module = some state) :
    (access.perform far device s).value.status = lfSuccess ∧
    sent (access.perform far device s).trace = [] ∧
      (access.perform far device s).state =
        (s.1.store (state + (operands access.m 1).setWidth 64)
          (Mem.slice (operands access.m) 3 access.length), s.2) := by
  rw [← operandState_eq] at found
  have performed : access.perform far device s =
      (fmrPush device access.m 0 LfErr.eOk.code).run (onMemory far) s := by
    rw [Access.perform, Access.handler, push]
  rw [performed, fmrPush, found]
  exact ⟨rfl, rfl, rfl⟩

theorem perform_pull (writes : WritesSucceed far) (pull : access.kind = .pull)
    (found : stateAt device access.module = some state) :
    (access.perform far device s).value.status = lfSuccess ∧
      sent (access.perform far device s).trace =
        [s.1.load (state + (operands access.m 1).setWidth 64) access.length] ∧
      (access.perform far device s).state.1 = s.1 := by
  rw [← operandState_eq] at found
  have performed : access.perform far device s =
      (fmrPull device access.m 0 LfErr.eOk.code).run (onMemory far) s := by
    rw [Access.perform, Access.handler, pull]
  rw [performed, fmrPull, found]
  obtain ⟨status, kept⟩ := writes
    (s.1.load (state + (operands access.m 1).setWidth 64) access.length) s
  exact ⟨status, rfl, kept⟩

/-- The address of a byte of a range. -/
theorem rangeAddress (state : BitVec 64) (access : Access) (i : Nat) :
    state + (operands access.m 1).setWidth 64 + BitVec.ofNat 64 i =
      state + BitVec.ofNat 64 (access.index + i) := by
  have index : (operands access.m 1).setWidth 64 = BitVec.ofNat 64 access.index := by
    apply BitVec.eq_of_toNat_eq
    rw [BitVec.toNat_setWidth, BitVec.toNat_ofNat]
    rfl
  rw [index, BitVec.ofNat_add, add_assoc]

variable {size : Nat → Nat}

theorem covered_distance (apart : StatesApart device size) (inside : offset < size module)
    (covers : access.Covers module offset) (state : BitVec 64) :
    (state + BitVec.ofNat 64 offset - (state + (operands access.m 1).setWidth 64)).toNat =
      offset - access.index := by
  obtain ⟨_, lower, _⟩ := covers
  have address := rangeAddress state access (offset - access.index)
  rw [Nat.add_sub_cancel' lower] at address
  have fits := apart.fits module
  rw [← address, AddressSpace.offset_toNat _ (by omega)]

/-- A byte of a state that lies in a range is one the range covers. -/
theorem covers_of_distance (apart : StatesApart device size)
    (named : stateAt device access.module = some state')
    (found : stateAt device module = some state) (inside : offset < size module)
    (inRange : access.index + access.length ≤ size access.module)
    (within : (state + BitVec.ofNat 64 offset -
      (state' + (operands access.m 1).setWidth 64)).toNat <
      access.length) : access.Covers module offset := by
  generalize distance : state + BitVec.ofNat 64 offset -
    (state' + (operands access.m 1).setWidth 64) = d at within
  have address : state + BitVec.ofNat 64 offset = state' + BitVec.ofNat 64
      (access.index + d.toNat) := by
    rw [← rangeAddress, BitVec.ofNat_toNat, BitVec.setWidth_eq, ← distance, add_sub_cancel]
  by_cases same : module = access.module
  · subst same
    obtain rfl := Option.some.inj (found.symm.trans named)
    have fits := apart.fits access.module
    have offsets := congrArg BitVec.toNat (add_left_cancel address)
    rw [BitVec.toNat_ofNat, BitVec.toNat_ofNat, Nat.mod_eq_of_lt (by omega),
      Nat.mod_eq_of_lt (by omega)] at offsets
    exact ⟨rfl, by omega, by omega⟩
  · exact absurd address (apart.apart module access.module state state' offset _ same found named
      inside (by omega))

/-- A byte of a state holds afterwards what the access pushed to it, or what it held. -/
theorem perform_update (writes : WritesSucceed far) (apart : StatesApart device size)
    (inRange : access.InRange device size) (found : stateAt device module = some state)
    (inside : offset < size module) :
    (access.perform far device s).state.1 (state + BitVec.ofNat 64 offset) =
      access.update module offset (s.1 (state + BitVec.ofNat 64 offset)) := by
  cases named : stateAt device access.module with
  | none =>
    have outside : ¬access.Covers module offset := by
      rintro ⟨rfl, _⟩
      rw [named] at found
      cases found
    rw [perform_refused s named, Access.update, if_neg fun both => outside both.2]
  | some state' =>
    cases kind : access.kind with
    | pull =>
      have reads : ¬(access.kind = .push ∧ access.Covers module offset) := by simp [kind]
      rw [(perform_pull s writes kind named).2.2, Access.update, if_neg reads]
    | push =>
      rw [(perform_push s kind named).2.2, Access.update]
      dsimp only
      by_cases covers : access.Covers module offset
      · obtain rfl : state = state' := by
          rw [covers.1, named] at found
          exact (Option.some.inj found).symm
        have distance := covered_distance apart inside covers state
        have range := covers.2
        rw [if_pos ⟨kind, covers⟩,
          AddressSpace.store_inside _ (by rw [Mem.slice_length, distance]; omega)]
        simp only [distance]
        simp [Mem.slice, Access.data]
      · rw [if_neg fun both => covers both.2]
        apply AddressSpace.store_outside
        rw [Mem.slice_length]
        by_contra within
        exact covers (covers_of_distance apart named found inside (inRange state' named).2
          (Nat.lt_of_not_le within))

/-- So do the bytes of a state over a whole run. -/
theorem afterAll_latest (writes : WritesSucceed far) (apart : StatesApart device size)
    (accesses : List Access) (inRange : ∀ access ∈ accesses, access.InRange device size)
    (found : stateAt device module = some state) (inside : offset < size module) :
    (afterAll far device s accesses).1 (state + BitVec.ofNat 64 offset) =
      latest module offset (s.1 (state + BitVec.ofNat 64 offset)) accesses := by
  induction accesses generalizing s with
  | nil => rfl
  | cons access rest ih =>
    have step := perform_update s writes apart (inRange access List.mem_cons_self) found inside
    have later := ih (access.perform far device s).state fun access member =>
      inRange access (List.mem_cons_of_mem _ member)
    rw [step] at later
    exact later

end Run

/-- After any run of accesses, one more: refused without effect when it names no state; a
push changes the bytes of its range and no others of any state; a pull sends, byte by byte,
what was pushed last. -/
theorem state_array {σ : Type} (far : World fmr (AddressSpace 64 × σ)) (device : LfDevice)
    (size : Nat → Nat)
    (writes : WritesSucceed far) (apart : StatesApart device size) (s : AddressSpace 64 × σ)
    (earlier : List Access) (access : Access)
    (inRange : ∀ each ∈ earlier ++ [access], each.InRange device size) :
    let before := afterAll far device s earlier
    let outcome := access.perform far device before
    (stateAt device access.module = none →
      outcome.value.status = lfError ∧ outcome.trace = [] ∧ outcome.state = before) ∧
    (∀ state, stateAt device access.module = some state → access.kind = .push →
      outcome.value.status = lfSuccess ∧ sent outcome.trace = [] ∧
      ∀ module state' offset, stateAt device module = some state' → offset < size module →
        outcome.state.1 (state' + BitVec.ofNat 64 offset) =
          if access.Covers module offset then access.data (offset - access.index)
          else before.1 (state' + BitVec.ofNat 64 offset)) ∧
    ∀ state, stateAt device access.module = some state → access.kind = .pull →
      outcome.value.status = lfSuccess ∧ outcome.state.1 = before.1 ∧
      sent outcome.trace = [(List.range access.length).map fun i =>
        latest access.module (access.index + i) (s.1 (state + BitVec.ofNat 64 (access.index + i)))
          earlier] := by
  intro before outcome
  have own : access.InRange device size := inRange access (by simp)
  have others : ∀ each ∈ earlier, each.InRange device size := fun each member =>
    inRange each (List.mem_append_left _ member)
  refine ⟨fun missing => ?_, fun state named push => ?_, fun state named pull => ?_⟩
  · have refused : outcome = _ := perform_refused before missing
    exact ⟨congrArg (HandlerReturn.status ∘ Outcome.value) refused, congrArg Outcome.trace refused,
      congrArg Outcome.state refused⟩
  · have pushed : outcome.value.status = lfSuccess ∧ sent outcome.trace = [] ∧ _ :=
      perform_push before push named
    obtain ⟨status, silent, _⟩ := pushed
    refine ⟨status, silent, fun module state' offset found inside => ?_⟩
    rw [perform_update before writes apart own found inside, Access.update]
    simp only [push, true_and]
  · obtain ⟨status, written, kept⟩ := perform_pull before writes pull named
    refine ⟨status, kept, ?_⟩
    rw [written, AddressSpace.load, cells, List.map_map]
    congr 1
    apply List.map_congr_left
    intro i member
    have less := List.mem_range.mp member
    have inside : access.index + i < size access.module := by
      have range := (own state named).2
      omega
    rw [← afterAll_latest s writes apart earlier others named inside, ← rangeAddress]
    rfl

/-- A device with one module, whose state is four bytes. -/
def oneState : LfDevice := ⟨[{ dacModule with state := some 0x1000 }]⟩

theorem oneState_apart : StatesApart oneState fun _ => 4 := by
  refine ⟨fun _ => by decide, fun module module' state state' _ _ other found found' _ _ => ?_⟩
  -- Only one position has a state.
  cases module with
  | zero =>
    cases module' with
    | zero => exact absurd rfl other
    | succ module' => cases found'
  | succ module => cases found

def accessOf (kind : AccessKind) (operands : List Byte) : Access :=
  ⟨kind, fun i => operands.getD (i - fmrPacketSize) 0⟩

/-- A byte pushed to the second place shows in a pull of the first two. -/
theorem state_array_pull :
    sent ((accessOf .pull [0, 0, 2]).perform recording oneState
      (afterAll recording oneState (fun _ => 0, 0) [accessOf .push [0, 1, 1, 7]])).trace =
        [[0, 7]] := by
  have array := state_array recording oneState (fun _ => 4) (fun _ _ => ⟨rfl, rfl⟩) oneState_apart
    (fun _ => 0, 0) [accessOf .push [0, 1, 1, 7]] (accessOf .pull [0, 0, 2])
    (by simp [Access.InRange, accessOf, Access.length, Access.index, operands, fmrPacketSize])
  exact (array.2.2 0x1000 rfl rfl).2.2

end Flipper.Fmr
