import Flipper.Fmr.Module
import Flipper.Linked.Chain
import Mathlib.Data.List.Perm.Subperm

/-! The lists of `lib/ll.c` as the code has them, nodes in a store that it links, walks and
frees. On every chain of nodes the functions compute what `Fmr.Module` takes them for on the
sequence of items. -/
namespace Flipper.Lib
open Linked Binary

/-- A pointer; 0 is `NULL`. The code also counts nodes in a `size_t` of this width. -/
abbrev Ptr (w : Nat) := BitVec w

structure Held (w : Nat) where
  item : Ptr w
  deconstructor : Ptr w
  deriving DecidableEq

abbrev LlStore (w : Nat) := Store (Ptr w) (Held w)

inductive LlEvent (w : Nat) where
  | deconstruct (deconstructor item : Ptr w)
  | free (node : Ptr w)
  deriving DecidableEq

/-- The nodes, what has been done with items and nodes so far, and `_lf_err`. -/
structure Heap (w : Nat) where
  store : LlStore w
  events : List (LlEvent w)
  err : Byte

/-- What a deconstructor does to the store. Its own call is the last of the events. A
deconstructor may release lists of its item, so it is not taken to leave the store alone. -/
abbrev Effects (w : Nat) := List (LlEvent w) → LlStore w → LlStore w

section Functions
variable {w : Nat}

def countLoop (store : LlStore w) : Nat → Ptr w → BitVec w → Option (BitVec w)
  | 0, _, _ => none
  | fuel + 1, ll, count =>
    if ll = 0 then some count
    else do
      let node ← store ll
      countLoop store fuel node.next (count + 1)

def lfLlCount (fuel : Nat) (s : Heap w) (ll : Ptr w) : Option (BitVec w) :=
  countLoop s.store fuel ll 0

/-- `while (head->next) head = head->next`. -/
def lastNode (store : LlStore w) : Nat → Ptr w → Option (Ptr w)
  | 0, _ => none
  | fuel + 1, head => do
    let node ← store head
    if node.next = 0 then some head else lastNode store fuel node.next

/-- The common end of `lf_ll_append` and `lf_ll_concat`, with what `*_ll` is after it. -/
def linkLast (fuel : Nat) (store : LlStore w) (head more : Ptr w) : Option (Ptr w × LlStore w) :=
  if head = 0 then some (more, store)
  else do
    let last ← lastNode store fuel head
    let node ← store last
    some (head, Function.update store last (some { node with next := more }))

/-- `lf_ll_append`, given what its allocation returns. No head is a `NULL` reference. -/
def lfLlAppend (fuel : Nat) (s : Heap w) (ll new : Option (Ptr w)) (item deconstructor : Ptr w) :
    Option (Int × Option (Ptr w) × Heap w) :=
  match ll, new with
  | some head, some new => do
    let store := Function.update s.store new (some ⟨⟨item, deconstructor⟩, 0⟩)
    let (head, store) ← linkLast fuel store head new
    some (Fmr.lfSuccess, some head, { s with store })
  | ll, _ => some (Fmr.lfError, ll, s)

def assertNull (s : Heap w) : Heap w := { s with err := Fmr.lfErrorSet .eNull }

def lfLlConcat (fuel : Nat) (s : Heap w) (lla : Option (Ptr w)) (llb : Ptr w) :
    Option (Int × Option (Ptr w) × Heap w) :=
  match lla with
  | none => some (Fmr.lfError, none, assertNull s)
  | some head => do
    let (head, store) ← linkLast fuel s.store head llb
    some (Fmr.lfSuccess, some head, { s with store })

/-- `while (index-- && ll) ll = ll->next`. -/
def itemLoop (store : LlStore w) : Nat → Ptr w → BitVec w → Option (Ptr w)
  | 0, _, _ => none
  | fuel + 1, ll, index =>
    if index = 0 ∨ ll = 0 then some ll
    else do
      let node ← store ll
      itemLoop store fuel node.next (index - 1)

def lfLlItem (fuel : Nat) (s : Heap w) (ll : Ptr w) (index : BitVec w) :
    Option (Ptr w × Heap w) := do
  let ll ← itemLoop s.store fuel ll index
  if ll = 0 then some (0, assertNull s)
  else do
    let node ← s.store ll
    some (node.payload.item, s)

variable (effects : Effects w)

def deconstruct (s : Heap w) (held : Held w) : Heap w :=
  let events := s.events ++ [.deconstruct held.deconstructor held.item]
  { s with store := effects events s.store, events }

def free (s : Heap w) (node : Ptr w) : Option (Heap w) := do
  let _ ← s.store node
  some { s with store := Function.update s.store node none, events := s.events ++ [.free node] }

def lfLlFreeNode (s : Heap w) (ll : Ptr w) : Option (Heap w) :=
  if ll = 0 then some s
  else do
    let node ← s.store ll
    let s := if node.payload.deconstructor ≠ 0 then deconstruct effects s node.payload else s
    free s ll

/-- `lf_ll_remove` at a node to delete: the node before it, or `*_ll`, is linked past it, it
is freed, and the walk goes on at that link. -/
def removeNode (s : Heap w) (head prev current next : Ptr w) : Option (Ptr w × Ptr w × Heap w) :=
  if prev = 0 then do
    let s ← lfLlFreeNode effects s current
    some (next, next, s)
  else do
    let before ← s.store prev
    let s := { s with store := Function.update s.store prev (some { before with next }) }
    let s ← lfLlFreeNode effects s current
    let before ← s.store prev
    some (head, before.next, s)

def removeLoop (item : Ptr w) : Nat → (head prev current : Ptr w) → Heap w → Option (Ptr w × Heap w)
  | 0, _, _, _, _ => none
  | fuel + 1, head, prev, current, s =>
    if current = 0 then some (head, s)
    else do
      let node ← s.store current
      if node.payload.item = item then do
        let (head, current, s) ← removeNode effects s head prev current node.next
        removeLoop item fuel head prev current s
      else removeLoop item fuel head current node.next s

def lfLlRemove (fuel : Nat) (s : Heap w) (ll : Option (Ptr w)) (item : Ptr w) :
    Option (Option (Ptr w) × Heap w) :=
  match ll with
  | none => some (none, assertNull s)
  | some head => do
    let (head, s) ← removeLoop effects item fuel head 0 head s
    some (some head, s)

def releaseLoop : Nat → Ptr w → Heap w → Option (Ptr w × Heap w)
  | 0, _, _ => none
  | fuel + 1, ll, s =>
    if ll = 0 then some (ll, s)
    else do
      let node ← s.store ll
      let s ← lfLlFreeNode effects s ll
      releaseLoop fuel node.next s

def lfLlRelease (fuel : Nat) (s : Heap w) (ll : Option (Ptr w)) :
    Option (Int × Option (Ptr w) × Heap w) :=
  match ll with
  | none => some (Fmr.lfError, none, assertNull s)
  | some head => do
    let (head, s) ← releaseLoop effects fuel head s
    some (Fmr.lfSuccess, some head, s)

end Functions

section Reading
variable {w : Nat} {store : LlStore w} {entries : List (Ptr w × Held w)}

/-- The nodes of a chain have different addresses other than `NULL`, so a `size_t` counts
them. -/
theorem length_lt (chain : Chain 0 store entries) : entries.length < 2 ^ w := by
  have distinct : (0 :: addresses entries).Nodup :=
    List.nodup_cons.mpr ⟨fun null => chain.ne_null 0 null rfl, chain.nodup⟩
  have numbers := distinct.map (f := BitVec.toNat) (fun _ _ => BitVec.eq_of_toNat_eq)
  have bounded : (0 :: addresses entries).map BitVec.toNat ⊆ List.range (2 ^ w) := by
    intro number member
    obtain ⟨address, _, rfl⟩ := List.mem_map.mp member
    exact List.mem_range.mpr address.isLt
  have counted := (List.subperm_of_subset numbers bounded).length_le
  simp only [List.length_map, List.length_cons, List.length_range, addresses] at counted
  omega

theorem countLoop_eq (chain : Chain 0 store entries) (enough : entries.length < fuel)
    (count : BitVec w) :
    countLoop store fuel (headOf 0 entries) count =
      some (count + BitVec.ofNat w entries.length) := by
  induction entries generalizing fuel count with
  | nil =>
    obtain ⟨fuel, rfl⟩ := Nat.exists_eq_add_of_lt enough
    simp [countLoop, headOf]
  | cons entry rest ih =>
    obtain ⟨fuel, rfl⟩ := Nat.exists_eq_succ_of_ne_zero (Nat.ne_zero_of_lt enough)
    obtain ⟨record, allocated, _, chain⟩ := chain
    rw [countLoop, headOf, if_neg allocated, record, Option.bind_eq_bind, Option.bind_some,
      ih chain (Nat.lt_of_succ_lt_succ enough)]
    rw [List.length_cons, Nat.add_comm, BitVec.ofNat_add, BitVec.add_assoc]
    rfl

theorem itemLoop_eq (chain : Chain 0 store entries) (enough : entries.length < fuel)
    (index : BitVec w) :
    itemLoop store fuel (headOf 0 entries) index = some (headOf 0 (entries.drop index.toNat)) := by
  induction entries generalizing fuel index with
  | nil =>
    obtain ⟨fuel, rfl⟩ := Nat.exists_eq_add_of_lt enough
    simp [itemLoop, headOf]
  | cons entry rest ih =>
    obtain ⟨fuel, rfl⟩ := Nat.exists_eq_succ_of_ne_zero (Nat.ne_zero_of_lt enough)
    obtain ⟨record, allocated, _, chain⟩ := chain
    by_cases zero : index = 0
    · simp [itemLoop, zero]
    · have positive : index.toNat ≠ 0 := fun same => zero (BitVec.eq_of_toNat_eq same)
      have below : (index - 1).toNat + 1 = index.toNat := by
        have large : 1 < 2 ^ w :=
          Nat.lt_of_le_of_lt (Nat.one_le_iff_ne_zero.mpr positive) index.isLt
        have one : (1 : BitVec w).toNat = 1 := Nat.mod_eq_of_lt large
        have le : (1 : BitVec w) ≤ index := by
          rw [BitVec.le_def, one]
          omega
        rw [BitVec.toNat_sub_of_le le, one]
        omega
      have stays : ¬(index = 0 ∨ entry.1 = 0) := not_or.mpr ⟨zero, allocated⟩
      rw [itemLoop, headOf, if_neg stays, record, Option.bind_eq_bind, Option.bind_some,
        ih chain (Nat.lt_of_succ_lt_succ enough), ← below, List.drop_succ_cons]

theorem lastNode_eq {before : List (Ptr w × Held w)} (chain : Chain 0 store (before ++ [last]))
    (enough : before.length < fuel) :
    lastNode store fuel (headOf 0 (before ++ [last])) = some last.1 := by
  induction before generalizing fuel with
  | nil =>
    obtain ⟨fuel, rfl⟩ := Nat.exists_eq_succ_of_ne_zero (Nat.ne_zero_of_lt enough)
    rw [List.nil_append] at chain ⊢
    rw [lastNode, headOf, chain.1]
    rfl
  | cons entry rest ih =>
    obtain ⟨fuel, rfl⟩ := Nat.exists_eq_succ_of_ne_zero (Nat.ne_zero_of_lt enough)
    obtain ⟨record, _, _, chain⟩ := chain
    have more : headOf 0 (rest ++ [last]) ≠ 0 := by
      cases rest <;> exact chain.2.1
    rw [List.cons_append, lastNode, headOf, record, Option.bind_eq_bind, Option.bind_some]
    exact (if_neg more).trans (ih chain (Nat.lt_of_succ_lt_succ enough))

/-- Linking a second chain behind the last node, or as the list if there is none. -/
theorem linkLast_eq (chain : Chain 0 store entries) (more : Chain 0 store others)
    (disjoint : ∀ address ∈ addresses entries, address ∉ addresses others) :
    ∃ linked, (∀ fuel, entries.length < fuel →
        linkLast fuel store (headOf 0 entries) (headOf 0 others) =
          some (headOf 0 (entries ++ others), linked)) ∧
      Chain 0 linked (entries ++ others) ∧ ∀ address ∉ addresses entries,
        linked address = store address := by
  rcases List.eq_nil_or_concat' entries with rfl | ⟨before, last, rfl⟩
  · exact ⟨store, fun _ _ => if_pos rfl, more, fun _ _ => rfl⟩
  · have last_chain : Chain 0 store [last] := chain.suffix_chain
    have first : headOf 0 (before ++ [last]) ≠ 0 := by
      cases before <;> exact chain.2.1
    refine ⟨Function.update store last.1 (some ⟨last.2, headOf 0 others⟩),
      fun fuel enough => ?_, ?_, ?_⟩
    · rw [List.length_append] at enough
      have walked := lastNode_eq chain (Nat.lt_of_add_right_lt enough)
      rw [linkLast, if_neg first, walked, Option.bind_eq_bind, Option.bind_some, last_chain.1,
        Option.bind_eq_bind, Option.bind_some, List.append_assoc]
      exact congrArg (fun head => some (head, _)) (headOf_append_cons before [] others last)
    · rw [List.append_assoc]
      exact chain.relink more disjoint
    · intro address outside
      apply Function.update_of_ne
      rintro rfl
      exact outside (by simp)

end Reading

/-- What happens to a node that is deleted, in order. -/
def freeing (entry : Ptr w × Held w) : List (LlEvent w) :=
  (if entry.2.deconstructor ≠ 0 then [.deconstruct entry.2.deconstructor entry.2.item] else []) ++
    [.free entry.1]

/-- The deconstructors leave the node at this address as it is. -/
def Keeps (effects : Effects w) (address : Ptr w) : Prop :=
  ∀ events store record, store address = some record → effects events store address = some record

/-- The deconstructors leave the address as it is, with a node there or without. -/
def Spares (effects : Effects w) (address : Ptr w) : Prop :=
  ∀ events store, effects events store address = store address

/-- Of a chain these entries were deleted, in this order and nothing else, and those are
left. -/
structure Deletes (effects : Effects w) (s after : Heap w) (kept deleted : List (Ptr w × Held w)) :
    Prop where
  chain : Chain 0 after.store kept
  events : after.events = s.events ++ deleted.flatMap freeing
  err : after.err = s.err
  others : ∀ address, Spares effects address → address ∉ addresses kept →
    after.store address = if address ∈ addresses deleted then none else s.store address

section Deleting
variable {w : Nat} {effects : Effects w} {s : Heap w} {kept deleted rest : List (Ptr w × Held w)}

theorem Deletes.nothing (chain : Chain 0 s.store kept) : Deletes effects s s kept [] :=
  ⟨chain, by simp, rfl, by simp⟩

/-- A first deletion and those after it. -/
theorem Deletes.trans {middle after : Heap w} (first : Deletes effects s middle rest [entry])
    (second : Deletes effects middle after kept deleted)
    (covered : ∀ address ∈ addresses rest, address ∈ addresses kept ∨ address ∈ addresses deleted) :
    Deletes effects s after kept (entry :: deleted) := by
  refine ⟨second.chain, ?_, second.err.trans first.err, ?_⟩
  · rw [second.events, first.events]
    simp
  · intro address spares outside
    rw [second.others address spares outside]
    by_cases later : address ∈ addresses deleted
    · simp [later]
    · have gone : address ∉ addresses rest :=
        fun inside => (covered address inside).elim outside later
      simp [later, first.others address spares gone]

/-- `lf_ll_free_node` of a node that is linked from nowhere in the chain any more. -/
theorem lfLlFreeNode_eq (chain : Chain 0 s.store kept)
    (record : s.store entry.1 = some ⟨entry.2, next⟩)
    (allocated : entry.1 ≠ 0) (unlinked : entry.1 ∉ addresses kept)
    (keeps : ∀ address ∈ entry.1 :: addresses kept, Keeps effects address) :
    ∃ after, lfLlFreeNode effects s entry.1 = some after ∧
      Deletes effects s after kept [entry] := by
  set called := if entry.2.deconstructor ≠ 0 then deconstruct effects s entry.2 else s with call
  have held : ∀ address ∈ entry.1 :: addresses kept, ∀ record, s.store address = some record →
      called.store address = some record := by
    intro address member record present
    rw [call]
    split
    · exact keeps address member _ _ _ present
    · exact present
  have spared : ∀ address, Spares effects address → called.store address = s.store address := by
    intro address spares
    rw [call]
    split
    · exact spares _ _
    · rfl
  have still := held entry.1 List.mem_cons_self _ record
  refine ⟨{ called with
      store := Function.update called.store entry.1 none
      events := called.events ++ [.free entry.1] }, ?_, ?_, ?_, ?_, ?_⟩
  · rw [lfLlFreeNode, if_neg allocated, record, Option.bind_eq_bind, Option.bind_some]
    change free called entry.1 = _
    rw [free, still, Option.bind_eq_bind, Option.bind_some]
  · exact (chain.kept fun address member => held address (List.mem_cons_of_mem _ member)).update_off
      unlinked _
  · rw [call, List.flatMap_singleton, freeing]
    split <;> simp [deconstruct]
  · rw [call]
    split <;> rfl
  · intro address spares _
    by_cases same : address = entry.1
    · simp [same]
    · simp [same, spared address spares]

/-- One deletion of `lf_ll_remove`, at any place of the chain. -/
theorem removeNode_eq {before : List (Ptr w × Held w)}
    (chain : Chain 0 s.store (before ++ entry :: rest))
    (keeps : ∀ address ∈ addresses (before ++ entry :: rest), Keeps effects address) :
    ∃ after, removeNode effects s (headOf 0 (before ++ entry :: rest))
      (headOf 0 before.reverse) entry.1
          (headOf 0 rest) = some (headOf 0 (before ++ rest), headOf 0 rest, after) ∧
      Deletes effects s after (before ++ rest) [entry] := by
  have suffix := chain.suffix_chain
  obtain ⟨record, allocated, unlinked, chain_rest⟩ := suffix
  rcases List.eq_nil_or_concat' before with rfl | ⟨front, prev, rfl⟩
  · obtain ⟨after, freed, deletes⟩ := lfLlFreeNode_eq chain_rest record allocated unlinked keeps
    refine ⟨after, ?_, deletes⟩
    rw [removeNode, List.reverse_nil, headOf, if_pos rfl, freed]
    rfl
  · have off := chain.not_mem_others
    rw [List.append_assoc, List.singleton_append] at chain
    obtain ⟨before_record, before_allocated, _, _⟩ := chain.suffix_chain
    -- The node before is linked past the deleted one, which keeps its own record.
    set passed : Heap w :=
      { s with store := Function.update s.store prev.1 (some ⟨prev.2, headOf 0 rest⟩) } with pass
    have linked : Chain 0 passed.store (front ++ [prev] ++ rest) := by
      rw [List.append_assoc]
      exact chain.unlink
    have apart : entry.1 ≠ prev.1 := fun same => off (by simp [same])
    have same_record : passed.store entry.1 = some ⟨entry.2, headOf 0 rest⟩ :=
      (Function.update_of_ne apart _ _).trans record
    have keeps_all : ∀ address ∈ entry.1 :: addresses (front ++ [prev] ++ rest),
        Keeps effects address := by
      intro address member
      apply keeps address
      rcases List.mem_cons.mp member with rfl | member
      · simp
      · exact mem_addresses_insert entry member
    obtain ⟨after, freed, deletes⟩ := lfLlFreeNode_eq linked same_record allocated off keeps_all
    have relinked : after.store prev.1 = some ⟨prev.2, headOf 0 rest⟩ := by
      have chain := deletes.chain
      rw [List.append_assoc] at chain
      exact chain.suffix_chain.1
    refine ⟨after, ?_, deletes.chain, deletes.events, deletes.err, ?_⟩
    · have back : headOf 0 (front ++ [prev]).reverse = prev.1 := by simp [headOf]
      rw [removeNode, back, if_neg before_allocated, before_record, Option.bind_eq_bind,
        Option.bind_some]
      change (lfLlFreeNode effects passed entry.1).bind _ = _
      rw [freed, Option.bind_some, relinked]
      simp only [List.append_assoc]
      exact congrArg (fun head => some (head, headOf 0 rest, after))
        (headOf_append_cons front _ _ prev)
    · intro address spares outside
      have other : address ≠ prev.1 := fun same => outside (by simp [same])
      rw [deletes.others address spares outside, pass]
      simp [other]

theorem mem_addresses_split (item : Ptr w) (member : address ∈ addresses rest) :
    address ∈ addresses (rest.filter (·.2.item ≠ item)) ∨
    address ∈ addresses (rest.filter (·.2.item = item)) := by
  obtain ⟨entry, inside, rfl⟩ := List.mem_map.mp member
  by_cases matched : entry.2.item = item
  · exact Or.inr (List.mem_map_of_mem (List.mem_filter.mpr ⟨inside, decide_eq_true matched⟩))
  · exact Or.inl (List.mem_map_of_mem (List.mem_filter.mpr ⟨inside, decide_eq_true matched⟩))

/-- The walk of `lf_ll_remove` from any place on: before it is what has been kept. -/
theorem removeLoop_eq {before : List (Ptr w × Held w)} (item : Ptr w)
    (chain : Chain 0 s.store (before ++ rest))
    (keeps : ∀ address ∈ addresses (before ++ rest), Keeps effects address) :
    ∃ after, (∀ fuel, rest.length < fuel →
        removeLoop effects item fuel (headOf 0 (before ++ rest)) (headOf 0 before.reverse)
          (headOf 0 rest) s =
          some (headOf 0 (before ++ rest.filter (·.2.item ≠ item)), after)) ∧
      Deletes effects s after (before ++ rest.filter (·.2.item ≠ item))
        (rest.filter (·.2.item = item)) := by
  induction rest generalizing before s with
  | nil =>
    refine ⟨s, fun fuel enough => ?_, .nothing chain⟩
    obtain ⟨fuel, rfl⟩ := Nat.exists_eq_succ_of_ne_zero (Nat.ne_zero_of_lt enough)
    exact if_pos rfl
  | cons entry rest ih =>
    obtain ⟨record, allocated, _, _⟩ := chain.suffix_chain
    have head : headOf 0 (entry :: rest) = entry.1 := rfl
    by_cases matched : entry.2.item = item
    · obtain ⟨middle, removed, first⟩ := removeNode_eq chain keeps
      have keeps_rest : ∀ address ∈ addresses (before ++ rest), Keeps effects address :=
        fun address member => keeps address (mem_addresses_insert entry member)
      obtain ⟨after, returns, later⟩ := ih first.chain keeps_rest
      simp only [List.filter_cons, matched, ne_eq, not_true, decide_true, decide_false, if_true,
        Bool.false_eq_true, if_false]
      refine ⟨after, fun fuel enough => ?_, first.trans later ?_⟩
      · obtain ⟨fuel, rfl⟩ := Nat.exists_eq_succ_of_ne_zero (Nat.ne_zero_of_lt enough)
        rw [removeLoop, head, if_neg allocated, record, Option.bind_eq_bind, Option.bind_some]
        change (if entry.2.item = item then _ else _) = _
        rw [if_pos matched, removed]
        exact returns fuel (Nat.lt_of_succ_lt_succ enough)
      · intro address member
        rw [addresses_append, List.mem_append] at member ⊢
        rcases member with earlier | later
        · exact Or.inl (Or.inl earlier)
        · exact (mem_addresses_split item later).imp_left Or.inr
    · have shifted : before ++ [entry] ++ rest = before ++ entry :: rest :=
        List.append_assoc before [entry] rest
      rw [← shifted] at chain keeps
      obtain ⟨after, returns, deletes⟩ := ih chain keeps
      simp only [List.filter_cons, matched, ne_eq, not_false_eq_true, decide_true, decide_false,
        if_true, Bool.false_eq_true, if_false]
      rw [List.append_assoc] at deletes
      refine ⟨after, fun fuel enough => ?_, deletes⟩
      obtain ⟨fuel, rfl⟩ := Nat.exists_eq_succ_of_ne_zero (Nat.ne_zero_of_lt enough)
      have walked := returns fuel (Nat.lt_of_succ_lt_succ enough)
      rw [shifted, List.reverse_append, List.append_assoc] at walked
      rw [removeLoop, head, if_neg allocated, record, Option.bind_eq_bind, Option.bind_some]
      change (if entry.2.item = item then _ else _) = _
      rw [if_neg matched]
      exact walked

theorem releaseLoop_eq (chain : Chain 0 s.store rest)
    (keeps : ∀ address ∈ addresses rest, Keeps effects address) :
    ∃ after, (∀ fuel, rest.length < fuel → releaseLoop effects fuel (headOf 0 rest) s =
      some (0, after)) ∧
      Deletes effects s after [] rest := by
  induction rest generalizing s with
  | nil =>
    refine ⟨s, fun fuel enough => ?_, .nothing trivial⟩
    obtain ⟨fuel, rfl⟩ := Nat.exists_eq_succ_of_ne_zero (Nat.ne_zero_of_lt enough)
    exact if_pos rfl
  | cons entry rest ih =>
    obtain ⟨record, allocated, unlinked, chain⟩ := chain
    obtain ⟨middle, freed, first⟩ := lfLlFreeNode_eq chain record allocated unlinked keeps
    obtain ⟨after, returns, later⟩ := ih first.chain fun address member =>
      keeps address (List.mem_cons_of_mem _ member)
    refine ⟨after, fun fuel enough => ?_, first.trans later fun _ member => Or.inr member⟩
    obtain ⟨fuel, rfl⟩ := Nat.exists_eq_succ_of_ne_zero (Nat.ne_zero_of_lt enough)
    have head : headOf 0 (entry :: rest) = entry.1 := rfl
    rw [releaseLoop, head, if_neg allocated, record, Option.bind_eq_bind, Option.bind_some, freed]
    exact returns fuel (Nat.lt_of_succ_lt_succ enough)

end Deleting

section Refinement
variable {w : Nat} {s : Heap w} {entries : List (Ptr w × Held w)}

theorem lfLlCount_refines (chain : Chain 0 s.store entries) (enough : entries.length < fuel) :
    (lfLlCount fuel s (headOf 0 entries)).map BitVec.toNat = some entries.length := by
  rw [lfLlCount, countLoop_eq chain enough, Option.map_some]
  change some (0#w + BitVec.ofNat w entries.length).toNat = _
  rw [BitVec.zero_add, BitVec.toNat_ofNat, Nat.mod_eq_of_lt (length_lt chain)]

theorem lfLlItem_refines (chain : Chain 0 s.store entries) (enough : entries.length < fuel)
    (index : BitVec w) :
    lfLlItem fuel s (headOf 0 entries) index =
      some (((Fmr.lfLlItem entries index.toNat s.err).1.map (·.2.item)).getD 0,
        { s with err := (Fmr.lfLlItem entries index.toNat s.err).2 }) := by
  have walked := itemLoop_eq chain enough index
  have split := List.take_append_drop index.toNat entries
  have found : entries[index.toNat]? = (entries.drop index.toNat).head? := by simp
  rw [lfLlItem, walked, Option.bind_eq_bind, Option.bind_some, Fmr.lfLlItem, found]
  cases rest : entries.drop index.toNat with
  | nil => rfl
  | cons entry rest_entries =>
    rw [rest] at split
    rw [← split] at chain
    obtain ⟨record, allocated, _, _⟩ := chain.suffix_chain
    exact (if_neg allocated).trans (congrArg (Option.bind · _) record)

theorem lfLlAppend_refines (chain : Chain 0 s.store entries) (item deconstructor : Ptr w)
    (allocated : new ≠ 0) (fresh : s.store new = none) :
    ∃ after, (∀ fuel, entries.length < fuel →
        lfLlAppend fuel s (some (headOf 0 entries)) (some new) item deconstructor =
          some (Fmr.lfSuccess, some (headOf 0 (entries ++ [(new, ⟨item, deconstructor⟩)])),
            { s with store := after })) ∧
      Chain 0 after (entries ++ [(new, ⟨item, deconstructor⟩)]) ∧
      ∀ address, address ≠ new → address ∉ addresses entries → after address = s.store address := by
  have off : new ∉ addresses entries := fun member => chain.allocated new member fresh
  set record : Node (Ptr w) (Held w) := ⟨⟨item, deconstructor⟩, 0⟩
  have added : Chain 0 (Function.update s.store new (some record)) [(new, ⟨item, deconstructor⟩)] :=
    ⟨Function.update_self _ _ _, allocated, List.not_mem_nil, trivial⟩
  have apart : ∀ address ∈ addresses entries,
      address ∉ addresses [(new, (⟨item, deconstructor⟩ : Held w))] := by
    intro address member same
    obtain rfl : address = new := List.mem_singleton.mp same
    exact off member
  obtain ⟨after, links, linked, others⟩ :=
    linkLast_eq (chain.update_off off (some record)) added apart
  refine ⟨after, fun fuel enough => ?_, linked, fun address other outside => ?_⟩
  · rw [lfLlAppend]
    exact congrArg (Option.bind · _) (links fuel enough)
  · rw [others address outside, Function.update_of_ne other]

theorem lfLlConcat_refines {others : List (Ptr w × Held w)} (chain : Chain 0 s.store entries)
    (more : Chain 0 s.store others)
    (disjoint : ∀ address ∈ addresses entries, address ∉ addresses others) :
    ∃ after, (∀ fuel, entries.length < fuel →
      lfLlConcat fuel s (some (headOf 0 entries)) (headOf 0 others) =
        some (Fmr.lfSuccess, some (headOf 0 (Fmr.lfLlConcat entries others)),
          { s with store := after })) ∧
      Chain 0 after (Fmr.lfLlConcat entries others) ∧
      ∀ address ∉ addresses entries, after address = s.store address := by
  obtain ⟨after, links, linked, others⟩ := linkLast_eq chain more disjoint
  refine ⟨after, fun fuel enough => ?_, linked, others⟩
  rw [lfLlConcat]
  exact congrArg (Option.bind · _) (links fuel enough)

variable {effects : Effects w}

theorem lfLlRemove_refines (chain : Chain 0 s.store entries)
    (keeps : ∀ address ∈ addresses entries, Keeps effects address) (item : Ptr w) :
    ∃ after, (∀ fuel, entries.length < fuel →
      lfLlRemove effects fuel s (some (headOf 0 entries)) item =
        some (some (headOf 0 (Fmr.lfLlRemove (·.2.item) entries item).1), after)) ∧
      Deletes effects s after (Fmr.lfLlRemove (·.2.item) entries item).1
        (Fmr.lfLlRemove (·.2.item) entries item).2 := by
  rw [Fmr.lfLlRemove_eq]
  rw [← List.nil_append entries] at chain keeps
  obtain ⟨after, returns, deletes⟩ := removeLoop_eq item chain keeps
  refine ⟨after, fun fuel enough => ?_, deletes⟩
  exact congrArg (Option.bind · _) (returns fuel enough)

theorem lfLlRelease_refines (chain : Chain 0 s.store entries)
    (keeps : ∀ address ∈ addresses entries, Keeps effects address) :
    ∃ after, (∀ fuel, entries.length < fuel → lfLlRelease effects fuel s (some (headOf 0 entries)) =
        some (Fmr.lfSuccess, some (headOf 0 (Fmr.lfLlRelease entries).1), after)) ∧
      Deletes effects s after (Fmr.lfLlRelease entries).1 (Fmr.lfLlRelease entries).2 := by
  rw [Fmr.lfLlRelease_eq]
  obtain ⟨after, returns, deletes⟩ := releaseLoop_eq chain keeps
  refine ⟨after, fun fuel enough => ?_, deletes⟩
  exact congrArg (Option.bind · _) (returns fuel enough)

/-- On every chain of nodes the functions of `lib/ll.c` return, without an access to a node
that is not allocated, and are appending, concatenation, length, indexing and filtering of
the sequence of its entries. Nodes are deleted in the order of the list, each with one call
of its deconstructor if it has one. -/
theorem linked_list_refines_sequence (effects : Effects w) (s : Heap w)
    (entries : List (Ptr w × Held w)) (chain : Chain 0 s.store entries) :
    (∀ fuel, entries.length < fuel →
      (lfLlCount fuel s (headOf 0 entries)).map BitVec.toNat = some entries.length ∧
      (∀ (index : BitVec w) (entry : Ptr w × Held w), entries[index.toNat]? = some entry →
        lfLlItem fuel s (headOf 0 entries) index = some (entry.2.item, s)) ∧
      ∀ index : BitVec w, entries.length ≤ index.toNat →
        lfLlItem fuel s (headOf 0 entries) index = some (0, assertNull s)) ∧
    (∀ new item deconstructor : Ptr w, new ≠ 0 → s.store new = none → ∃ after,
      (∀ fuel, entries.length < fuel →
        lfLlAppend fuel s (some (headOf 0 entries)) (some new) item deconstructor =
          some (Fmr.lfSuccess, some (headOf 0 (entries ++ [(new, ⟨item, deconstructor⟩)])),
            { s with store := after })) ∧
      Chain 0 after (entries ++ [(new, ⟨item, deconstructor⟩)]) ∧
      ∀ address, address ≠ new → address ∉ addresses entries → after address = s.store address) ∧
    (∀ others : List (Ptr w × Held w), Chain 0 s.store others →
      (∀ address ∈ addresses entries, address ∉ addresses others) → ∃ after,
        (∀ fuel, entries.length < fuel →
          lfLlConcat fuel s (some (headOf 0 entries)) (headOf 0 others) =
          some (Fmr.lfSuccess, some (headOf 0 (entries ++ others)), { s with store := after })) ∧
        Chain 0 after (entries ++ others) ∧ ∀ address ∉ addresses entries,
          after address = s.store address) ∧
    ((∀ address ∈ addresses entries, Keeps effects address) →
      (∀ item : Ptr w, ∃ after,
        (∀ fuel, entries.length < fuel → lfLlRemove effects fuel s (some (headOf 0 entries)) item =
          some (some (headOf 0 (entries.filter (·.2.item ≠ item))), after)) ∧
        Deletes effects s after (entries.filter (·.2.item ≠ item))
          (entries.filter (·.2.item = item))) ∧
      ∃ after,
        (∀ fuel, entries.length < fuel → lfLlRelease effects fuel s (some (headOf 0 entries)) =
          some (Fmr.lfSuccess, some 0, after)) ∧
        Deletes effects s after [] entries) := by
  refine ⟨fun fuel enough => ⟨lfLlCount_refines chain enough, ?item, ?past⟩, ?append, ?concat,
    ?delete⟩
  case item =>
    intro index entry found
    rw [lfLlItem_refines chain enough, Fmr.lfLlItem, found]
    rfl
  case past =>
    intro index past
    rw [lfLlItem_refines chain enough, Fmr.lfLlItem, List.getElem?_eq_none past]
    rfl
  case append =>
    intro new item deconstructor allocated fresh
    exact lfLlAppend_refines chain item deconstructor allocated fresh
  case concat =>
    intro others more disjoint
    exact lfLlConcat_refines chain more disjoint
  case delete =>
    intro keeps
    have removed := lfLlRemove_refines chain keeps
    have released := lfLlRelease_refines chain keeps
    simp only [Fmr.lfLlRemove_eq] at removed
    rw [Fmr.lfLlRelease_eq] at released
    exact ⟨removed, released⟩

/-- Two nodes with one item, of which only the first has a deconstructor, and a third with
another item. -/
def threeNodes : Heap 8 where
  store
    | 1 => some ⟨⟨9, 7⟩, 2⟩
    | 2 => some ⟨⟨9, 0⟩, 3⟩
    | 3 => some ⟨⟨5, 7⟩, 0⟩
    | _ => none
  events := []
  err := 0

/-- Deconstructors that release a node of their own. -/
def releaseOwn : Effects 8 := fun _ store => Function.update store 40 none

theorem threeNodes_removed : ∃ after, lfLlRemove releaseOwn 4 threeNodes (some 1) 9 =
    some (some 3, after) ∧
    Chain 0 after.store [(3, ⟨5, 7⟩)] ∧ after.events = [.deconstruct 7 9, .free 1, .free 2] := by
  have chain : Chain 0 threeNodes.store [(1, ⟨9, 7⟩), (2, ⟨9, 0⟩), (3, ⟨5, 7⟩)] :=
    ⟨rfl, by decide, by decide, rfl, by decide, by decide, rfl, by decide, by decide, trivial⟩
  have keeps : ∀ address ∈ addresses [((1 : Ptr 8), (⟨9, 7⟩ : Held 8)), (2, ⟨9, 0⟩), (3, ⟨5, 7⟩)],
      Keeps releaseOwn address := by
    intro address member events store record held
    have other : address ≠ 40 := by
      rintro rfl
      exact absurd member (by decide)
    exact (Function.update_of_ne other _ _).trans held
  obtain ⟨_, _, _, deletes⟩ := linked_list_refines_sequence releaseOwn threeNodes _ chain
  obtain ⟨after, returns, removed⟩ := (deletes keeps).1 9
  exact ⟨after, returns 4 (by decide), removed.chain, removed.events⟩

end Refinement
end Flipper.Lib
