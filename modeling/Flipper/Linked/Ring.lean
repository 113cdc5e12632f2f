import Mathlib.Data.List.Nodup
import Mathlib.Data.List.Rotate
import Mathlib.Logic.Function.Iterate

/-! Records linked through a `next` pointer: chains, rings, and searches along them.
The pointers are a function, so a store is another function that differs at one node. -/
namespace Flipper.Linked

section Path
variable (next : α → α)

/-- Following `next` from `first` visits these nodes and then stands at `last`. -/
def Path : α → List α → α → Prop
  | first, [], last => first = last
  | first, node :: rest, last => first = node ∧ Path (next node) rest last

/-- The first node on the way that satisfies `stop`, among as many as the fuel allows. -/
def seek (stop : α → Bool) : Nat → α → Option α
  | 0, _ => none
  | fuel + 1, node => if stop node then some node else seek stop fuel (next node)

/-- A chain of distinct nodes that ends where it started. -/
structure Ring (head : α) (nodes : List α) : Prop where
  path : Path next head nodes head
  nonempty : nodes ≠ []
  distinct : nodes.Nodup

instance Path.decidable [DecidableEq α] : (first : α) → (nodes : List α) → (last : α) →
    Decidable (Path next first nodes last)
  | first, [], last => inferInstanceAs (Decidable (first = last))
  | first, node :: rest, last =>
    have := Path.decidable (next node) rest last
    inferInstanceAs (Decidable (first = node ∧ Path next (next node) rest last))

variable {next}

theorem path_append {nodes others : List α} :
    Path next first (nodes ++ others) last ↔ ∃ middle, Path next first nodes middle ∧
    Path next middle others last := by
  induction nodes generalizing first with
  | nil => simp [Path]
  | cons node rest ih => simp [Path, ih, and_assoc]

/-- A store at a node off the chain leaves the chain. -/
theorem Path.congr {changed : α → α} (path : Path next first nodes last)
    (same : ∀ node ∈ nodes, changed node = next node) : Path changed first nodes last := by
  induction nodes generalizing first with
  | nil => exact path
  | cons node rest ih =>
    obtain ⟨rfl, path⟩ := path
    refine ⟨rfl, ?_⟩
    rw [same first List.mem_cons_self]
    exact ih path fun other member => same other (List.mem_cons_of_mem _ member)

theorem Path.first_mem (path : Path next first nodes last) : first ∈ nodes ∨ first = last := by
  cases nodes with
  | nil => exact Or.inr path
  | cons node rest => exact Or.inl (path.1 ▸ List.mem_cons_self)

theorem Path.forall_mem {holds : α → Prop} (path : Path next first nodes last) (start : holds first)
    (kept : ∀ node, holds node → holds (next node)) : ∀ node ∈ nodes, holds node := by
  induction nodes generalizing first with
  | nil => simp
  | cons node rest ih =>
    obtain ⟨rfl, path⟩ := path
    intro other member
    rcases List.mem_cons.mp member with rfl | later
    · exact start
    · exact ih path (kept first start) other later

theorem Path.iterate (path : Path next first nodes last) : next^[nodes.length] first = last := by
  induction nodes generalizing first with
  | nil => exact path
  | cons node rest ih =>
    obtain ⟨rfl, path⟩ := path
    exact ih path

/-- Along a chain the search is the search in the list of its nodes. -/
theorem Path.seek (path : Path next first nodes last) (stop : α → Bool) :
    seek next stop nodes.length first = nodes.find? stop := by
  induction nodes generalizing first with
  | nil => rfl
  | cons node rest ih =>
    obtain ⟨rfl, path⟩ := path
    simp only [List.length_cons, Linked.seek, List.find?_cons, ih path]
    cases stop first <;> rfl

theorem seek_mono {stop : α → Bool} (found : seek next stop fuel first = some node)
    (more : fuel ≤ larger) :
    seek next stop larger first = some node := by
  induction fuel generalizing first larger with
  | zero => cases found
  | succ fuel ih =>
    obtain ⟨rest, rfl⟩ := Nat.exists_eq_add_of_le' more
    rw [← Nat.add_assoc, seek] at *
    split
    case isTrue stops => simpa [stops] using found
    case isFalse passes =>
      simp only [passes] at found
      exact ih found (Nat.le_add_left _ _)

/-- What holds of the start and is kept by each link that is followed holds of the node
found. -/
theorem seek_invariant {stop : α → Bool} (holds : α → Prop) (start : holds first)
    (kept : ∀ node, holds node → stop node = false → holds (next node))
    (found : seek next stop fuel first = some node) : holds node ∧ stop node = true := by
  induction fuel generalizing first with
  | zero => cases found
  | succ fuel ih =>
    rw [seek] at found
    split at found
    case isTrue stops => exact Option.some.inj found ▸ ⟨start, stops⟩
    case isFalse passes => exact ih (kept first start (eq_false_of_ne_true passes)) found

theorem seek_stops {stop : α → Bool} (found : seek next stop fuel first = some node) :
    stop node = true :=
  (seek_invariant (fun _ => True) trivial (fun _ _ _ => trivial) found).2

end Path

namespace Ring
variable {next : α → α}

theorem head_cons (ring : Ring next head nodes) : ∃ rest, nodes = head :: rest := by
  obtain ⟨path, nonempty, _⟩ := ring
  cases nodes with
  | nil => exact absurd rfl nonempty
  | cons node rest =>
    obtain ⟨rfl, _⟩ := path
    exact ⟨rest, rfl⟩

theorem head_mem (ring : Ring next head nodes) : head ∈ nodes := by
  obtain ⟨rest, rfl⟩ := ring.head_cons
  exact List.mem_cons_self

theorem congr {changed : α → α} (ring : Ring next head nodes)
    (same : ∀ node ∈ nodes, changed node = next node) : Ring changed head nodes :=
  ⟨ring.path.congr same, ring.nonempty, ring.distinct⟩

/-- A ring is a ring from each of its nodes. -/
theorem rotate {before after : List α} (ring : Ring next head (before ++ node :: after)) :
    Ring next node (node :: after ++ before) := by
  obtain ⟨middle, first, second⟩ := path_append.mp ring.path
  obtain ⟨rfl, tail⟩ := second
  refine ⟨path_append.mpr ⟨head, ⟨rfl, tail⟩, first⟩, List.cons_ne_nil _ _, ?_⟩
  exact (List.perm_append_comm.nodup_iff).mp ring.distinct

/-- One link on, the node left behind comes last. -/
theorem turn (ring : Ring next head (head :: rest)) : Ring next (next head) (rest ++ [head]) := by
  refine ⟨path_append.mpr ⟨head, ring.path.2, rfl, rfl⟩, by simp, ?_⟩
  exact (List.perm_append_singleton head rest).symm.nodup_iff.mp ring.distinct

theorem next_mem (ring : Ring next head nodes) (member : node ∈ nodes) : next node ∈ nodes := by
  obtain ⟨before, after, rfl⟩ := List.append_of_mem member
  obtain ⟨_, path⟩ := ring.rotate.path
  rcases path.first_mem with inside | again
  · rcases List.mem_append.mp inside with later | earlier
    · exact List.mem_append_right _ (List.mem_cons_of_mem _ later)
    · exact List.mem_append_left _ earlier
  · rw [again]
    exact member

/-- The node that the last link of the ring starts from. -/
theorem iterate_last {nodes : List α} (ring : Ring next head (nodes ++ [last])) :
    next^[nodes.length] head = last := by
  obtain ⟨middle, first, rfl, _⟩ := path_append.mp ring.path
  exact first.iterate

/-- Closing the ring through one more node. -/
theorem snoc {changed : α → α} {nodes : List α} (ring : Ring next head (nodes ++ [last]))
    (fresh : node ∉ nodes ++ [last]) (same : ∀ other ∈ nodes, changed other = next other)
    (linked : changed last = node) (closed : changed node = head) :
    Ring changed head (nodes ++ [last] ++ [node]) := by
  obtain ⟨middle, first, rfl, _⟩ := path_append.mp ring.path
  refine ⟨?_, by simp, ?_⟩
  · rw [List.append_assoc]
    exact path_append.mpr ⟨middle, first.congr same, rfl, linked, closed⟩
  · rw [List.nodup_append]
    refine ⟨ring.distinct, List.nodup_singleton _, fun other member added new => ?_⟩
    rintro rfl
    exact fresh (List.mem_singleton.mp new ▸ member)

/-- Taking out the node after the head. -/
theorem unlink {changed : α → α} (ring : Ring next head (head :: node :: rest))
    (same : ∀ other ∈ rest, changed other = next other) (linked : changed head = next node) :
    Ring changed head (head :: rest) := by
  obtain ⟨_, _, path⟩ := ring.path
  refine ⟨⟨rfl, ?_⟩, List.cons_ne_nil _ _, ?_⟩
  · rw [linked]
    exact path.congr same
  · have distinct := ring.distinct
    simp only [List.nodup_cons, List.mem_cons, not_or] at distinct ⊢
    exact ⟨distinct.1.2, distinct.2.2⟩

/-- A search that some node of the ring satisfies ends before it has gone round. -/
theorem seek_some (ring : Ring next head nodes) (member : first ∈ nodes) (stop : α → Bool)
    (stops : ∃ node ∈ nodes, stop node = true) (fuel : Nat) (enough : nodes.length ≤ fuel) :
    ∃ node, seek next stop fuel first = some node := by
  obtain ⟨before, after, rfl⟩ := List.append_of_mem member
  obtain ⟨node, inside, stops⟩ := stops
  have turned : node ∈ first :: after ++ before :=
    List.perm_append_comm.mem_iff.mp inside
  have found : ((first :: after ++ before).find? stop).isSome := by
    rw [List.find?_isSome]
    exact ⟨node, turned, stops⟩
  obtain ⟨result, found⟩ := Option.isSome_iff_exists.mp found
  refine ⟨result, seek_mono ((ring.rotate.path.seek stop).trans found) ?_⟩
  simp only [List.length_append, List.length_cons] at enough ⊢
  omega

/-- A ring loses no node unless a link changes. -/
theorem subset (ring : Ring next head nodes) (other : Ring next head others) : nodes ⊆ others :=
  fun node member => ring.path.forall_mem other.head_mem (fun _ inside => other.next_mem inside)
    node member

/-- A search that no node of the ring satisfies goes round for ever. -/
theorem seek_none (ring : Ring next head nodes) (member : first ∈ nodes) (stop : α → Bool)
    (passes : ∀ node ∈ nodes, stop node = false) (fuel : Nat) :
    seek next stop fuel first = none := by
  cases found : seek next stop fuel first with
  | none => rfl
  | some node =>
    obtain ⟨inside, stops⟩ := seek_invariant (· ∈ nodes) member
      (fun _ inside _ => ring.next_mem inside) found
    rw [passes node inside] at stops
    cases stops

end Ring
end Flipper.Linked
