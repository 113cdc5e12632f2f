import Mathlib.Data.List.Nodup
import Mathlib.Logic.Function.Basic

/-! Chains in a store whose records are allocated, relinked and freed. A chain ends at the
null address. -/
namespace Flipper.Linked

structure Node (α β : Type*) where
  payload : β
  next : α
  deriving DecidableEq

/-- The allocated records. An access anywhere else has no result. -/
abbrev Store (α β : Type*) := α → Option (Node α β)

section Chain
variable (null : α)

def headOf : List (α × β) → α
  | [] => null
  | (node, _) :: _ => node

def addresses (entries : List (α × β)) : List α := entries.map Prod.fst

/-- The store holds these payloads at these addresses, all different, each linked to the
next. -/
def Chain (store : Store α β) : List (α × β) → Prop
  | [] => True
  | (node, payload) :: rest =>
    store node = some ⟨payload, headOf null rest⟩ ∧ node ≠ null ∧ node ∉ addresses rest ∧
    Chain store rest

variable {null} {store : Store α β} {entries : List (α × β)}

@[simp] theorem addresses_nil : addresses ([] : List (α × β)) = [] := rfl

@[simp] theorem addresses_cons (entry : α × β) :
    addresses (entry :: entries) = entry.1 :: addresses entries := rfl

@[simp] theorem addresses_append (others : List (α × β)) :
    addresses (entries ++ others) = addresses entries ++ addresses others :=
  List.map_append

theorem mem_addresses_insert {before rest : List (α × β)} (entry : α × β)
    (member : address ∈ addresses (before ++ rest)) :
    address ∈ addresses (before ++ entry :: rest) := by
  rw [addresses_append, List.mem_append] at member ⊢
  exact member.imp_right (List.mem_cons_of_mem _)

/-- Where a chain starts does not depend on what follows its first entries. -/
theorem headOf_append_cons (before rest others : List (α × β)) (entry : α × β) :
    headOf null (before ++ entry :: rest) = headOf null (before ++ entry :: others) := by
  cases before <;> rfl

namespace Chain

theorem ne_null (chain : Chain null store entries) : ∀ node ∈ addresses entries, node ≠ null := by
  induction entries with
  | nil => simp
  | cons entry rest ih =>
    obtain ⟨_, allocated, _, chain⟩ := chain
    simpa [allocated] using ih chain

theorem nodup (chain : Chain null store entries) : (addresses entries).Nodup := by
  induction entries with
  | nil => exact List.nodup_nil
  | cons entry rest ih =>
    obtain ⟨_, _, fresh, chain⟩ := chain
    exact List.nodup_cons.mpr ⟨fresh, ih chain⟩

theorem allocated (chain : Chain null store entries) : ∀ node ∈ addresses entries,
    store node ≠ none := by
  induction entries with
  | nil => simp
  | cons entry rest ih =>
    obtain ⟨record, _, _, chain⟩ := chain
    simpa [record] using ih chain

theorem suffix_chain {before : List (α × β)} (chain : Chain null store (before ++ entries)) :
    Chain null store entries := by
  induction before with
  | nil => exact chain
  | cons entry before ih => exact ih chain.2.2.2

theorem not_mem_others {before : List (α × β)}
    (chain : Chain null store (before ++ entry :: entries)) :
    entry.1 ∉ addresses (before ++ entries) := by
  have distinct := chain.nodup
  rw [addresses_append, addresses_cons, List.nodup_middle, ← addresses_append] at distinct
  exact (List.nodup_cons.mp distinct).1

/-- A store that keeps the records of a chain keeps the chain. -/
theorem kept {changed : Store α β} (chain : Chain null store entries)
    (keeps : ∀ node ∈ addresses entries, ∀ record, store node = some record →
      changed node = some record) :
    Chain null changed entries := by
  induction entries with
  | nil => trivial
  | cons entry rest ih =>
    obtain ⟨record, allocated, fresh, chain⟩ := chain
    refine ⟨keeps _ List.mem_cons_self _ record, allocated, fresh, ih chain fun node member => ?_⟩
    exact keeps node (List.mem_cons_of_mem _ member)

variable [DecidableEq α]

/-- A store at an address off the chain. -/
theorem update_off (chain : Chain null store entries) (off : node ∉ addresses entries)
    (record : Option (Node α β)) :
    Chain null (Function.update store node record) entries :=
  chain.kept fun other member _ held => by
    have apart : other ≠ node := fun same => off (same ▸ member)
    rw [Function.update_of_ne apart]
    exact held

/-- Linking an entry of one chain to the head of another: what followed the entry is
replaced by the other chain. -/
theorem relink {before rest others : List (α × β)}
    (chain : Chain null store (before ++ (node, payload) :: rest)) (other : Chain null store others)
    (disjoint : ∀ address ∈ addresses (before ++ [(node, payload)]), address ∉ addresses others) :
    Chain null (Function.update store node (some ⟨payload, headOf null others⟩))
      (before ++ (node, payload) :: others) := by
  induction before with
  | nil =>
    have fresh : node ∉ addresses others := disjoint node List.mem_cons_self
    exact ⟨Function.update_self _ _ _, chain.2.1, fresh, other.update_off fresh _⟩
  | cons entry before ih =>
    obtain ⟨first, held⟩ := entry
    obtain ⟨record, allocated, fresh, chain⟩ := chain
    have inside : node ∈ addresses (before ++ (node, payload) :: rest) := by simp
    have apart : first ≠ node := fun same => fresh (same ▸ inside)
    refine ⟨?_, allocated, ?_, ih chain fun address member =>
      disjoint address (List.mem_cons_of_mem _ member)⟩
    · rw [Function.update_of_ne apart, record, List.append_eq]
      exact congrArg (fun next => some (Node.mk held next))
        (headOf_append_cons before rest others _)
    · have outside := disjoint first List.mem_cons_self
      change first ∉ addresses (before ++ (node, payload) :: others)
      change first ∉ addresses (before ++ (node, payload) :: rest) at fresh
      simp only [addresses_append, addresses_cons, List.mem_append, List.mem_cons,
        not_or] at fresh ⊢
      exact ⟨fresh.1, apart, outside⟩

/-- Linking an entry past the one behind it. -/
theorem unlink {before rest : List (α × β)}
    (chain : Chain null store (before ++ prev :: entry :: rest)) :
    Chain null (Function.update store prev.1 (some ⟨prev.2, headOf null rest⟩))
      (before ++ prev :: rest) := by
  have distinct := chain.nodup
  rw [← List.singleton_append, ← List.append_assoc, addresses_append, List.nodup_append] at distinct
  have behind : Chain null store rest := chain.suffix_chain.2.2.2.2.2.2
  refine chain.relink behind fun address member later => ?_
  exact distinct.2.2 address member address (List.mem_cons_of_mem _ later) rfl

end Chain
end Chain
end Flipper.Linked
