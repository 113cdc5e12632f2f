import Mathlib.Computability.StateTransition

/-! Assembly text as it is written: labels in order, each with the instructions that stand
under it. Control leaves a block by a jump, by leaving the text, or by running past the end
of the block into the one that follows. -/
namespace Flipper.Assembly
open StateTransition

/-- Where control is after an instruction, or after a whole block. -/
inductive Flow (ℓ σ : Type) where
  | next (state : σ)
  /-- Past the instruction that stands next. -/
  | skip (state : σ)
  | jump (target : ℓ) (state : σ)
  | leave (state : σ)

abbrev Text (ℓ ι : Type) := List (ℓ × List ι)

section
variable {ℓ ι σ ν : Type}

def Text.body [BEq ℓ] (text : Text ℓ ι) (label : ℓ) : List ι := (text.lookup label).getD []

def Text.following [BEq ℓ] (text : Text ℓ ι) (label : ℓ) : Option ℓ :=
  (text.zip text.tail).findSome? fun (here, there) => if here.1 == label then some there.1 else none

variable (exec : ι → σ → Flow ℓ σ)

def runBlock : List ι → σ → Flow ℓ σ
  | [], state => .next state
  | instruction :: rest, state =>
    match exec instruction state, rest with
    | .next state, rest => runBlock rest state
    | .skip state, _ :: rest => runBlock rest state
    | left, _ => left

variable {exec} in
theorem runBlock_next {instruction : ι} {state after : σ} (rest : List ι)
    (ran : exec instruction state = .next after) :
    runBlock exec (instruction :: rest) state = runBlock exec rest after := by
  rw [runBlock.eq_def]
  simp only [ran]

variable {exec} in
theorem runBlock_skip {instruction : ι} {state after : σ} (passed : ι) (rest : List ι)
    (ran : exec instruction state = .skip after) :
    runBlock exec (instruction :: passed :: rest) state = runBlock exec rest after := by
  rw [runBlock.eq_def]
  simp only [ran]

variable {exec} in
theorem runBlock_append {first : List ι} (second : List ι) {state after : σ}
    (ran : runBlock exec first state = .next after) :
    runBlock exec (first ++ second) state = runBlock exec second after := by
  induction first, state using runBlock.induct exec with
  | case1 state =>
    cases ran
    rfl
  | case2 instruction state rest middle stepped ih =>
    rw [runBlock_next _ stepped] at ran
    rw [List.cons_append, runBlock_next _ stepped, ih ran]
  | case3 instruction state middle passed rest stepped ih =>
    rw [runBlock_skip _ _ stepped] at ran
    rw [List.cons_append, List.cons_append, runBlock_skip _ _ stepped, ih ran]
  | case4 instruction rest state notNext notSkip =>
    rw [runBlock.eq_4 _ _ _ _ notNext notSkip] at ran
    exact absurd ran (notNext after)

/-! ### A value looked up by comparisons -/

/-- One comparison after the other, each with its own jump. -/
def select (code : ν → ℓ → List ι) (table : List (ν × ℓ)) : List ι :=
  table.flatMap fun (value, label) => code value label

/-- Code that jumps if the key has the value. A miss may change what is not part of the key and
not seen after a hit, such as flags. -/
structure Comparison [DecidableEq ν] (code : ν → ℓ → List ι) (key : σ → ν) (hit : σ → σ)
    (miss : ν → σ → σ) : Prop where
  runs : ∀ value label rest state, runBlock exec (code value label ++ rest) state =
    if key state = value then .jump label (hit state) else runBlock exec rest (miss value state)
  key_miss : ∀ value state, key (miss value state) = key state
  hit_miss : ∀ value state, hit (miss value state) = hit state

namespace Comparison
variable [DecidableEq ν] {exec} {code : ν → ℓ → List ι} {key : σ → ν} {hit : σ → σ}
  {miss : ν → σ → σ} (comparison : Comparison exec code key hit miss) {table : List (ν × ℓ)}
  (rest : List ι)
include comparison

theorem found (state : σ) (listed : table.lookup (key state) = some label) :
    runBlock exec (select code table ++ rest) state = .jump label (hit state) := by
  induction table generalizing state with
  | nil => cases listed
  | cons entry table ih =>
    obtain ⟨value, first⟩ := entry
    rw [select, List.flatMap_cons, List.append_assoc, comparison.runs]
    by_cases same : key state = value
    · simp only [List.lookup_cons, beq_iff_eq.mpr same] at listed
      rw [if_pos same, Option.some.inj listed]
    · simp only [List.lookup_cons, beq_eq_false_iff_ne.mpr same] at listed
      rw [if_neg same, ← comparison.hit_miss value]
      exact ih _ (by rwa [comparison.key_miss])

/-- Control runs past a table without the key, with what every miss keeps. -/
theorem missed (Kept : σ → Prop) (keeps : ∀ value state, Kept state → Kept (miss value state))
    (state : σ) (kept : Kept state) (unlisted : table.lookup (key state) = none) :
    ∃ after, Kept after ∧
      runBlock exec (select code table ++ rest) state = runBlock exec rest after := by
  induction table generalizing state with
  | nil => exact ⟨state, kept, rfl⟩
  | cons entry table ih =>
    obtain ⟨value, first⟩ := entry
    rw [select, List.flatMap_cons, List.append_assoc, comparison.runs]
    by_cases same : key state = value
    · simp only [List.lookup_cons, beq_iff_eq.mpr same] at unlisted
      cases unlisted
    · simp only [List.lookup_cons, beq_eq_false_iff_ne.mpr same] at unlisted
      rw [if_neg same]
      exact ih _ (keeps value state kept) (by rwa [comparison.key_miss])

end Comparison

variable [BEq ℓ] (text : Text ℓ ι)

/-- From the start of one block to the start of the next one that runs. -/
def enter (here : ℓ × σ) : Option (ℓ × σ) :=
  match runBlock exec (text.body here.1) here.2 with
  | .next state => (text.following here.1).map fun there => (there, state)
  | .jump there state => some (there, state)
  | .skip _ | .leave _ => none

/-- The state in which the text is left, by an instruction or past its last block, if the fuel
is enough for all blocks that run. -/
def run : Nat → ℓ × σ → Option σ
  | 0, _ => none
  | fuel + 1, here =>
    match runBlock exec (text.body here.1) here.2 with
    | .next state =>
      match text.following here.1 with
      | some there => run fuel (there, state)
      | none => some state
    | .jump there state => run fuel (there, state)
    | .leave state => some state
    | .skip _ => none

variable {exec text} {here there : ℓ × σ}

theorem enter_jump (ran : runBlock exec (text.body here.1) here.2 = .jump label state) :
    (label, state) ∈ enter exec text here := by
  rw [enter, ran, Option.mem_def]

theorem enter_next (ran : runBlock exec (text.body here.1) here.2 = .next state)
    (follows : text.following here.1 = some label) : (label, state) ∈ enter exec text here := by
  rw [enter, ran, Option.mem_def]
  exact congrArg (Option.map _) follows

theorem run_leave (ran : runBlock exec (text.body here.1) here.2 = .leave state) :
    run exec text 1 here = some state := by
  rw [run, ran]

theorem run_enter (fuel : Nat) (entered : there ∈ enter exec text here) :
    run exec text (fuel + 1) here = run exec text fuel there := by
  rw [enter, Option.mem_def] at entered
  rw [run]
  cases ran : runBlock exec (text.body here.1) here.2 with
  | next state =>
    rw [ran] at entered
    obtain ⟨label, follows, rfl⟩ := Option.map_eq_some_iff.mp entered
    dsimp only
    rw [follows]
  | jump label state =>
    rw [ran] at entered
    cases entered
    rfl
  | skip state | leave state =>
    rw [ran] at entered
    cases entered

/-- What is left from a block that is reached is left from where the path began. -/
theorem run_reaches (path : Reaches (enter exec text) here there)
    (left : ∃ fuel, run exec text fuel there = some state) :
    ∃ fuel, run exec text fuel here = some state := by
  induction path using Relation.ReflTransGen.head_induction_on with
  | refl => exact left
  | head entered _ ih =>
    obtain ⟨fuel, ran⟩ := ih
    exact ⟨fuel + 1, (run_enter fuel entered).trans ran⟩

end
end Flipper.Assembly
