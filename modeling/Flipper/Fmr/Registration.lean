import Flipper.Fmr.CallGate
import Mathlib.Data.Finset.Card
import Mathlib.Data.Finset.Dedup

/-! Runs of `dyld_register`. The index a module gets is the length of the list at the
time; a call uses it later as a position, through the 8 bits of `call.module`. -/
namespace Flipper.Fmr
open Binary Effect

/-- The list of a device between two registrations, and the environment. -/
structure Loading (σ : Type) where
  modules : List LfModule
  env : σ

section Run
variable (world : World fmr σ)

def registerNext (loading : Loading σ) (module : LfModule) : Loading σ :=
  let outcome := (dyldRegister loading.modules module).run world loading.env
  ⟨outcome.value.modules, outcome.state⟩

def registerAll (s : σ) (presented : List LfModule) : Loading σ :=
  presented.foldl (registerNext world) ⟨[], s⟩

theorem registerAll_snoc (s : σ) (presented : List LfModule) (module : LfModule) :
    registerAll world s (presented ++ [module]) = registerNext world (registerAll world s presented)
      module := by
  simp [registerAll]

theorem registerNext_cases (loading : Loading σ) (module : LfModule) :
    (registerNext world loading module).modules = loading.modules ∨
      (∀ old ∈ loading.modules, old.name ≠ module.name) ∧
      ∃ added : LfModule, added.name = module.name ∧
        (module.idx = unnumbered → added.idx = BitVec.ofNat 16 loading.modules.length) ∧
        (registerNext world loading module).modules = loading.modules ++ [added] :=
  dyldRegister_cases loading.modules module world loading.env

theorem registerNext_extends (loading : Loading σ) (module : LfModule) :
    loading.modules <+: (registerNext world loading module).modules := by
  rcases registerNext_cases world loading module with same | ⟨_, added, _, _, longer⟩
  · rw [same]
  · rw [longer]
    exact List.prefix_append _ _

/-- Nothing registered is dropped, moved or renumbered by later registrations. -/
theorem registerAll_extends (s : σ) (presented later : List LfModule) :
    (registerAll world s presented).modules <+:
    (registerAll world s (presented ++ later)).modules := by
  induction later using List.reverseRecOn with
  | nil => simp
  | append_singleton later module ih =>
    rw [← List.append_assoc, registerAll_snoc]
    exact ih.trans (registerNext_extends world _ module)

theorem registerAll_registered (s : σ) (presented : List LfModule) :
    Registered (registerAll world s presented).modules := by
  induction presented using List.reverseRecOn with
  | nil => exact .empty
  | append_singleton presented module ih =>
    rw [registerAll_snoc]
    exact .register ih world module _

/-- Only presented names are registered. -/
theorem registerAll_names (s : σ) (presented : List LfModule) :
    ∀ module ∈ (registerAll world s presented).modules,
      module.name ∈ presented.map LfModule.name := by
  induction presented using List.reverseRecOn with
  | nil => simp [registerAll]
  | append_singleton presented module ih =>
    rw [registerAll_snoc, List.map_append]
    rcases registerNext_cases world (registerAll world s presented) module with
      same | ⟨_, added, named, _, longer⟩
    · rw [same]
      exact fun old member => List.mem_append_left _ (ih old member)
    · rw [longer]
      intro other member
      rcases List.mem_append.mp member with old | new
      · exact List.mem_append_left _ (ih other old)
      · rw [List.mem_singleton.mp new, named]
        simp

theorem registerAll_length (s : σ) (presented : List LfModule) :
    (registerAll world s presented).modules.length ≤
    (presented.map LfModule.name).toFinset.card := by
  rw [← List.length_map LfModule.name,
    ← List.toFinset_card_of_nodup (registerAll_registered world s presented).names_nodup]
  apply Finset.card_le_card
  intro name member
  obtain ⟨module, inside, rfl⟩ := List.mem_map.mp (List.mem_toFinset.mp member)
  exact List.mem_toFinset.mpr (registerAll_names world s presented module inside)

/-- Every module is presented without a number, unless its name is registered by then. -/
def PresentsUnnumbered (s : σ) (presented : List LfModule) : Prop :=
  ∀ before module after, presented = before ++ module :: after → module.idx = unnumbered ∨
    ∃ old ∈ (registerAll world s before).modules, old.name = module.name

theorem presentsUnnumbered_of_all (s : σ)
    (plain : ∀ module ∈ presented, LfModule.idx module = unnumbered) :
    PresentsUnnumbered world s presented := by
  rintro before module after rfl
  exact Or.inl (plain module (by simp))

/-- The index of a module is its position, as far as 16 bits can hold it. -/
theorem registerAll_numbered (s : σ) (presented : List LfModule)
    (plain : PresentsUnnumbered world s presented) :
    (registerAll world s presented).modules.map LfModule.idx =
      (List.range (registerAll world s presented).modules.length).map (BitVec.ofNat 16) := by
  induction presented using List.reverseRecOn with
  | nil => rfl
  | append_singleton presented module ih =>
    have ih := ih fun before other after split =>
      plain before other (after ++ [module]) (by simp [split])
    rw [registerAll_snoc]
    rcases registerNext_cases world (registerAll world s presented) module with
      same | ⟨fresh, added, _, number, longer⟩
    · rw [same, ih]
    · rcases plain presented module [] rfl with bare | ⟨old, member, named⟩
      · simp [longer, ih, number bare, List.range_succ]
      · exact absurd named (fresh old member)

end Run

/-- A registered name is found where it was registered. -/
theorem getByName_registered (built : Registered modules) (member : module ∈ modules)
    {name : Mem} (named : strcmpEq module.name name = true) :
    lfModuleGetByName modules name = some module := by
  cases found : lfModuleGetByName modules name with
  | none =>
    rw [lfModuleGetByName, List.find?_eq_none] at found
    exact absurd named (found module member)
  | some other =>
    have matched : strcmpEq other.name name = true :=
      List.find?_some (p := fun module : LfModule => strcmpEq module.name name) found
    have same := strcmpEq_unique matched named
    rw [List.inj_on_of_nodup_map built.names_nodup (List.mem_of_find?_eq_some found) member same]

/-- Any run of registrations on an empty list. -/
theorem registration_run (world : World fmr σ) (s : σ) (presented : List LfModule) :
    let loaded := registerAll world s presented
    (loaded.modules.map LfModule.name).Nodup ∧
      (∀ later, loaded.modules <+: (registerAll world s (presented ++ later)).modules) ∧
      (∀ old ∈ loaded.modules, ∀ module, old.name = module.name →
        (dyldRegister loaded.modules module).run world loaded.env =
          ⟨⟨lfSuccess, loaded.modules, module⟩, [], loaded.env⟩) ∧
      (∀ module : LfModule, (∀ old ∈ loaded.modules, old.name ≠ module.name) →
        ((dyldRegister loaded.modules module).run world loaded.env).value =
          if (world.answer (Op.malloc nodeSize) loaded.env).1.isSome then
            ⟨lfSuccess, loaded.modules ++ [module.numbered loaded.modules],
              module.numbered loaded.modules⟩
          else ⟨lfError, loaded.modules, module.numbered loaded.modules⟩) ∧
      (PresentsUnnumbered world s presented → (presented.map LfModule.name).toFinset.card ≤ 256 →
        (∀ (position : Nat) (module : LfModule), loaded.modules[position]? = some module →
          module.idx.toNat = position) ∧
        ∀ module ∈ loaded.modules, ∀ lookup call retval err,
          strcmpEq module.name (operands lookup) = true →
          let answer := ((fmrDyld ⟨loaded.modules⟩ lookup retval err).run world loaded.env).value
          answer.status = lfSuccess ∧ answer.retval = module.idx.setWidth 64 ∧
            (callModule call = answer.retval.setWidth 8 →
              lfLlItem loaded.modules (callModule call).toNat err = (some module, err))) := by
  intro loaded
  have built : Registered loaded.modules := registerAll_registered world s presented
  refine ⟨built.names_nodup, registerAll_extends world s presented,
    fun old member module named => dyldRegister_present world loaded.env member named,
    fun module fresh => dyldRegister_fresh world loaded.env fresh, fun plain few => ?_⟩
  have short : loaded.modules.length ≤ 256 := (registerAll_length world s presented).trans few
  have numbered (position : Nat) (module : LfModule) (found : loaded.modules[position]? =
      some module) :
      module.idx.toNat = position := by
    obtain ⟨inside, rfl⟩ := List.getElem?_eq_some_iff.mp found
    have idx : (loaded.modules.map LfModule.idx)[position]? = some (BitVec.ofNat 16 position) := by
      rw [registerAll_numbered world s presented plain]
      simp [loaded, inside]
    rw [List.getElem?_map, List.getElem?_eq_getElem inside] at idx
    have small : position < 2 ^ 16 := by omega
    rw [Option.some.inj idx, BitVec.toNat_ofNat, Nat.mod_eq_of_lt small]
  refine ⟨numbered, fun module member lookup call retval err named => ?_⟩
  have found := getByName_registered built member named
  have answered : ((fmrDyld ⟨loaded.modules⟩ lookup retval err).run world loaded.env).value =
      ⟨lfSuccess, module.idx.setWidth 64, err⟩ := by
    simp [fmrDyld, found]
  rw [answered]
  refine ⟨rfl, rfl, fun named => ?_⟩
  obtain ⟨position, inside, rfl⟩ := List.getElem_of_mem member
  have idx := numbered position _ (List.getElem?_eq_getElem inside)
  have slot : (callModule call).toNat = position := by
    rw [named]
    simp only [BitVec.toNat_setWidth, idx]
    omega
  rw [slot, lfLlItem, List.getElem?_eq_getElem inside]

/-- A module of another name than `dacModule`. -/
def ledModule : LfModule :=
  { dacModule with name := ⟨[0x6C, 0x65, 0x64], by decide⟩, fits := by decide }

/-- Two modules, of which the first comes again: each gets its position. -/
theorem dac_and_led_registered :
    let presented := [dacModule, ledModule, dacModule]
    let loaded := registerAll obliging () presented
    PresentsUnnumbered obliging () presented ∧ (presented.map LfModule.name).toFinset.card ≤ 256 ∧
      loaded.modules = [{ dacModule with idx := 0 }, { ledModule with idx := 1 }] ∧
      (∀ (position : Nat) (module : LfModule), loaded.modules[position]? = some module →
        module.idx.toNat = position) ∧
      (loaded.modules.map LfModule.name).Nodup := by
  intro presented loaded
  have plain : PresentsUnnumbered obliging () presented :=
    presentsUnnumbered_of_all obliging () (by decide)
  have few : (presented.map LfModule.name).toFinset.card ≤ 256 := by decide
  obtain ⟨distinct, -, -, -, numbered⟩ := registration_run obliging () presented
  exact ⟨plain, few, by decide, (numbered plain few).1, distinct⟩

end Flipper.Fmr
