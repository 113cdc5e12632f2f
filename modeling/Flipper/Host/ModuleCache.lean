import Flipper.Host.Behaviour

/-! The modules a host keeps for a device: `dyld_module` fills the list, `dyld_unload`
should take from it. -/
namespace Flipper.Host
open Binary Effect Fmr

/-- The first module of that name, and what is in front of it and behind it. -/
def FirstNamed (modules : List LfModule) (name : CString) (before : List LfModule) (m : LfModule)
    (after : List LfModule) : Prop :=
  modules = before ++ m :: after ∧ m.name = name ∧ ∀ other ∈ before, other.name ≠ name

theorem getByName_some {modules : List LfModule} {name : CString} :
    lfModuleGetByName modules name.mem = some m ↔ ∃ before after,
      FirstNamed modules name before m after := by
  have differ : ∀ other : LfModule, (!strcmpEq other.name name.mem) = true ↔ other.name ≠ name := by
    intro other
    rw [Bool.not_eq_true', ← Bool.not_eq_true, strcmpEq_mem]
  simp only [lfModuleGetByName, List.find?_eq_some_iff_append, strcmpEq_mem, differ, FirstNamed]
  constructor
  · rintro ⟨named, before, after, split, others⟩
    exact ⟨before, after, split, named, others⟩
  · rintro ⟨before, after, split, named, others⟩
    exact ⟨named, before, after, split, others⟩

section Callees
variable (world : World fmr σ) (s : σ)

theorem exchange_answered (packet : Mem) (err : Byte) (result : FmrResult)
    (answered : ((exchange packet err).run world s).value.1 = some result) :
    reported ((exchange packet err).run world s).trace = [result] := by
  by_cases wrote : (world.answer (Op.write (Mem.slice packet 0 fmrPacketSize)) s).1.status =
    lfSuccess
  · by_cases read : (world.answer (Op.read resultSize)
        (world.answer (Op.write (Mem.slice packet 0 fmrPacketSize)) s).2).1.status = lfSuccess
    · simp [exchange, wrote, read, reported] at answered ⊢
      exact answered
    · simp [exchange, wrote, read] at answered
  · simp [exchange, wrote] at answered

/-- A lookup that succeeds gives the low half of the value of the one result it read. -/
theorem lookup_answered (name : CString) (idx : BitVec 16) (err : Byte)
    (ok : ((lfDyldDynSymLookup name idx err).run world s).value.status = lfSuccess) :
    ∃ result, reported ((lfDyldDynSymLookup name idx err).run world s).trace = [result] ∧
      ((lfDyldDynSymLookup name idx err).run world s).value.idx = result.value.setWidth 16 := by
  unfold lfDyldDynSymLookup at ok ⊢
  split at ok
  · exact absurd ok lfError_ne
  rename_i fits
  rw [if_neg fits]
  rw [Prog.monad_bind, Prog.run_bind] at ok ⊢
  have answered := exchange_answered world s (lookupPacket name) err
  generalize (exchange (lookupPacket name) err).run world s = outcome at ok answered ⊢
  obtain ⟨⟨received, err⟩, trace, state⟩ := outcome
  cases received with
  | none => exact absurd ok lfError_ne
  | some result =>
    refine ⟨result, ?_⟩
    by_cases fine : result.error = LfErr.eOk.code
    · simp [fine, answered]
    · simp [fine, lfError_ne] at ok

/-- A module that is made and registered ends the list, with the index it was given
unless that asks for a new one. Nothing is read. -/
theorem createAndRegister_spec {name : CString} (absent : lfModuleGetByName modules name.mem = none)
    (idx : BitVec 16) (err : Byte) :
    let outcome := (createAndRegister modules name idx err).run world s
    reported outcome.trace = [] ∧
      (∀ raised, outcome.value.1 = .error raised → outcome.value.2 = modules) ∧
      ∀ m after, outcome.value.1 = .ok (m, after) →
        outcome.value.2 = modules ++ [m] ∧ m.name = name ∧ (idx ≠ unnumbered → m.idx = idx) := by
  by_cases fits : name.strlen < lfModuleNameMax
  case neg => simp [createAndRegister, lfModuleCreate, fits]
  cases record : (world.answer (Op.malloc moduleSize) s).1 with
  | none => simp [createAndRegister, lfModuleCreate, fits, Prog.bind_assoc, record, reported]
  | some block =>
    cases node : (world.answer (Op.malloc nodeSize)
      (world.answer (Op.malloc moduleSize) s).2).1 with
    | none =>
      simp [createAndRegister, lfModuleCreate, fits, dyldRegister, absent, lfLlAppend,
        Prog.bind_assoc, record, node, reported, lfError_ne]
    | some next =>
      by_cases plain : idx = unnumbered
      · simp [createAndRegister, lfModuleCreate, fits, dyldRegister, absent, lfLlAppend,
          Prog.bind_assoc, record, node, reported, plain]
      · simp [createAndRegister, lfModuleCreate, fits, dyldRegister, absent, lfLlAppend,
          Prog.bind_assoc, record, node, reported, plain]

end Callees

theorem dyldModule_present (found : lfModuleGetByName modules name.mem = some m) (err : Byte)
    (world : World fmr σ) (s : σ) :
    (dyldModule modules name err).run world s = ⟨⟨some m, modules, err⟩, [], s⟩ := by
  simp [dyldModule, found]

/-- A module in the list costs no packet. -/
theorem dyldModule_again (found : lfModuleGetByName modules name.mem = some m) (err : Byte)
    (world : World fmr σ) (s : σ) :
    let again := (dyldModule modules name err).run world s
    again.value.module = some m ∧ again.value.modules = modules ∧ sent again.trace = [] := by
  rw [dyldModule_present found]
  exact ⟨rfl, rfl, rfl⟩

/-- A module that was not in the list is the last of the new list, found by one exchange;
otherwise the list stays. -/
theorem dyldModule_absent {name : CString} (absent : lfModuleGetByName modules name.mem = none)
    (err : Byte) (world : World fmr σ) (s : σ) :
    let outcome := (dyldModule modules name err).run world s
    (outcome.value.module = none → outcome.value.modules = modules) ∧
      ∀ m, outcome.value.module = some m → outcome.value.modules = modules ++ [m] ∧ m.name = name ∧
        ∃ result, reported outcome.trace = [result] ∧
          (result.value.toNat < 65535 → m.idx.toNat = result.value.toNat) := by
  have looked := lookup_answered world s name 0 err
  simp only [dyldModule, absent, Prog.monad_bind, Prog.run_bind]
  generalize (lfDyldDynSymLookup name 0 err).run world s = lookup at looked
  by_cases ok : lookup.value.status = lfSuccess
  case neg => simp [ok]
  obtain ⟨result, read, index⟩ := looked ok
  have created := createAndRegister_spec world lookup.state absent lookup.value.idx lookup.value.err
  simp only [ok, ne_eq, not_true_eq_false, if_false, Prog.run_bind]
  generalize (createAndRegister modules name lookup.value.idx lookup.value.err).run world
    lookup.state =
    create at created
  obtain ⟨⟨made, modules'⟩, trace, after⟩ := create
  obtain ⟨quiet, kept, added⟩ := created
  cases made with
  | error err =>
    refine ⟨fun _ => kept err rfl, ?_⟩
    intro m returned
    cases returned
  | ok pair =>
    obtain ⟨m, err⟩ := pair
    obtain ⟨longer, named, indexed⟩ := added m err rfl
    constructor
    · intro missing
      cases missing
    rintro _ ⟨⟩
    refine ⟨longer, named, result, by simp [read, quiet], ?_⟩
    intro small
    have value : (result.value.setWidth 16).toNat = result.value.toNat := by
      rw [BitVec.toNat_setWidth]
      exact Nat.mod_eq_of_lt (by omega)
    have numbered : lookup.value.idx ≠ unnumbered := by
      intro plain
      rw [index] at plain
      rw [plain] at value
      unfold unnumbered at value
      simp at value
      omega
    rw [indexed numbered, index, value]

/-- The list is a cache of the device's modules: `dyld_module` leaves it alone or adds the
module it returns, and finds that module from then on without asking the device. -/
theorem module_cache (modules : List LfModule) (name : CString) (err : Byte) (world : World fmr σ)
    (s : σ) :
    let outcome := (dyldModule modules name err).run world s
    (outcome.value.module = none → outcome.value.modules = modules) ∧
    ∀ m, outcome.value.module = some m →
      m ∈ outcome.value.modules ∧ m.name = name ∧
      ((outcome.value.modules = modules ∧ sent outcome.trace = [] ∧
          ∃ before after, FirstNamed modules name before m after) ∨
        ((∀ other ∈ modules, other.name ≠ name) ∧ outcome.value.modules = modules ++ [m] ∧
          ∃ result, reported outcome.trace = [result] ∧
            (result.value.toNat < 65535 → m.idx.toNat = result.value.toNat))) ∧
      ∀ {τ : Type} (later : World fmr τ) (t : τ) (err' : Byte),
        let again := (dyldModule outcome.value.modules name err').run later t
        again.value.module = some m ∧ again.value.modules = outcome.value.modules ∧
          sent again.trace = [] := by
  intro outcome
  cases found : lfModuleGetByName modules name.mem with
  | some m =>
    have run : outcome = ⟨⟨some m, modules, err⟩, [], s⟩ := dyldModule_present found err world s
    obtain ⟨before, after, first⟩ := getByName_some.mp found
    rw [run]
    constructor
    · intro missing
      cases missing
    rintro _ ⟨⟩
    refine ⟨?_, first.2.1, Or.inl ⟨rfl, rfl, before, after, first⟩,
      fun later t err' => dyldModule_again found err' later t⟩
    rw [first.1]
    simp
  | none =>
    obtain ⟨kept, added⟩ := dyldModule_absent found err world s
    refine ⟨kept, fun m returned => ?_⟩
    obtain ⟨longer, named, answered⟩ := added m returned
    have others := getByName_none.mp found
    have first : FirstNamed (modules ++ [m]) name modules m [] := ⟨rfl, named, others⟩
    have cached : lfModuleGetByName outcome.value.modules name.mem = some m := by
      rw [longer]
      exact getByName_some.mpr ⟨modules, [], first⟩
    refine ⟨?_, named, Or.inr ⟨others, longer, answered⟩,
      fun later t err' => dyldModule_again cached err' later t⟩
    rw [longer]
    simp

/-- The first use of `dac_module` asks the device, the second does not. -/
theorem dac_module_cached :
    let first := (dyldModule [] dacModule.name 0).run obliging ()
    first.value.modules.map LfModule.idx = [0] ∧
      sent ((dyldModule first.value.modules dacModule.name 0).run obliging ()).trace = [] := by
  have cached := (module_cache [] dacModule.name 0 obliging ()).2
    ⟨dacModule.name, by decide, 0, [], none⟩ (by decide +kernel)
  exact ⟨by decide +kernel, (cached.2.2.2 obliging () 0).2.2⟩

/-! `dyld_unload`. -/

/-- The int returned, the list after the call, the modules whose deconstructor ran, and
`_lf_err`. -/
structure UnloadReturn where
  status : Int
  modules : List LfModule
  freed : List LfModule
  err : Byte
  deriving DecidableEq

/-- The assertion on `f` passes when it is NULL; the removal then looks for NULL. -/
def dyldUnload (modules : List LfModule) (module : CString) (err : Byte) :
    FmrProg UnloadReturn := do
  let f ← dyldModule modules module err
  if f.module.isSome then pure ⟨lfError, f.modules, [], LfErr.eNull.code⟩
  else
    let (kept, freed) := lfLlRemove some f.modules f.module
    pure ⟨lfSuccess, kept, freed, f.err⟩

/-- What an unload is for: the first module of the name goes, with its deconstructor run,
and the others stay; without one the call fails and the list stays. -/
def Unloads (modules : List LfModule) (name : CString) (returned : UnloadReturn) : Prop :=
  (∀ before m after, FirstNamed modules name before m after →
    returned.status = lfSuccess ∧ returned.modules = before ++ after ∧ returned.freed = [m]) ∧
  ((∀ module ∈ modules, module.name ≠ name) →
    returned.status = lfError ∧ returned.modules = modules)

/-- A module that is there is kept and reported missing. One that is not is added and
reported missing, or reported unloaded. -/
theorem dyldUnload_run (modules : List LfModule) (name : CString) (err : Byte) (world : World fmr σ)
    (s : σ) :
    let found := ((dyldModule modules name err).run world s).value
    ((dyldUnload modules name err).run world s).value =
      if found.module.isSome then ⟨lfError, found.modules, [], LfErr.eNull.code⟩
      else ⟨lfSuccess, found.modules, [], found.err⟩ := by
  simp only [dyldUnload, Prog.monad_bind, Prog.run_bind]
  generalize (dyldModule modules name err).run world s = outcome
  cases module : outcome.value.module with
  | none => simp
  | some m => simp

/-- Whatever the list, the name and the device, `dyld_unload` does not do its work. -/
theorem never_unloads (modules : List LfModule) (name : CString) (err : Byte) (world : World fmr σ)
    (s : σ) : ¬ Unloads modules name ((dyldUnload modules name err).run world s).value := by
  rw [dyldUnload_run]
  rintro ⟨present, absent⟩
  cases found : lfModuleGetByName modules name.mem with
  | some m =>
    obtain ⟨before, after, first⟩ := getByName_some.mp found
    have success := (present before m after first).1
    rw [dyldModule_present found] at success
    exact lfError_ne success
  | none =>
    obtain ⟨failure, unchanged⟩ := absent (getByName_none.mp found)
    obtain ⟨_, added⟩ := dyldModule_absent found err world s
    cases returned : ((dyldModule modules name err).run world s).value.module with
    | none =>
      simp only [returned, Option.isSome_none, Bool.false_eq_true, if_false] at failure
      exact lfError_ne failure.symm
    | some m =>
      simp only [returned, Option.isSome_some, if_true] at unchanged
      rw [(added m returned).1] at unchanged
      simp at unchanged

/-- `dac_module` is not unloaded, and a name not in the list is added to it. -/
theorem dac_module_stays :
    let present := ((dyldUnload fvmModules dacModule.name 0).run obliging ()).value
    let absent := ((dyldUnload [] dacModule.name 0).run obliging ()).value
    present.status = lfError ∧ present.modules = fvmModules ∧
      ¬ Unloads fvmModules dacModule.name present ∧
      absent.modules.length = 1 ∧ ¬ Unloads [] dacModule.name absent := by
  intro present absent
  refine ⟨by decide +kernel, by decide +kernel, ?_, by decide +kernel, ?_⟩
  · rintro ⟨unloads, _⟩
    obtain ⟨before, after, first⟩ : ∃ before after, FirstNamed fvmModules dacModule.name before
        { dacModule with idx := 0 } after := getByName_some.mp (by decide +kernel)
    exact absurd (unloads before _ after first).1 (by decide +kernel)
  · rintro ⟨_, refuses⟩
    have same := congrArg List.length (refuses (by simp)).2
    exact absurd same (by decide +kernel)

end Flipper.Host
