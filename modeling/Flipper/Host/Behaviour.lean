import Flipper.Host.Invoke

/-! The host's calls against a transport and an allocator that behave in any way at
all: the replies to successive writes, reads and allocations are three sequences. -/
namespace Flipper.Host
open Binary Effect Fmr

structure Behaviour where
  write : Nat → WriteReply
  read : Nat → ReadReply
  malloc : Nat → Option Block

structure Asked where
  writes : Nat
  reads : Nat
  mallocs : Nat

namespace Behaviour

def world (b : Behaviour) : World fmr Asked where
  answer op s := match op with
    | .write _ => (b.write s.writes, { s with writes := s.writes + 1 })
    | .read _ => (b.read s.reads, { s with reads := s.reads + 1 })
    | .malloc _ => (b.malloc s.mallocs, { s with mallocs := s.mallocs + 1 })
    | op => ((obliging.answer op ()).1, s)

/-- The result an exchange brings back when it uses these two replies. -/
def delivers (b : Behaviour) (w r : Nat) : Option FmrResult :=
  if (b.write w).status = lfSuccess ∧ (b.read r).status = lfSuccess then
    some (FmrResult.ofMem (b.read r).dst)
  else none

/-- The calls made after one more exchange; a failed write is not followed by a read. -/
def exchanged (b : Behaviour) (s : Asked) : Asked :=
  { s with
    writes := s.writes + 1
    reads := if (b.write s.writes).status = lfSuccess then s.reads + 1 else s.reads }

def start : Asked := ⟨0, 0, 0⟩

def allots (b : Behaviour) (n : Nat) : Bool := (b.malloc n).isSome

end Behaviour

/-- The exchange brought a result, and it reports no error. -/
def AnswersOk (answer : Option FmrResult) : Prop :=
  ∃ result, answer = some result ∧ result.error = LfErr.eOk.code

instance (answer : Option FmrResult) : Decidable (AnswersOk answer) :=
  match answer with
  | none => isFalse (by simp [AnswersOk])
  | some result => decidable_of_iff (result.error = LfErr.eOk.code) (by simp [AnswersOk])

def reported (trace : List (Event fmr)) : List FmrResult :=
  trace.filterMap fun
    | .called (.read _) reply =>
      if reply.status = lfSuccess then some (FmrResult.ofMem reply.dst) else none
    | _ => none

@[simp] theorem reported_append (first second : List (Event fmr)) :
    reported (first ++ second) = reported first ++ reported second := List.filterMap_append

@[simp] theorem reported_nil : reported [] = [] := rfl

section Runs
variable (b : Behaviour) (s : Asked)

theorem exchange_run (packet : Mem) (err : Byte) :
    let outcome := (exchange packet err).run b.world s
    outcome.value.1 = b.delivers s.writes s.reads ∧ outcome.state = b.exchanged s ∧
      reported outcome.trace = (b.delivers s.writes s.reads).toList := by
  by_cases wrote : (b.write s.writes).status = lfSuccess
  · by_cases read : (b.read s.reads).status = lfSuccess
    · simp [exchange, Behaviour.world, Behaviour.delivers, Behaviour.exchanged, reported,
        wrote, read]
    · simp [exchange, Behaviour.world, Behaviour.delivers, Behaviour.exchanged, reported,
        wrote, read]
  · simp [exchange, Behaviour.world, Behaviour.delivers, Behaviour.exchanged, reported, wrote]

theorem answered_exchanged (ok : AnswersOk (b.delivers s.writes s.reads)) :
    b.exchanged s = ⟨s.writes + 1, s.reads + 1, s.mallocs⟩ := by
  obtain ⟨result, delivered, _⟩ := ok
  unfold Behaviour.delivers at delivered
  split at delivered
  · rename_i both
    simp [Behaviour.exchanged, both.1]
  · cases delivered

theorem lookup_run (fits : name.strlen < lfModuleNameMax) (idx : BitVec 16) (err : Byte) :
    let outcome := (lfDyldDynSymLookup name idx err).run b.world s
    (outcome.value.status = lfSuccess ↔ AnswersOk (b.delivers s.writes s.reads)) ∧
      outcome.state = b.exchanged s ∧
      reported outcome.trace = (b.delivers s.writes s.reads).toList := by
  have exchanged := exchange_run b s (lookupPacket name) err
  simp only [lfDyldDynSymLookup, Nat.not_le.mpr fits, if_false, Prog.monad_bind, Prog.run_bind]
  generalize (exchange (lookupPacket name) err).run b.world s = outcome at exchanged
  obtain ⟨⟨received, err⟩, trace, state⟩ := outcome
  obtain ⟨value, rfl, results⟩ := exchanged
  dsimp only at value results
  rw [reported_append, results, ← value]
  cases received with
  | none => simp [AnswersOk, lfError, lfSuccess]
  | some result =>
    by_cases ok : result.error = LfErr.eOk.code
    · simp [AnswersOk, ok]
    · simp [AnswersOk, ok, lfError, lfSuccess]

theorem createAndRegister_run {name : CString} (absent : lfModuleGetByName modules name.mem = none)
    (fits : name.strlen < lfModuleNameMax) (idx : BitVec 16) (err : Byte) :
    let outcome := (createAndRegister modules name idx err).run b.world s
    (outcome.value.1.isOk ↔ b.allots s.mallocs ∧ b.allots (s.mallocs + 1)) ∧
      (outcome.value.1.isOk = false → outcome.value.2 = modules) ∧
      outcome.state = { s with
        mallocs := if b.allots s.mallocs then s.mallocs + 2 else s.mallocs + 1 } ∧
      reported outcome.trace = [] := by
  cases record : b.malloc s.mallocs with
  | none =>
    simp [createAndRegister, lfModuleCreate, fits, Prog.bind_assoc, Behaviour.world,
      Behaviour.allots, record, reported, Except.isOk, Except.toBool]
  | some block =>
    cases node : b.malloc (s.mallocs + 1) with
    | none =>
      simp [createAndRegister, lfModuleCreate, fits, dyldRegister, absent, lfLlAppend,
        Prog.bind_assoc, Behaviour.world, Behaviour.allots, record, node, reported, lfError,
        lfSuccess, Except.isOk,
        Except.toBool]
    | some next =>
      simp [createAndRegister, lfModuleCreate, fits, dyldRegister, absent, lfLlAppend,
        Prog.bind_assoc, Behaviour.world, Behaviour.allots, record, node, reported, Except.isOk,
        Except.toBool]

/-- `dyld_module` for a name that is not in the list. -/
theorem dyldModule_run {name : CString} (absent : lfModuleGetByName modules name.mem = none)
    (fits : name.strlen < lfModuleNameMax) (err : Byte) :
    let outcome := (dyldModule modules name err).run b.world s
    let found := AnswersOk (b.delivers s.writes s.reads)
    (outcome.value.module.isSome ↔ found ∧ b.allots s.mallocs ∧ b.allots (s.mallocs + 1)) ∧
      (outcome.value.module = none → outcome.value.modules = modules) ∧
      outcome.state = (if found then
          { b.exchanged s with
            mallocs := if b.allots s.mallocs then s.mallocs + 2 else s.mallocs + 1 }
        else b.exchanged s) ∧
      reported outcome.trace = (b.delivers s.writes s.reads).toList := by
  have looked := lookup_run b s fits 0 err
  simp only [dyldModule, absent, Prog.monad_bind, Prog.run_bind]
  generalize (lfDyldDynSymLookup name 0 err).run b.world s = lookup at looked
  obtain ⟨status, state, results⟩ := looked
  rw [reported_append, results]
  by_cases found : AnswersOk (b.delivers s.writes s.reads)
  case neg => simp [status, found, state]
  have ok : lookup.value.status = lfSuccess := status.mpr found
  have created := createAndRegister_run b lookup.state absent fits lookup.value.idx lookup.value.err
  simp only [ok, ne_eq, not_true_eq_false, if_false, Prog.run_bind]
  generalize (createAndRegister modules name lookup.value.idx lookup.value.err).run b.world
    lookup.state =
    create at created
  obtain ⟨⟨made, modules'⟩, trace, after⟩ := create
  obtain ⟨value, kept, rfl, quiet⟩ := created
  dsimp only at value kept quiet
  rw [reported_append, quiet, state]
  rw [state] at value
  have count : (b.exchanged s).mallocs = s.mallocs := rfl
  rw [count] at value ⊢
  cases made with
  | error err =>
    have refused : ¬ (b.allots s.mallocs ∧ b.allots (s.mallocs + 1)) :=
      fun both => nomatch value.mpr both
    refine ⟨⟨nofun, fun both => absurd both.2 refused⟩, fun _ => kept rfl, ?_, by simp⟩
    rw [if_pos found]
    rfl
  | ok m =>
    refine ⟨⟨fun _ => ⟨found, value.mp rfl⟩, fun _ => rfl⟩, nofun, ?_, by simp⟩
    rw [if_pos found]
    rfl

/-- Whether allocation lets `lf_invoke_by_index` put an unlisted module in its list:
`dyld_module` tries when its own lookup succeeds, and the caller once more when it
fails. -/
def Behaviour.registers (b : Behaviour) (found : Bool) : Bool :=
  if found then
    if b.allots 0 then b.allots 1 || (b.allots 2 && b.allots 3) else b.allots 1 && b.allots 2
  else b.allots 0 && b.allots 1

theorem ensureModule_run {name : CString} (absent : lfModuleGetByName modules name.mem = none)
    (fits : name.strlen < lfModuleNameMax) (fresh : s.mallocs = 0) (idx : BitVec 16) (err : Byte) :
    let outcome := (ensureModule modules name idx err).run b.world s
    (outcome.value.1.isOk ↔ b.registers (decide (AnswersOk (b.delivers s.writes s.reads)))) ∧
      outcome.state.writes = (b.exchanged s).writes ∧ outcome.state.reads = (b.exchanged s).reads ∧
      reported outcome.trace = (b.delivers s.writes s.reads).toList := by
  have resolved := dyldModule_run b s absent fits err
  simp only [ensureModule, Prog.monad_bind, Prog.run_bind]
  generalize (dyldModule modules name err).run b.world s = found at resolved
  obtain ⟨⟨module, modules', err'⟩, trace, state⟩ := found
  obtain ⟨value, kept, rfl, results⟩ := resolved
  dsimp only at value kept results
  rw [reported_append, results]
  cases module with
  | some m =>
    obtain ⟨answered, record, node⟩ := value.mp rfl
    rw [fresh] at record node
    simp [answered, Behaviour.registers, record, node, Except.isOk, Except.toBool]
  | none =>
    have failed : ¬ (AnswersOk (b.delivers s.writes s.reads) ∧ b.allots 0 ∧ b.allots 1) := by
      intro all
      rw [fresh] at value
      exact nomatch value.mpr all
    rw [kept rfl]
    rw [fresh]
    generalize before : (if AnswersOk (b.delivers s.writes s.reads) then
      { b.exchanged s with mallocs := if b.allots 0 then 0 + 2 else 0 + 1 } else b.exchanged s) = t
    have counts : t.writes = (b.exchanged s).writes ∧ t.reads = (b.exchanged s).reads := by
      subst before
      split <;> exact ⟨rfl, rfl⟩
    have created := createAndRegister_run b t absent fits idx err'
    simp only [Prog.run_bind]
    generalize (createAndRegister modules name idx err').run b.world t = create at created
    obtain ⟨⟨made, modules''⟩, trace', after⟩ := create
    obtain ⟨again, _, rfl, quiet⟩ := created
    dsimp only at again quiet
    have retried : made.isOk ↔ b.registers (decide (AnswersOk (b.delivers s.writes s.reads))) := by
      rw [again]
      subst before
      unfold Behaviour.registers
      by_cases answered : AnswersOk (b.delivers s.writes s.reads)
      · cases first : b.allots 0 <;> cases second : b.allots 1 <;> simp_all
      · have count : (b.exchanged s).mallocs = 0 := fresh
        simp [answered, count]
    cases made with
    | error err => exact ⟨retried, counts.1, counts.2, by simp [quiet]⟩
    | ok m => exact ⟨retried, counts.1, counts.2, by simp [quiet]⟩

end Runs
end Flipper.Host
