import Flipper.Fdwarf.Generate

/-! Two images linked from the same object files give the same interface: the units may come in
another order, their debug information and their code may lie elsewhere. The stubs and the table
of the device can then be built from different images. -/
namespace Flipper.Fdwarf
open Effect

/-! ## Placing by address -/

/-- No address is in two modules. -/
def Apart (modules : List Module) : Prop :=
  modules.Pairwise fun m n => ∀ address, ¬(m.Contains address ∧ n.Contains address)

section Modules

/-- One more function in a module, if it belongs there. -/
def put (s : Subprogram) (m : Module) : Option Module :=
  if m.Contains s.address then s.function.map fun f =>
    { m with funcs := m.funcs ++ [f] } else some m

theorem mapM_put_outside (s : Subprogram) (modules : List Module)
    (outside : ∀ m ∈ modules, ¬m.Contains s.address) :
    modules.mapM (put s) = some modules := by
  induction modules with
  | nil => rfl
  | cons m later ih =>
    rw [mapM_cons, put, if_neg (outside m List.mem_cons_self),
      ih fun n member => outside n (List.mem_cons_of_mem _ member)]
    rfl

theorem place_eq (s : Subprogram) (modules : List Module) (apart : Apart modules) :
    place s modules = modules.mapM (put s) := by
  induction modules with
  | nil => rfl
  | cons m later ih =>
    obtain ⟨first, rest⟩ := List.pairwise_cons.mp apart
    rw [place, mapM_cons, put]
    split
    · rename_i here
      rw [mapM_put_outside s later fun n member there => first n member s.address ⟨here, there⟩]
      cases s.function <;> rfl
    · rw [ih rest]
      rfl

/-- The functions of a module, each from a subprogram in its range. -/
def gather (subprograms : List Subprogram) (m : Module) : Option Module :=
  ((subprograms.filter fun s => m.Contains s.address).mapM Subprogram.function).map fun funcs =>
    { m with funcs := m.funcs ++ funcs }

theorem put_gather (s : Subprogram) (later : List Subprogram) (m : Module) :
    (put s m).bind (gather later) = gather (s :: later) m := by
  rw [put, gather]
  by_cases here : m.Contains s.address
  · rw [if_pos here, List.filter_cons_of_pos (by simpa using here), mapM_cons]
    cases s.function with
    | none => rfl
    | some f =>
      simp only [Option.map_some, Option.bind_some, gather, Option.map_map]
      refine congrArg₂ Option.map (funext fun funcs => ?_) rfl
      simp
  · rw [if_neg here, List.filter_cons_of_neg (by simpa using here)]
    rfl

theorem apart_mapM {f : Module → Option Module}
    (same : ∀ m n, f m = some n → n.start = m.start ∧ n.stop = m.stop) {modules after : List Module}
    (apart : Apart modules) (mapped : modules.mapM f = some after) : Apart after := by
  obtain ⟨-, rfl⟩ := (mapM_eq_some f modules after).mp mapped
  refine List.Pairwise.filterMap f (fun m m' separate n found n' found' address inside => ?_) apart
  obtain ⟨start, stop⟩ := same m n found
  obtain ⟨start', stop'⟩ := same m' n' found'
  refine separate address ?_
  rw [Module.Contains, Module.Contains, ← start, ← stop, ← start', ← stop']
  exact inside

theorem put_range (s : Subprogram) (m n : Module) (found : put s m = some n) :
    n.start = m.start ∧ n.stop = m.stop := by
  rw [put] at found
  split at found
  · obtain ⟨f, -, rfl⟩ := Option.map_eq_some_iff.mp found
    exact ⟨rfl, rfl⟩
  · cases found
    exact ⟨rfl, rfl⟩

theorem placeAll_eq (subprograms : List Subprogram) (modules : List Module)
    (apart : Apart modules) :
    subprograms.foldlM (fun modules s => place s modules) modules =
      modules.mapM (gather subprograms) := by
  induction subprograms generalizing modules with
  | nil =>
    have none : gather [] = some := by
      funext m
      simp [gather]
    rw [none, List.foldlM_nil]
    exact ((mapM_eq_some some modules modules).mpr ⟨fun _ _ => rfl, List.filterMap_some⟩).symm
  | cons s later ih =>
    rw [List.foldlM_cons, place_eq s modules apart]
    have passes := mapM_bind (put s) (gather later) modules
    simp only [put_gather] at passes
    rw [← passes]
    cases placed : modules.mapM (put s) with
    | none => rfl
    | some after => exact ih after (apart_mapM (put_range s) apart placed)

end Modules

/-- A subprogram as far as it goes into the interface. -/
abbrev Entry := Nat × Option Function

def Cu.entries (cu : Cu) : List Entry := cu.subprograms.map fun s => (s.address, s.function)

def functionsIn (entries : List Entry) (code : Nat → Bool) : Option (List Function) :=
  (entries.filter fun entry => code entry.1).mapM Prod.snd

/-- The file of a module with these functions, whatever its addresses are. -/
def fileOf (name : String) (funcs : Option (List Function)) : Option CFile :=
  (funcs.bind normalize).bind fun funcs => generateFile ⟨name, 0, 0, funcs⟩

theorem gather_entries (cus : List Cu) (m : Module) (empty : m.funcs = []) :
    gather (cus.flatMap Cu.subprograms) m =
      (functionsIn (cus.flatMap Cu.entries) fun address => decide (m.Contains address)).map
        fun funcs => { m with funcs } := by
  have entries : cus.flatMap Cu.entries =
      (cus.flatMap Cu.subprograms).map fun s => (s.address, s.function) := List.map_flatMap.symm
  rw [gather, empty, functionsIn, entries, List.filter_map, mapM_map]
  rfl

/-- The whole program, module by module. -/
theorem processFile_eq (elf : Elf) (apart : Apart (elf.sections.filterMap moduleOf)) :
    processFile elf = (elf.sections.filterMap moduleOf).mapM fun m =>
      fileOf m.name (functionsIn (elf.cus.flatMap Cu.entries) fun address =>
        decide (m.Contains address)) := by
  have empty : ∀ m ∈ elf.sections.filterMap moduleOf, m.funcs = [] := by
    intro m member
    obtain ⟨sec, -, made⟩ := List.mem_filterMap.mp member
    unfold moduleOf at made
    split at made
    · rw [← Option.some.inj made]
    · cases made
  rw [processFile, getModules, placeAll_eq _ _ apart]
  simp only [Option.bind_eq_bind]
  rw [mapM_bind, mapM_bind]
  refine mapM_congr (List.forall₂_same.mpr fun m member => ?_)
  rw [gather_entries _ _ (empty m member), fileOf]
  cases functionsIn (elf.cus.flatMap Cu.entries) fun address => decide (m.Contains address) with
  | none => rfl
  | some funcs => cases found : normalize funcs <;> simp [found, generateFile]

/-! ## Units moved by the linker -/

section Move
variable (base : Nat) (reloc : Nat → Nat)

def Attributes.move (attributes : Attributes) : Attributes :=
  { attributes with lowPc := attributes.lowPc.map reloc }

mutual

/-- The entry in an image. References inside a unit count from its start and stay. -/
def Die.move : Die → Die
  | .mk offset tag attributes children =>
    .mk (base + offset) tag (attributes.move reloc) (Die.moveAll children)

def Die.moveAll : List Die → List Die
  | [] => []
  | die :: later => die.move :: Die.moveAll later

end

def Cu.move (cu : Cu) : Cu := ⟨base + cu.cuOffset, cu.topDie.move base reloc⟩

def Subprogram.move (s : Subprogram) : Subprogram :=
  ⟨s.cu.move base reloc, s.die.move base reloc, reloc s.address⟩

theorem moveAll_eq (dies : List Die) :
    Die.moveAll base reloc dies = dies.map (Die.move base reloc) := by
  induction dies with
  | nil => rfl
  | cons die later ih => rw [Die.moveAll, ih, List.map_cons]

mutual

theorem all_move : ∀ die : Die,
    (die.move base reloc).all = die.all.map (Die.move base reloc)
  | .mk offset tag attributes children => by
    rw [Die.move, Die.all, Die.all, List.map_cons, allOf_move children, Die.move]

theorem allOf_move : ∀ dies : List Die,
    Die.allOf (Die.moveAll base reloc dies) = (Die.allOf dies).map (Die.move base reloc)
  | [] => rfl
  | die :: later => by
    rw [Die.moveAll, Die.allOf, Die.allOf, List.map_append, all_move die, allOf_move later]

end

section Fields
variable (die : Die)

theorem tag_move : (die.move base reloc).tag = die.tag := by
  cases die
  rfl

theorem children_move :
    (die.move base reloc).children = die.children.map (Die.move base reloc) := by
  cases die
  exact moveAll_eq base reloc _

theorem attributes_move : (die.move base reloc).attributes = die.attributes.move reloc := by
  cases die
  rfl

theorem offset_move : (die.move base reloc).offset = base + die.offset := by
  cases die
  rfl

end Fields

variable (cu : Cu)

theorem getDieAtOffset_move (offset : Nat) : getDieAtOffset (cu.move base reloc) offset =
    (getDieAtOffset cu offset).map (Die.move base reloc) := by
  have same : ((fun die => die.offset == (cu.move base reloc).cuOffset + offset) ∘
      Die.move base reloc) =
      fun die => die.offset == cu.cuOffset + offset := by
    funext die
    simp [Cu.move, offset_move, Nat.add_assoc]
  rw [getDieAtOffset, getDieAtOffset, Cu.iterDies, Cu.move, all_move, List.find?_map, ← same]
  rfl

theorem originOf_move (steps : Nat) (die : Die) :
    originOf (cu.move base reloc) steps (die.move base reloc) =
      (originOf cu steps die).map (Die.move base reloc) := by
  induction steps generalizing die with
  | zero => rfl
  | succ steps ih =>
    have kept : (Attributes.move reloc die.attributes).abstractOrigin =
        die.attributes.abstractOrigin := rfl
    rw [originOf, originOf, attributes_move, kept]
    cases die.attributes.abstractOrigin with
    | none => rfl
    | some offset =>
      dsimp only
      rw [getDieAtOffset_move]
      cases getDieAtOffset cu offset with
      | none => rfl
      | some found => exact ih found

theorem underlying_move (steps : Nat) (die : Die) :
    underlying (cu.move base reloc) steps (die.move base reloc) =
      (underlying cu steps die).map (Die.move base reloc) := by
  induction steps generalizing die with
  | zero => rfl
  | succ steps ih =>
    rw [underlying, underlying, attributes_move, tag_move]
    split
    · change die.attributes.type.bind _ = _
      cases die.attributes.type with
      | none => rfl
      | some offset =>
        dsimp only [Option.bind_some]
        rw [getDieAtOffset_move]
        cases getDieAtOffset cu offset with
        | none => rfl
        | some found => exact ih found
    · rfl

theorem iterDies_move : (cu.move base reloc).iterDies = cu.iterDies.map (Die.move base reloc) :=
  all_move base reloc cu.topDie

theorem origin_move (die : Die) : origin (cu.move base reloc) (die.move base reloc) =
    (origin cu die).map (Die.move base reloc) := by
  rw [origin, origin, iterDies_move, List.length_map, originOf_move]

theorem getName_move (die : Die) :
    getName (cu.move base reloc) (die.move base reloc) = getName cu die := by
  rw [getName, getName, origin_move]
  cases origin cu die with
  | none => rfl
  | some found =>
    simp only [Option.map_some, Option.bind_eq_bind, Option.bind_some, attributes_move, Cu.move]
    rfl

theorem getType_move (die : Die) :
    getType (cu.move base reloc) (die.move base reloc) = getType cu die := by
  rw [getType, getType, origin_move]
  cases origin cu die with
  | none => rfl
  | some found =>
    simp only [Option.map_some, Option.bind_eq_bind, Option.bind_some, attributes_move,
      Attributes.move, getDieAtOffset_move]
    cases found.attributes.type with
    | none => rfl
    | some offset =>
      dsimp only
      cases getDieAtOffset cu offset with
      | none => rfl
      | some type =>
        simp only [Option.map_some, Option.bind_some, attributes_move, Attributes.move]

theorem getBytesize_move (die : Die) :
    getBytesize (cu.move base reloc) (die.move base reloc) = getBytesize cu die := by
  rw [getBytesize, getBytesize, origin_move]
  cases origin cu die with
  | none => rfl
  | some found =>
    simp only [Option.map_some, Option.bind_eq_bind, Option.bind_some, attributes_move,
      Attributes.move, getDieAtOffset_move, iterDies_move, List.length_map]
    cases found.attributes.type with
    | none => rfl
    | some offset =>
      dsimp only
      cases getDieAtOffset cu offset with
      | none => rfl
      | some type =>
        simp only [Option.map_some, Option.bind_some, underlying_move]
        cases underlying cu (cu.iterDies.length + 2) type with
        | none => rfl
        | some under =>
          simp only [Option.map_some, Option.bind_some, attributes_move, Attributes.move]

theorem getParametersFromDie_move (die : Die) :
    getParametersFromDie (cu.move base reloc) (die.move base reloc) =
      getParametersFromDie cu die := by
  rw [getParametersFromDie, getParametersFromDie, children_move, List.filter_map, mapM_map]
  have tags : ((fun child => decide (child.tag = .formalParameter)) ∘ Die.move base reloc) =
      fun child => decide (child.tag = .formalParameter) := by
    funext child
    rw [Function.comp, tag_move]
  rw [tags]
  refine mapM_congr (List.forall₂_same.mpr fun child _ => ?_)
  rw [Function.comp, getType_move, getName_move]

theorem function_move (s : Subprogram) : (s.move base reloc).function = s.function := by
  simp only [Subprogram.function, Subprogram.move, getParametersFromDie_move, getType_move,
    getName_move, getBytesize_move]

theorem subprograms_move :
    (cu.move base reloc).subprograms = cu.subprograms.map (Subprogram.move base reloc) := by
  rw [Cu.subprograms, Cu.subprograms, iterDies_move, List.flatMap_map, List.map_flatMap]
  refine List.flatMap_congr fun die _ => ?_
  rw [children_move, List.filterMap_map, List.map_filterMap]
  refine List.filterMap_congr fun child _ => ?_
  rw [Function.comp, tag_move, attributes_move]
  split
  · simp [Attributes.move, Function.comp_def, Subprogram.move]
  · rfl

theorem entries_move :
    (cu.move base reloc).entries = cu.entries.map fun entry => (reloc entry.1, entry.2) := by
  rw [Cu.entries, Cu.entries, subprograms_move, List.map_map, List.map_map]
  refine List.map_congr_left fun s _ => ?_
  simp only [Function.comp, function_move]
  rfl

end Move

/-! ## Sorting by name -/

theorem normalize_perm (perm : List.Perm funcs funcs')
    (distinct : (funcs'.map Function.key).Nodup) :
    normalize funcs = normalize funcs' := by
  have nameless : (∃ f ∈ funcs, f.name = none) ↔ ∃ f ∈ funcs', f.name = none := by
    simp only [perm.mem_iff]
  have sorted : funcs.insertionSort (fun f g => f.key ≤ g.key) =
      funcs'.insertionSort fun f g => f.key ≤ g.key := by
    refine List.Perm.eq_of_pairwise (fun f g member member' below above => ?_)
      (List.pairwise_insertionSort _ _) (List.pairwise_insertionSort _ _) ?_
    · have inside : f ∈ funcs' := perm.mem_iff.mp ((List.perm_insertionSort _ _).mem_iff.mp member)
      have inside' : g ∈ funcs' := (List.perm_insertionSort _ _).mem_iff.mp member'
      exact List.inj_on_of_nodup_map distinct inside inside' (le_antisymm below above)
    · exact (List.perm_insertionSort _ _).trans (perm.trans (List.perm_insertionSort _ _).symm)
  rw [normalize, normalize, perm.length_eq, sorted]
  simp only [nameless]

/-- The functions of a module in any order make one file, if no two have the same name. -/
theorem fileOf_perm (name : String) {funcs funcs' : Option (List Function)}
    (perm : Option.Rel List.Perm funcs funcs')
    (distinct : ∀ list, funcs' = some list → (list.map Function.key).Nodup) :
    fileOf name funcs = fileOf name funcs' := by
  cases perm with
  | none => rfl
  | some perm =>
    rw [fileOf, fileOf, Option.bind_some, Option.bind_some, normalize_perm perm (distinct _ rfl)]

/-! ## Images -/

/-- A module before linking: its name, and which functions it has. In a unit of an object file
`lowPc` is the number of a symbol, not yet an address. -/
structure Part where
  name : String
  code : Nat → Bool

/-- The image has the units, in any order and each with its own place for its debug information;
a symbol has the address that the linker gave it, each module a range of its own. -/
structure Linked (units : List Cu) (parts : List Part) (elf : Elf) : Prop where
  apart : Apart (elf.sections.filterMap moduleOf)
  placed : ∃ (placement : List (Cu × Nat)) (reloc : Nat → Nat), placement.map Prod.fst = units ∧
    elf.cus.Perm (placement.map fun placed => placed.1.move placed.2 reloc) ∧
    List.Forall₂ (fun part m => m.name = part.name ∧ ∀ entry ∈ units.flatMap Cu.entries,
      decide (m.Contains (reloc entry.1)) = part.code entry.1)
      parts (elf.sections.filterMap moduleOf)

theorem entries_placed (placement : List (Cu × Nat)) (reloc : Nat → Nat) :
    (placement.map fun placed => placed.1.move placed.2 reloc).flatMap Cu.entries =
      ((placement.map Prod.fst).flatMap Cu.entries).map fun entry => (reloc entry.1, entry.2) := by
  rw [List.flatMap_map, List.flatMap_map, List.map_flatMap]
  exact List.flatMap_congr fun placed _ => entries_move placed.2 reloc placed.1

/-- Up to order, the functions of a module are those of its part. -/
theorem functionsIn_linked {entries moved : List Entry} {reloc : Nat → Nat}
    {code code' : Nat → Bool}
    (perm : moved.Perm (entries.map fun entry => (reloc entry.1, entry.2)))
    (same : ∀ entry ∈ entries, code' (reloc entry.1) = code entry.1) :
    Option.Rel List.Perm (functionsIn moved code') (functionsIn entries code) := by
  have kept : (entries.map fun entry => (reloc entry.1, entry.2)).filter
      (fun entry => code' entry.1) =
      (entries.filter fun entry => code entry.1).map fun entry => (reloc entry.1, entry.2) := by
    rw [List.filter_map]
    exact congrArg _ (List.filter_congr fun entry member => same entry member)
  have found := mapM_perm Prod.snd (perm.filter fun entry => code' entry.1)
  rw [kept, mapM_map] at found
  exact found

theorem processFile_linked (linked : Linked units parts elf)
    (distinct : ∀ part ∈ parts, ∀ list, functionsIn (units.flatMap Cu.entries) part.code =
      some list →
      (list.map Function.key).Nodup) :
    processFile elf = parts.mapM fun part =>
      fileOf part.name (functionsIn (units.flatMap Cu.entries) part.code) := by
  obtain ⟨apart, placement, reloc, rfl, cus, modules⟩ := linked
  rw [processFile_eq elf apart]
  have perm := cus.flatMap_right Cu.entries
  rw [entries_placed] at perm
  refine (mapM_congr ?_).symm
  refine ((List.forall₂_and_left _ _).mpr ⟨distinct, modules⟩).imp fun part m ⟨unique, name,
    same⟩ => ?_
  rw [name]
  exact (fileOf_perm _ (functionsIn_linked perm same) unique).symm

/-- The enumeration and the table of the file follow the names of its functions. -/
def CFile.Ordered (file : CFile) : Prop :=
  (file.stubs.map Stub.name).Pairwise (· < ·) ∧
    file.tags = file.stubs.map (fun stub => "_" ++ stub.name) ∧
    file.interface = file.stubs.map fun stub => "&" ++ stub.name

theorem generateStub_name (made : generateStub f = some stub) :
    stub.name = f.key ∧ stub.tag = "_" ++ stub.name := by
  obtain ⟨name, named, made⟩ := Option.bind_eq_some_iff.mp made
  obtain ⟨listed, -, made⟩ := Option.bind_eq_some_iff.mp made
  cases made
  exact ⟨by rw [Function.key, named, Option.getD_some], rfl⟩

theorem fileOf_ordered (distinct : ∀ list, funcs = some list → (list.map Function.key).Nodup)
    (made : fileOf name funcs = some file) : file.Ordered := by
  obtain ⟨sorted, found, generated⟩ := Option.bind_eq_some_iff.mp made
  obtain ⟨list, rfl, normal⟩ := Option.bind_eq_some_iff.mp found
  obtain ⟨stubs, each, written⟩ := Option.bind_eq_some_iff.mp generated
  cases written
  unfold normalize at normal
  split at normal
  · cases normal
  cases normal
  have names : stubs.map Stub.name = (list.insertionSort fun f g => f.key ≤ g.key).map
      Function.key :=
    map_of_mapM each fun f stub found => (generateStub_name found).1
  refine ⟨?_, List.map_congr_left fun stub member => ?_, rfl⟩
  · rw [names, List.pairwise_map]
    have unique : (list.insertionSort fun f g => f.key ≤ g.key).Pairwise fun f g => f.key ≠ g.key :=
      List.pairwise_map.mp (((List.perm_insertionSort _ _).map _).nodup_iff.mpr (distinct list rfl))
    exact (List.pairwise_insertionSort _ list).imp₂ (fun _ _ below apart =>
      lt_of_le_of_ne below apart) unique
  · obtain ⟨f, -, stubbed⟩ := mem_of_mapM each member
    exact (generateStub_name stubbed).2

/-- The generated files are the same for all images of one device, and in each the place of a
function goes by its name. -/
theorem files_independent_of_link (linked : Linked units parts elf)
    (linked' : Linked units parts elf')
    (distinct : ∀ part ∈ parts, ∀ list, functionsIn (units.flatMap Cu.entries) part.code =
      some list →
      (list.map Function.key).Nodup) :
    processFile elf = processFile elf' ∧
      ∀ files, processFile elf = some files → ∀ file ∈ files, file.Ordered := by
  rw [processFile_linked linked distinct, processFile_linked linked' distinct]
  refine ⟨rfl, fun files made file member => ?_⟩
  obtain ⟨part, inside, found⟩ := mem_of_mapM made member
  exact fileOf_ordered (distinct part inside) found

def unitOf (function : String) (address : Nat) : Cu :=
  ⟨0, .mk 11 .other ⟨some "unit.c", none, none, none, none⟩
    [.mk 20 .subprogram ⟨some function, none, none, none, some address⟩ []]⟩

def ledUnits : List Cu := [unitOf "led_set" 0, unitOf "led_get" 8]

/-- The two units in the order of the object files, or the other way round and elsewhere. -/
def image : Elf :=
  ⟨[⟨".lm.led", 0x100, 0x10⟩],
    [(unitOf "led_set" 0).move 0 (· + 0x100), (unitOf "led_get" 8).move 64 (· + 0x100)]⟩

def image' : Elf :=
  ⟨[⟨".text", 0, 0x500⟩, ⟨".lm.led", 0x500, 0x20⟩],
    [(unitOf "led_get" 8).move 0 (0x510 - ·), (unitOf "led_set" 0).move 32 (0x510 - ·)]⟩

theorem files_independent_of_link_led : processFile image = processFile image' ∧
    (processFile image).map (·.map CFile.interface) = some [["&led_get", "&led_set"]] := by
  have linked : Linked ledUnits [⟨"led", fun _ => true⟩] image :=
    { apart := List.pairwise_singleton _ _
      placed := ⟨[(unitOf "led_set" 0, 0), (unitOf "led_get" 8, 64)], (· + 0x100), rfl, .refl _,
        .cons ⟨by decide, by decide⟩ .nil⟩ }
  have linked' : Linked ledUnits [⟨"led", fun _ => true⟩] image' :=
    { apart := List.pairwise_singleton _ _
      placed := ⟨[(unitOf "led_set" 0, 32), (unitOf "led_get" 8, 0)], (0x510 - ·), rfl, .swap _ _ _,
        .cons ⟨by decide, by decide⟩ .nil⟩ }
  have distinct : ∀ part ∈ [(⟨"led", fun _ => true⟩ : Part)], ∀ list,
      functionsIn (ledUnits.flatMap Cu.entries) part.code = some list →
        (list.map Function.key).Nodup := by
    intro part member list found
    obtain rfl := List.mem_singleton.mp member
    have names : (functionsIn (ledUnits.flatMap Cu.entries) fun _ => true).map
        (·.map Function.key) =
      some ["led_set", "led_get"] := by decide
    rw [found] at names
    have keys : list.map Function.key = ["led_set", "led_get"] := Option.some.inj names
    rw [keys]
    decide
  exact ⟨(files_independent_of_link linked linked' distinct).1, by decide⟩

end Flipper.Fdwarf
