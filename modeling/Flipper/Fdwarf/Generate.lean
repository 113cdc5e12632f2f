import Flipper.Effect.Traverse
import Mathlib.Data.List.Sort
import Mathlib.Data.String.Basic

/-! `utils/fdwarf/fdwarf.py`: the interface of a device from the debug information of its image.
The generated stubs name a function by its place in the table of its module, so the place must
not depend on how the image was linked. Where the program raises an exception or loops, there is
no result. -/
namespace Flipper.Fdwarf
open Effect

inductive DwTag where
  | subprogram | formalParameter | typedef | other
  deriving DecidableEq

structure Attributes where
  name : Option String
  abstractOrigin : Option Nat
  type : Option Nat
  byteSize : Option Nat
  lowPc : Option Nat

inductive Die where
  | mk (offset : Nat) (tag : DwTag) (attributes : Attributes) (children : List Die)

namespace Die

def offset : Die → Nat
  | mk offset _ _ _ => offset

def tag : Die → DwTag
  | mk _ tag _ _ => tag

def attributes : Die → Attributes
  | mk _ _ attributes _ => attributes

def children : Die → List Die
  | mk _ _ _ children => children

end Die

mutual

def Die.all : Die → List Die
  | .mk offset tag attributes children => .mk offset tag attributes children :: Die.allOf children

def Die.allOf : List Die → List Die
  | [] => []
  | die :: later => die.all ++ Die.allOf later

end

structure Cu where
  cuOffset : Nat
  topDie : Die

def Cu.iterDies (cu : Cu) : List Die := cu.topDie.all

structure Section where
  name : String
  shAddr : Nat
  shSize : Nat

structure Elf where
  sections : List Section
  cus : List Cu

structure Parameter where
  type : String
  name : Option String
  deriving DecidableEq

structure Function where
  type : String
  name : Option String
  ret : Int
  parameters : List Parameter
  deriving DecidableEq

structure Module where
  name : String
  start : Nat
  stop : Nat
  funcs : List Function
  deriving DecidableEq

def getDieAtOffset (cu : Cu) (offset : Nat) : Option Die :=
  cu.iterDies.find? fun die => die.offset == cu.cuOffset + offset

/-- The entry an instance stands for. A walk of more steps than there are entries does not end. -/
def originOf (cu : Cu) : Nat → Die → Option Die
  | 0, _ => none
  | steps + 1, die =>
    match die.attributes.abstractOrigin with
    | none => some die
    | some offset => (getDieAtOffset cu offset).bind (originOf cu steps)

def origin (cu : Cu) (die : Die) : Option Die := originOf cu (cu.iterDies.length + 2) die

/-- The message about a missing name has the name of the unit in it. -/
def getName (cu : Cu) (die : Die) : Option (Option String) := do
  let die ← origin cu die
  match die.attributes.name with
  | some name => some (some name)
  | none => cu.topDie.attributes.name.map fun _ => none

def underlying (cu : Cu) : Nat → Die → Option Die
  | 0, _ => none
  | steps + 1, die =>
    if die.tag = .typedef then
      die.attributes.type.bind fun offset => (getDieAtOffset cu offset).bind (underlying cu steps)
    else some die

def getBytesize (cu : Cu) (die : Die) : Option Int := do
  let die ← origin cu die
  match die.attributes.type with
  | none => some (-1)
  | some offset =>
    let tdie ← getDieAtOffset cu offset
    let tdie ← underlying cu (cu.iterDies.length + 2) tdie
    match tdie.attributes.byteSize with
    | none => some (-1)
    | some size => some size

def getType (cu : Cu) (die : Die) : Option String := do
  let die ← origin cu die
  match die.attributes.type with
  | none => some "void"
  | some offset =>
    let tdie ← getDieAtOffset cu offset
    some (tdie.attributes.name.getD "void*")

def getParametersFromDie (cu : Cu) (die : Die) : Option (List Parameter) :=
  (die.children.filter fun child => child.tag = .formalParameter).mapM fun child => do
    let type ← getType cu child
    let name ← getName cu child
    some ⟨type, name⟩

structure Subprogram where
  cu : Cu
  die : Die
  address : Nat

def Subprogram.function (s : Subprogram) : Option Function := do
  let params ← getParametersFromDie s.cu s.die
  let type ← getType s.cu s.die
  let name ← getName s.cu s.die
  let bs ← getBytesize s.cu s.die
  some ⟨type, name, bs, params⟩

def Cu.subprograms (cu : Cu) : List Subprogram :=
  cu.iterDies.flatMap fun die => die.children.filterMap fun child =>
    if child.tag = .subprogram then child.attributes.lowPc.map (Subprogram.mk cu child) else none

def Module.Contains (m : Module) (address : Nat) : Prop := m.start ≤ address ∧ address < m.stop

instance (m : Module) (address : Nat) : Decidable (m.Contains address) :=
  inferInstanceAs (Decidable (_ ∧ _))

def moduleOf (sec : Section) : Option Module :=
  if ".lm.".toList.isPrefixOf sec.name.toList then
    some ⟨String.ofList (sec.name.toList.drop 4), sec.shAddr, sec.shAddr + sec.shSize, []⟩
  else none

/-- A subprogram goes to the first module that contains its address. -/
def place (s : Subprogram) : List Module → Option (List Module)
  | [] => some []
  | m :: later =>
    if m.Contains s.address then s.function.map fun f => { m with funcs := m.funcs ++ [f] } :: later
    else (place s later).map (m :: ·)

def Function.key (f : Function) : String := f.name.getD ""

/-- `sorted` by name, which compares every element if there is more than one. -/
def normalize (funcs : List Function) : Option (List Function) :=
  if 2 ≤ funcs.length ∧ ∃ f ∈ funcs, f.name = none then none
  else some (funcs.insertionSort fun f g => f.key ≤ g.key)

def getModules (elf : Elf) : Option (List Module) := do
  let modules ← (elf.cus.flatMap Cu.subprograms).foldlM (fun modules s => place s modules)
    (elf.sections.filterMap moduleOf)
  modules.mapM fun m => (normalize m.funcs).map fun funcs => { m with funcs }

def Parameter.text (p : Parameter) : String := p.name.getD "None"

def Parameter.str (p : Parameter) : String := p.type ++ " " ++ p.text

def Function.str (f : Function) (name : String) : String :=
  let params := if f.parameters = [] then "void" else ", ".intercalate
    (f.parameters.map Parameter.str)
  f.type ++ " " ++ name ++ "(" ++ params ++ ")"

/-- One generated function: its prototype, what it passes to `lf_invoke`, and the type it casts
the result to. -/
structure Stub where
  name : String
  prototype : String
  tag : String
  ftype : String
  args : Option (List String)
  cast : Option String
  deriving DecidableEq

/-- The enumeration, the table and the functions of a generated file. -/
structure CFile where
  module : String
  tags : List String
  interface : List String
  stubs : List Stub
  deriving DecidableEq

def retl : List String := ["lf_void_t", "", "lf_int8_t", "lf_int16_t", "", "lf_int32_t"]

def argument (p : Parameter) : String :=
  if '*' ∈ p.type.toList then "lf_ptr(" ++ p.text ++ ")" else "lf_infer(" ++ p.text ++ ")"

/-- The entry of `retl` is looked up first, also where another type is put in its place. -/
def generateStub (f : Function) : Option Stub := do
  let name ← f.name
  let listed ← retl[(f.ret + 1).toNat]?
  let ftype := if f.type = "int" then "lf_int_t" else if f.type =
    "void *" then "lf_ptr_t" else listed
  some ⟨name, f.str name, "_" ++ name, ftype,
    if f.parameters = [] then none else some (f.parameters.map argument),
    if f.type ≠ "void" then some f.type else none⟩

def generateFile (m : Module) : Option CFile := do
  let stubs ← m.funcs.mapM generateStub
  some ⟨m.name, stubs.map (·.tag), stubs.map fun stub => "&" ++ stub.name, stubs⟩

def processFile (elf : Elf) : Option (List CFile) := do
  let modules ← getModules elf
  modules.mapM generateFile

end Flipper.Fdwarf
