import ModRepair.Interchange.Fault
import ModRepair.Metadata.Module

/-!
# Reading modules and assemblies from JSON

One reader for each kind of reference, declaration and document. Members that a reader does not know are ignored;
flags and lists may be left out, names and types may not. Every reader is total on all JSON values: what it
cannot use is a `Fault`.
-/

namespace ModRepair.Interchange

/-! ## References -/

def readTypeRef : Json → Result TypeRef
  | .string text =>
    match TypeRef.ofText? text with
    | some ref => .ok ref
    | none => .error (.invalidTypeText text)
  | _ => .error .notTypeText

/-- The type under a key. -/
def typeAt (key : String) (context : Bytes) (j : Json) : Result TypeRef :=
  match j.get? (ascii key) with
  | some value => readTypeRef value
  | none => .error (.missing context (ascii key))

def readFieldRef (j : Json) : Result FieldRef := do
  let context := ascii "field reference"
  let name ← stringAt "name" context j
  let declaringType ← typeAt "type" context j
  let fieldType ← typeAt "field_type" context j
  return { declaringType, name, fieldType }

def readMethodRef (j : Json) : Result MethodRef := do
  let context := ascii "method reference"
  let name ← stringAt "name" context j
  let declaringType ← typeAt "type" context j
  let returnType ← typeAt "return" context j
  let parameters ← listAt "parameters" (context ++ ascii " " ++ name) readTypeRef j
  return { declaringType, name, returnType, parameters, hasThis := boolAt "instance" true j }

def readPropertyRef (j : Json) : Result PropertyRef := do
  let context := ascii "property reference"
  let name ← stringAt "name" context j
  let declaringType ← typeAt "type" context j
  let propertyType ← typeAt "property_type" context j
  return { declaringType, name, propertyType }

/-- Reads a reference of a kind. -/
def readRef : OperandKind → Json → Result Operand
  | .none, _ => .ok .none
  | .type, j => (readTypeRef j).map .type
  | .field, j => (readFieldRef j).map .field
  | .method, j => (readMethodRef j).map .method
  | .property, j => (readPropertyRef j).map .property

/-! ## Instructions -/

/-- The kinds of operand, in the order in which an instruction is searched for them. -/
def operandOrder : List OperandKind :=
  [.field, .method, .property, .type]

/-- The operand of an instruction: the first that is given under the name of its kind. -/
def readOperand (j : Json) : Result Operand :=
  match operandOrder.findSome? fun kind => (j.get? kind.name).map (kind, ·) with
  | some (kind, ref) => readRef kind ref
  | none => .ok .none

def readInstruction (j : Json) : Result Instruction := do
  let mnemonic ← stringAt "op" (ascii "instruction") j
  match Opcode.ofMnemonic? mnemonic with
  | none => .error (.unknownOpcode mnemonic)
  | some opcode =>
    let operand ← (readOperand j).mapError (.within mnemonic)
    let i : Instruction := ⟨opcode, operand⟩
    if i.isWellFormed then return i else .error (.misfit mnemonic)

/-! ## Declarations -/

/-- What messages call a thing of a kind and a name. -/
def described (kind : String) (name : Bytes) : Bytes :=
  ascii kind ++ ascii " " ++ name

def readField (j : Json) : Result FieldDecl := do
  let name ← stringAt "name" (ascii "field") j
  let type ← typeAt "type" (described "field" name) j
  return { name, type, isStatic := boolAt "static" false j, isLiteral := boolAt "literal" false j }

/-- A body is a list of instructions; a method without the key has none. -/
def readBody (context : Bytes) (j : Json) : Result (Option (List Instruction)) :=
  match j.get? (ascii "body") with
  | none => .ok none
  | some _ => (listAt "body" context readInstruction j).map some

def readMethod (j : Json) : Result MethodDecl := do
  let name ← stringAt "name" (ascii "method") j
  let context := described "method" name
  let returnType ← typeAt "return" context j
  let parameters ← listAt "parameters" context readTypeRef j
  let body ← readBody context j
  return { signature := { name, returnType, parameters, isStatic := boolAt "static" false j }, body }

def readProperty (j : Json) : Result PropertyDecl := do
  let name ← stringAt "name" (ascii "property") j
  let type ← typeAt "type" (described "property" name) j
  return { name, type, getter := j.getString? (ascii "get"), setter := j.getString? (ascii "set") }

def readEvent (j : Json) : Result EventDecl := do
  let name ← stringAt "name" (ascii "event") j
  let type ← typeAt "type" (described "event" name) j
  return { name, type }

def readType (j : Json) : Result TypeDecl := do
  let fullName ← stringAt "name" (ascii "type") j
  let context := described "type" fullName
  let fields ← listAt "fields" context readField j
  let methods ← listAt "methods" context readMethod j
  let properties ← listAt "properties" context readProperty j
  let events ← listAt "events" context readEvent j
  return { fullName, fields, methods, properties, events }

/-! ## Documents -/

def readAssembly (j : Json) : Result Assembly := do
  let name ← stringAt "name" (ascii "assembly") j
  let types ← listAt "types" (described "assembly" name) readType j
  return { name, types }

/-- The names of the assemblies that a module refers to: an array of strings, if given. -/
def readAssemblyNames (context : Bytes) (j : Json) : Result (List Bytes) :=
  let key := ascii "assembly_references"
  match j.get? key with
  | none => .ok []
  | some (.array items) =>
    (readAll (fun item => (item.string?).elim (.error (.missing context key)) .ok) items)
  | some _ => .error (.missing context key)

def readModule (host : Option Host) (j : Json) : Result Module := do
  let name ← stringAt "name" (ascii "module") j
  let context := described "module" name
  let moduleTypes ← listAt "types" context readType j
  let assemblies ← readAssemblyNames context j
  let types ← listAt "imported_types" context readTypeRef j
  let fields ← listAt "imported_fields" context readFieldRef j
  let methods ← listAt "imported_methods" context readMethodRef j
  return { name, host, types := moduleTypes, imports := { assemblies, types, fields, methods } }

end ModRepair.Interchange
