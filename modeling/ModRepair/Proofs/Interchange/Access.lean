import ModRepair.Interchange.Reader
import ModRepair.Proofs.Json.Access

/-!
# Reading modules and assemblies with accessors

The readers of `Interchange` take values apart by views. Here they are once more, with accessors, each behind the test
of the kind that makes it safe: names and flags are looked up by `Json.accessString?` and `Json.accessBool`, and
lists, types and the names of assemblies are read behind a test of their own. Every reader comes to what its namesake
with views comes to, so no accessor is ever misused, whatever the document is. Each reader has a law of its own, in the
order of the readers; the last are `readAssembly_eq` and `readModule_eq`.
-/

namespace ModRepair.Interchange.ByKind

open Trouble

/-! ## Strings, flags and lists -/

def stringAt (key : String) (context : Bytes) (j : Json) : Access Fault Bytes := do
  match ← j.accessString? (ascii key) with
  | some s => return s
  | none => .error (.fault (.missing context (ascii key)))

def boolAt (key : String) (fallback : Bool) (j : Json) : Access Fault Bool :=
  j.accessBool (ascii key) fallback

def readAll {α : Type} (read : Json → Access Fault α) : List Json → Access Fault (List α)
  | [] => return []
  | j :: rest => do
    let a ← read j
    let as ← readAll read rest
    return a :: as

/-- The elements of the array under a key: a value of another kind is told from an array before it is accessed. -/
def listAt {α : Type} (key : String) (context : Bytes) (read : Json → Access Fault α) (j : Json) :
    Access Fault (List α) :=
  match j.get? (ascii key) with
  | none => return []
  | some value =>
    if value.kind = Json.Accessor.array.kind then do
      let items ← Json.Accessor.array.get value
      (readAll read items).mapError (map (.within context))
    else .error (.fault (.missing context (ascii key)))

section

variable {α : Type} {key : String} {context : Bytes} {j : Json}

theorem stringAt_eq : stringAt key context j = lift (Interchange.stringAt key context j) := by
  unfold stringAt Interchange.stringAt
  rw [Json.accessString?_eq, pure_bind]
  cases j.getString? (ascii key) with
  | none => rfl
  | some s => rfl

theorem boolAt_eq {fallback : Bool} : boolAt key fallback j = pure (Interchange.boolAt key fallback j) :=
  Json.accessBool_eq (ascii key) fallback j

variable {read : Json → Access Fault α} {view : Json → Result α} (hread : ∀ j, read j = lift (view j))

include hread

theorem readAll_eq (js : List Json) : readAll read js = lift (Interchange.readAll view js) := by
  induction js with
  | nil => rfl
  | cons j js ih =>
      unfold readAll Interchange.readAll
      rw [lift_bind, hread j]
      refine bind_congr fun a => ?_
      rw [lift_bind, ih]
      rfl

theorem listAt_eq : listAt key context read j = lift (Interchange.listAt key context view j) := by
  unfold listAt Interchange.listAt
  cases j.get? (ascii key) with
  | none => rfl
  | some value =>
      simp only [Json.Accessor.guarded, readAll_eq hread, ← lift_mapError]
      -- Only for an array both have elements to read.
      cases value with
      | array items => rfl
      | _ => rfl

end

/-! ## References -/

def readTypeRef (j : Json) : Access Fault TypeRef :=
  if j.kind = Json.Accessor.string.kind then do
    let text ← Json.Accessor.string.get j
    match TypeRef.ofText? text with
    | some ref => return ref
    | none => .error (.fault (.invalidTypeText text))
  else .error (.fault .notTypeText)

def typeAt (key : String) (context : Bytes) (j : Json) : Access Fault TypeRef :=
  match j.get? (ascii key) with
  | some value => readTypeRef value
  | none => .error (.fault (.missing context (ascii key)))

def readFieldRef (j : Json) : Access Fault FieldRef := do
  let context := ascii "field reference"
  let name ← stringAt "name" context j
  let declaringType ← typeAt "type" context j
  let fieldType ← typeAt "field_type" context j
  return { declaringType, name, fieldType }

def readMethodRef (j : Json) : Access Fault MethodRef := do
  let context := ascii "method reference"
  let name ← stringAt "name" context j
  let declaringType ← typeAt "type" context j
  let returnType ← typeAt "return" context j
  let hasThis ← boolAt "instance" true j
  let parameters ← listAt "parameters" (context ++ ascii " " ++ name) readTypeRef j
  return { declaringType, name, returnType, parameters, hasThis }

def readPropertyRef (j : Json) : Access Fault PropertyRef := do
  let context := ascii "property reference"
  let name ← stringAt "name" context j
  let declaringType ← typeAt "type" context j
  let propertyType ← typeAt "property_type" context j
  return { declaringType, name, propertyType }

def readRef : OperandKind → Json → Access Fault Operand
  | .none, _ => return .none
  | .type, j => (readTypeRef j).map .type
  | .field, j => (readFieldRef j).map .field
  | .method, j => (readMethodRef j).map .method
  | .property, j => (readPropertyRef j).map .property

section

variable {key : String} {context : Bytes}

theorem readTypeRef_eq (j : Json) : readTypeRef j = lift (Interchange.readTypeRef j) := by
  unfold readTypeRef
  rw [Json.Accessor.guarded]
  cases j with
  | string text =>
      show (match TypeRef.ofText? text with
        | some ref => pure ref
        | none => .error (.fault (.invalidTypeText text)) : Access Fault TypeRef) =
        lift (match TypeRef.ofText? text with
          | some ref => .ok ref
          | none => .error (.invalidTypeText text))
      cases TypeRef.ofText? text with
      | none => rfl
      | some ref => rfl
  | _ => rfl

theorem typeAt_eq {j : Json} : typeAt key context j = lift (Interchange.typeAt key context j) := by
  unfold typeAt Interchange.typeAt
  cases j.get? (ascii key) with
  | none => rfl
  | some value => exact readTypeRef_eq value

theorem readFieldRef_eq (j : Json) : readFieldRef j = lift (Interchange.readFieldRef j) := by
  unfold readFieldRef Interchange.readFieldRef
  simp only [stringAt_eq, typeAt_eq, lift_bind, lift_pure]

theorem readMethodRef_eq (j : Json) : readMethodRef j = lift (Interchange.readMethodRef j) := by
  unfold readMethodRef Interchange.readMethodRef
  simp only [stringAt_eq, typeAt_eq, boolAt_eq, listAt_eq readTypeRef_eq, pure_bind, lift_bind, lift_pure]

theorem readPropertyRef_eq (j : Json) : readPropertyRef j = lift (Interchange.readPropertyRef j) := by
  unfold readPropertyRef Interchange.readPropertyRef
  simp only [stringAt_eq, typeAt_eq, lift_bind, lift_pure]

theorem readRef_eq (kind : OperandKind) (j : Json) : readRef kind j = lift (Interchange.readRef kind j) := by
  cases kind with
  | none => rfl
  | type => simp only [readRef, Interchange.readRef, readTypeRef_eq, lift_map]
  | field => simp only [readRef, Interchange.readRef, readFieldRef_eq, lift_map]
  | method => simp only [readRef, Interchange.readRef, readMethodRef_eq, lift_map]
  | property => simp only [readRef, Interchange.readRef, readPropertyRef_eq, lift_map]

end

/-! ## Instructions -/

def readOperand (j : Json) : Access Fault Operand :=
  match operandOrder.findSome? fun kind => (j.get? kind.name).map (kind, ·) with
  | some (kind, ref) => readRef kind ref
  | none => return .none

def readInstruction (j : Json) : Access Fault Instruction := do
  let mnemonic ← stringAt "op" (ascii "instruction") j
  match Opcode.ofMnemonic? mnemonic with
  | none => .error (.fault (.unknownOpcode mnemonic))
  | some opcode =>
    let operand ← (readOperand j).mapError (map (.within mnemonic))
    let i : Instruction := ⟨opcode, operand⟩
    if i.isWellFormed then return i else .error (.fault (.misfit mnemonic))

theorem readOperand_eq (j : Json) : readOperand j = lift (Interchange.readOperand j) := by
  unfold readOperand Interchange.readOperand
  generalize operandOrder.findSome? (fun kind => (j.get? kind.name).map (kind, ·)) = found
  cases found with
  | none => rfl
  | some operand => exact readRef_eq operand.1 operand.2

theorem readInstruction_eq (j : Json) : readInstruction j = lift (Interchange.readInstruction j) := by
  unfold readInstruction Interchange.readInstruction
  rw [lift_bind, stringAt_eq]
  refine bind_congr fun mnemonic => ?_
  cases Opcode.ofMnemonic? mnemonic with
  | none => rfl
  | some opcode =>
      simp only
      rw [lift_bind, lift_mapError, readOperand_eq]
      refine bind_congr fun operand => ?_
      split
      · rfl
      · rfl

/-! ## Declarations -/

def readField (j : Json) : Access Fault FieldDecl := do
  let name ← stringAt "name" (ascii "field") j
  let type ← typeAt "type" (described "field" name) j
  let isStatic ← boolAt "static" false j
  let isLiteral ← boolAt "literal" false j
  return { name, type, isStatic, isLiteral }

def readBody (context : Bytes) (j : Json) : Access Fault (Option (List Instruction)) :=
  match j.get? (ascii "body") with
  | none => return none
  | some _ => (listAt "body" context readInstruction j).map some

def readMethod (j : Json) : Access Fault MethodDecl := do
  let name ← stringAt "name" (ascii "method") j
  let context := described "method" name
  let returnType ← typeAt "return" context j
  let isStatic ← boolAt "static" false j
  let parameters ← listAt "parameters" context readTypeRef j
  let body ← readBody context j
  return { signature := { name, returnType, parameters, isStatic }, body }

def readProperty (j : Json) : Access Fault PropertyDecl := do
  let name ← stringAt "name" (ascii "property") j
  let type ← typeAt "type" (described "property" name) j
  let getter ← j.accessString? (ascii "get")
  let setter ← j.accessString? (ascii "set")
  return { name, type, getter, setter }

def readEvent (j : Json) : Access Fault EventDecl := do
  let name ← stringAt "name" (ascii "event") j
  let type ← typeAt "type" (described "event" name) j
  return { name, type }

def readType (j : Json) : Access Fault TypeDecl := do
  let fullName ← stringAt "name" (ascii "type") j
  let context := described "type" fullName
  let fields ← listAt "fields" context readField j
  let methods ← listAt "methods" context readMethod j
  let properties ← listAt "properties" context readProperty j
  let events ← listAt "events" context readEvent j
  return { fullName, fields, methods, properties, events }

theorem readField_eq (j : Json) : readField j = lift (Interchange.readField j) := by
  unfold readField Interchange.readField
  simp only [stringAt_eq, typeAt_eq, boolAt_eq, pure_bind, lift_bind, lift_pure]

theorem readBody_eq (context : Bytes) (j : Json) : readBody context j = lift (Interchange.readBody context j) := by
  unfold readBody Interchange.readBody
  cases j.get? (ascii "body") with
  | none => rfl
  | some value => simp only [listAt_eq readInstruction_eq, lift_map]

theorem readMethod_eq (j : Json) : readMethod j = lift (Interchange.readMethod j) := by
  unfold readMethod Interchange.readMethod
  simp only [stringAt_eq, typeAt_eq, boolAt_eq, listAt_eq readTypeRef_eq, readBody_eq, pure_bind, lift_bind, lift_pure]

theorem readProperty_eq (j : Json) : readProperty j = lift (Interchange.readProperty j) := by
  unfold readProperty Interchange.readProperty
  simp only [stringAt_eq, typeAt_eq, Json.accessString?_eq, pure_bind, lift_bind, lift_pure]

theorem readEvent_eq (j : Json) : readEvent j = lift (Interchange.readEvent j) := by
  unfold readEvent Interchange.readEvent
  simp only [stringAt_eq, typeAt_eq, lift_bind, lift_pure]

theorem readType_eq (j : Json) : readType j = lift (Interchange.readType j) := by
  unfold readType Interchange.readType
  simp only [stringAt_eq, listAt_eq readField_eq, listAt_eq readMethod_eq, listAt_eq readProperty_eq,
    listAt_eq readEvent_eq, lift_bind, lift_pure]

/-! ## Documents -/

def readAssembly (j : Json) : Access Fault Assembly := do
  let name ← stringAt "name" (ascii "assembly") j
  let types ← listAt "types" (described "assembly" name) readType j
  return { name, types }

/-- The name of an assembly. -/
def readAssemblyName (context : Bytes) (item : Json) : Access Fault Bytes :=
  if item.kind = Json.Accessor.string.kind then Json.Accessor.string.get item
  else .error (.fault (.missing context (ascii "assembly_references")))

def readAssemblyNames (context : Bytes) (j : Json) : Access Fault (List Bytes) :=
  match j.get? (ascii "assembly_references") with
  | none => return []
  | some value =>
    if value.kind = Json.Accessor.array.kind then do
      let items ← Json.Accessor.array.get value
      readAll (readAssemblyName context) items
    else .error (.fault (.missing context (ascii "assembly_references")))

def readModule (host : Option Host) (j : Json) : Access Fault Module := do
  let name ← stringAt "name" (ascii "module") j
  let context := described "module" name
  let moduleTypes ← listAt "types" context readType j
  let assemblies ← readAssemblyNames context j
  let types ← listAt "imported_types" context readTypeRef j
  let fields ← listAt "imported_fields" context readFieldRef j
  let methods ← listAt "imported_methods" context readMethodRef j
  return { name, host, types := moduleTypes, imports := { assemblies, types, fields, methods } }

/-- **Assemblies** are read as with views. -/
theorem readAssembly_eq (j : Json) : readAssembly j = lift (Interchange.readAssembly j) := by
  unfold readAssembly Interchange.readAssembly
  simp only [stringAt_eq, listAt_eq readType_eq, lift_bind, lift_pure]

theorem readAssemblyName_eq (context : Bytes) (item : Json) :
    readAssemblyName context item =
      lift (item.string?.elim (.error (.missing context (ascii "assembly_references"))) .ok) := by
  unfold readAssemblyName
  rw [← bind_pure (Json.Accessor.string.get item), Json.Accessor.guarded]
  show item.string?.elim _ _ = _
  cases item.string? with
  | none => rfl
  | some s => rfl

theorem readAssemblyNames_eq (context : Bytes) (j : Json) :
    readAssemblyNames context j = lift (Interchange.readAssemblyNames context j) := by
  unfold readAssemblyNames Interchange.readAssemblyNames
  simp only
  cases j.get? (ascii "assembly_references") with
  | none => rfl
  | some value =>
      simp only [Json.Accessor.guarded, readAll_eq (readAssemblyName_eq context)]
      cases value with
      | array items => rfl
      | _ => rfl

/-- **Modules** are read as with views. -/
theorem readModule_eq (host : Option Host) (j : Json) : readModule host j = lift (Interchange.readModule host j) := by
  unfold readModule Interchange.readModule
  simp only [stringAt_eq, listAt_eq readType_eq, readAssemblyNames_eq, listAt_eq readTypeRef_eq,
    listAt_eq readFieldRef_eq, listAt_eq readMethodRef_eq, lift_bind, lift_pure]

end ModRepair.Interchange.ByKind
