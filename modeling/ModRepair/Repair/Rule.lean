import ModRepair.Metadata.Module

/-!
# Repair rules

A rule recognises instructions that refer to the host as it used to be and says which instruction does the same
with the host as it is. A rule decides from the instruction and from what references resolve to, and from nothing
else; its answer is a `Replacement`, or `none` if it leaves the instruction alone.

Seven rules: a field has become a property (`fieldToProperty`, and `heuristic` for any field of watched
assemblies), a field has another name (`fieldRename`), a property has become a field (`propertyToField`), a type has
moved (`typeMove`), a method has moved to another type (`methodParent`), and an instance method has become a static
one that takes the receiver first (`methodToStatic`).
-/

namespace ModRepair

/-- What takes the place of an instruction, the references it brings in, and what is said about it. -/
structure Replacement where
  instruction : Instruction
  imports : List Import
  phrase : Bytes
  deriving DecidableEq, Repr

inductive Rule
  /-- `field` of `source` is now `property` of `target`. -/
  | fieldToProperty (source : TypeRef) (field : Bytes) (target : TypeRef) (property : Bytes)
  /-- The field `old` of `type` is now called `new`. -/
  | fieldRename (type : TypeRef) (old new : Bytes)
  /-- `property` of `type` is now its `field`. -/
  | propertyToField (type : TypeRef) (property field : Bytes)
  /-- Types of the full name are now `target`. -/
  | typeMove (fullName : Bytes) (target : TypeRef)
  /-- Methods of `source` are now methods of `target`. -/
  | methodParent (source target : TypeRef)
  /-- `method` of `source`, of `arity` parameters if that is given, is now the static method `shim` of `target`. -/
  | methodToStatic (source : TypeRef) (method : Bytes) (arity : Option Nat) (target : TypeRef) (shim : Bytes)
  /-- Fields of types in the scopes may have become properties of the same type and name. -/
  | heuristic (scopes : List Bytes)
  deriving DecidableEq, Repr

/-- Whether a type belongs to one of the watched assemblies. -/
def watched (scopes : List Bytes) (t : TypeRef) : Bool :=
  scopes.contains t.scope

namespace Rule

/-! ## Building replacements -/

/-- A call of a method in place of an instruction. -/
def toCall (ref : MethodRef) (phrase : Bytes) : Replacement :=
  ⟨⟨.call, .method ref⟩, [.method ref], phrase⟩

/-- An access to a field in place of an instruction. -/
def toField (op : Opcode) (ref : FieldRef) (phrase : Bytes) : Replacement :=
  ⟨⟨op, .field ref⟩, [.field ref], phrase⟩

/-- The simple name of a type, a point, and the name of a member. -/
def simple (t : TypeRef) (member : Bytes) : Bytes :=
  t.name ++ ascii "." ++ member

/-- A remark in parentheses, after a space. -/
def remark (s : Bytes) : Bytes :=
  ascii " (" ++ s ++ ascii ")"

/-! ## Fields and properties -/

/-- What is said of a field that has become a property: the property is named unless it is the field's namesake
on the same type. -/
def propertyPhrase (source : TypeRef) (field : Bytes) (target : TypeRef) (property : Bytes) : Bytes :=
  simple source field ++
    remark (if target = source ∧ property = field then ascii "field => property"
      else ascii "field => " ++ simple target property ++ ascii " property")

/-- A load or store of the field becomes a call of the getter or setter. An instance access stays on its type,
for its receiver is no instance of another. -/
def fieldToPropertyReplacement (source : TypeRef) (field : Bytes) (target : TypeRef) (property : Bytes)
    (find : Resolver) (i : Instruction) : Option Replacement := do
  let _ ← i.field?.filter fun r => r.declaringType == source && r.name == field
  let kind ← i.opcode.accessor?
  let surface ← find target
  let p ← surface.propertyNamed? property
  let isStatic := i.opcode.isStaticAccess
  if isStatic || target == source then
    let s ← surface.accessor? p kind isStatic
    return toCall (s.refOn target) (propertyPhrase source field target property)
  else none

/-- Any access to the field becomes the same access to the field of the new name, if that one has storage and is
static exactly if the access is. -/
def fieldRenameReplacement (type : TypeRef) (old new : Bytes) (find : Resolver) (i : Instruction) :
    Option Replacement := do
  let _ ← i.field?.filter fun r => r.declaringType == type && r.name == old
  let surface ← find type
  let d ← surface.fieldNamed? new
  if d.isLiteral || d.isStatic != i.opcode.isStaticAccess then none
  else return toField i.opcode (d.refOn type) (simple type old ++ remark (ascii "field => " ++ new))

/-- The accessor of a property that a method reference is, by its name and the number of its parameters. -/
def accessorOf? (property : Bytes) (r : MethodRef) : Option Accessor :=
  if r.name = ascii "get_" ++ property ∧ r.parameters = [] then some .getter
  else if r.name = ascii "set_" ++ property ∧ r.parameters.length = 1 then some .setter
  else none

/-- The opcode that does for a field what an accessor does for a property. -/
def accessOpcode (kind : Accessor) (isStatic : Bool) : Opcode :=
  match kind, isStatic with
  | .getter, false => .ldfld
  | .getter, true => .ldsfld
  | .setter, false => .stfld
  | .setter, true => .stsfld

/-- A call of an accessor becomes a load or store of the field, if that one has storage and is static exactly if
the call has no receiver. -/
def propertyToFieldReplacement (type : TypeRef) (property field : Bytes) (find : Resolver) (i : Instruction) :
    Option Replacement := do
  let r ← i.method?.filter fun r => r.declaringType == type && i.opcode.isCall
  let kind ← accessorOf? property r
  let surface ← find type
  let d ← surface.fieldNamed? field
  if d.isLiteral || d.isStatic == r.hasThis then none
  else
    return toField (accessOpcode kind d.isStatic) (d.refOn type)
      (simple type property ++ remark (ascii "property => field"))

/-- A load or store of a field that cannot be found becomes a call of the getter or setter of the property that
has taken its name. -/
def heuristicReplacement (scopes : List Bytes) (find : Resolver) (i : Instruction) : Option Replacement := do
  let r ← i.field?.filter fun r => watched scopes r.declaringType && (find.field? r).isNone
  let surface ← find r.declaringType
  let p ← surface.propertyNamed? r.name
  let kind ← i.opcode.accessor?
  let s ← surface.accessor? p kind i.opcode.isStaticAccess
  return toCall (s.refOn r.declaringType) (simple r.declaringType r.name ++ remark (ascii "field => property"))

/-! ## Types -/

/-- Whether a type is one that has moved: of the old name, and not yet the target. -/
def isStale (fullName : Bytes) (target t : TypeRef) : Bool :=
  t.fullName == fullName && t != target

/-- The target in place of a type that has moved. -/
def moved (fullName : Bytes) (target t : TypeRef) : TypeRef :=
  if isStale fullName target t then target else t

/-- The import of a changed operand: only members have tables besides that of types. -/
def operandImports : Operand → List Import
  | .field r => [.field r]
  | .method r => [.method r]
  | _ => []

/-- Every mention of a type that has moved becomes one of the target. -/
def typeMoveReplacement (fullName : Bytes) (target : TypeRef) (i : Instruction) : Option Replacement :=
  if i.operand.types.any (isStale fullName target) then
    let operand := i.operand.mapTypes (moved fullName target)
    some
      { instruction := ⟨i.opcode, operand⟩
        imports := .type target :: operandImports operand
        phrase := fullName ++ ascii " type" ++ remark (ascii "=> " ++ target.fullName) }
  else none

/-! ## Methods -/

/-- Any use of a method of the source becomes the same use of the method of the target that has the same name,
parameters, return type and receiver. -/
def methodParentReplacement (source target : TypeRef) (find : Resolver) (i : Instruction) :
    Option Replacement := do
  let r ← i.method?.filter fun r => r.declaringType == source
  let s ← find.method? { r with declaringType := target }
  let ref := s.refOn target
  return {
    instruction := ⟨i.opcode, .method ref⟩
    imports := [.method ref]
    phrase := simple source r.name ++ remark (ascii "=> " ++ target.name) }

/-- Whether a static method takes the receiver of a call, then its arguments, and returns what it returns. -/
def isShim (source : TypeRef) (shim : Bytes) (r : MethodRef) (s : Signature) : Bool :=
  s.name == shim && s.isStatic && s.parameters == source :: r.parameters && s.returnType == r.returnType

/-- A call of the instance method becomes a call of the static method. -/
def methodToStaticReplacement (source : TypeRef) (method : Bytes) (arity : Option Nat) (target : TypeRef)
    (shim : Bytes) (find : Resolver) (i : Instruction) : Option Replacement := do
  let r ← i.method?.filter fun r =>
    i.opcode.isCall && r.hasThis && r.declaringType == source && r.name == method &&
      arity.all (r.parameters.length == ·)
  let surface ← find target
  let s ← surface.methods.find? (isShim source shim r)
  return toCall (s.refOn target) (simple source method ++ remark (ascii "=> " ++ simple target shim))

/-! ## All rules -/

/-- What a rule puts in the place of an instruction, if anything. -/
def replacement? (rule : Rule) (find : Resolver) (i : Instruction) : Option Replacement :=
  match rule with
  | .fieldToProperty source field target property => fieldToPropertyReplacement source field target property find i
  | .fieldRename type old new => fieldRenameReplacement type old new find i
  | .propertyToField type property field => propertyToFieldReplacement type property field find i
  | .typeMove fullName target => typeMoveReplacement fullName target i
  | .methodParent source target => methodParentReplacement source target find i
  | .methodToStatic source method arity target shim =>
    methodToStaticReplacement source method arity target shim find i
  | .heuristic scopes => heuristicReplacement scopes find i

/-- What the log and the tables of handlers call a rule. -/
def name : Rule → Bytes
  | .fieldToProperty source field _ _ =>
    ascii "FieldToPropertyRewriter(" ++ source.fullName ++ ascii "." ++ field ++ ascii ")"
  | .fieldRename type old _ =>
    ascii "FieldRenameRewriter(" ++ type.fullName ++ ascii "." ++ old ++ ascii ")"
  | .propertyToField type property _ =>
    ascii "PropertyToFieldRewriter(" ++ type.fullName ++ ascii "." ++ property ++ ascii ")"
  | .typeMove fullName _ => ascii "TypeReferenceRewriter(" ++ fullName ++ ascii ")"
  | .methodParent source target =>
    ascii "MethodParentRewriter(" ++ source.fullName ++ ascii " => " ++ target.fullName ++ ascii ")"
  | .methodToStatic source method _ _ _ =>
    ascii "MethodToStaticMethodRewriter(" ++ source.fullName ++ ascii "." ++ method ++ ascii ")"
  | .heuristic _ => ascii "HeuristicFieldRewriter"

end Rule

end ModRepair
