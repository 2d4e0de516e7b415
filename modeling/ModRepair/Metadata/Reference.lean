import ModRepair.Metadata.Opcode

/-!
# References

How compiled code names a type, a field, a method or a property: by the declaring type, the name and the types of
the signature. A type is named by its scope, the assembly that defines it, and its full name; `TypeRef.text` and
`TypeRef.ofText?` are its written form `[scope]full name` and the reader of that form.
-/

namespace ModRepair

structure TypeRef where
  scope : Bytes
  fullName : Bytes
  deriving DecidableEq, Repr, Inhabited

namespace TypeRef

/-- The name without namespaces and enclosing types. -/
def name (t : TypeRef) : Bytes :=
  Bytes.afterLast (fun c => c == Bytes.dot || c == Bytes.slash) t.fullName

/-- The written form `[scope]full name`. -/
def text (t : TypeRef) : Bytes :=
  Bytes.openBracket :: t.scope ++ Bytes.closeBracket :: t.fullName

/-- Reads the written form; neither part may be empty, and the scope ends at the first closing bracket. -/
def ofText? : Bytes → Option TypeRef
  | [] => none
  | c :: s =>
    if c = Bytes.openBracket then
      match Bytes.splitFirst? Bytes.closeBracket s with
      | some (scope, fullName) => if scope = [] ∨ fullName = [] then none else some ⟨scope, fullName⟩
      | none => none
    else none

/-- A reference whose written form reads back: both parts are there, and the scope holds no closing bracket. -/
def Written (t : TypeRef) : Prop :=
  t.scope ≠ [] ∧ Bytes.closeBracket ∉ t.scope ∧ t.fullName ≠ []

/-- Whether there is no name. -/
def isEmpty (t : TypeRef) : Bool :=
  t.fullName.isEmpty

end TypeRef

structure FieldRef where
  declaringType : TypeRef
  name : Bytes
  fieldType : TypeRef
  deriving DecidableEq, Repr

structure MethodRef where
  declaringType : TypeRef
  name : Bytes
  returnType : TypeRef
  parameters : List TypeRef
  hasThis : Bool
  deriving DecidableEq, Repr

structure PropertyRef where
  declaringType : TypeRef
  name : Bytes
  propertyType : TypeRef
  deriving DecidableEq, Repr

/-- A member as listings write it: the declaring type, two colons and the name. -/
def memberText (declaringType : TypeRef) (name : Bytes) : Bytes :=
  declaringType.text ++ ascii "::" ++ name

def FieldRef.text (r : FieldRef) : Bytes :=
  memberText r.declaringType r.name

namespace MethodRef

def text (r : MethodRef) : Bytes :=
  memberText r.declaringType r.name ++ ascii "(" ++
    List.intercalate (ascii ", ") (r.parameters.map TypeRef.fullName) ++ ascii ")"

def isConstructor (r : MethodRef) : Bool :=
  r.name == ascii ".ctor"

end MethodRef

def PropertyRef.text (r : PropertyRef) : Bytes :=
  memberText r.declaringType r.name ++ ascii " \x7bproperty\x7d"

/-! ## Operands -/

/-- What an instruction refers to. -/
inductive Operand
  | none
  | type (ref : TypeRef)
  | field (ref : FieldRef)
  | method (ref : MethodRef)
  | property (ref : PropertyRef)
  deriving DecidableEq, Repr, Inhabited

namespace Operand

def kind : Operand → OperandKind
  | .none => .none
  | .type _ => .type
  | .field _ => .field
  | .method _ => .method
  | .property _ => .property

def text : Operand → Bytes
  | .none => []
  | .type r => r.text
  | .field r => r.text
  | .method r => r.text
  | .property r => r.text

/-- The types mentioned: the type itself, or the declaring type followed by those of the signature. -/
def types : Operand → List TypeRef
  | .none => []
  | .type r => [r]
  | .field r => [r.declaringType, r.fieldType]
  | .method r => r.declaringType :: r.returnType :: r.parameters
  | .property r => [r.declaringType, r.propertyType]

/-- The operand with every mentioned type replaced. -/
def mapTypes (f : TypeRef → TypeRef) : Operand → Operand
  | .none => .none
  | .type r => .type (f r)
  | .field r => .field { r with declaringType := f r.declaringType, fieldType := f r.fieldType }
  | .method r =>
    .method { r with
      declaringType := f r.declaringType
      returnType := f r.returnType
      parameters := r.parameters.map f }
  | .property r => .property { r with declaringType := f r.declaringType, propertyType := f r.propertyType }

/-- The types mentioned are replaced one by one, and their kind and number stay. -/
theorem types_mapTypes (f : TypeRef → TypeRef) (o : Operand) : (o.mapTypes f).types = o.types.map f := by
  cases o <;> rfl

@[simp] theorem kind_mapTypes (f : TypeRef → TypeRef) (o : Operand) : (o.mapTypes f).kind = o.kind := by
  cases o <;> rfl

/-- The type whose scope decides whether a reference is looked at: the declaring type, or the type itself. -/
def subject? : Operand → Option TypeRef
  | .none => Option.none
  | .type r => some r
  | .field r => some r.declaringType
  | .method r => some r.declaringType
  | .property r => some r.declaringType

end Operand

/-! ## Instructions -/

structure Instruction where
  opcode : Opcode
  operand : Operand
  deriving DecidableEq, Repr, Inhabited

namespace Instruction

/-- Whether the operand is of a kind that the opcode takes. -/
def isWellFormed (i : Instruction) : Bool :=
  i.opcode.accepts i.operand.kind

def field? (i : Instruction) : Option FieldRef :=
  match i.operand with
  | .field r => some r
  | _ => none

def method? (i : Instruction) : Option MethodRef :=
  match i.operand with
  | .method r => some r
  | _ => none

/-- The mnemonic and, after a space, the operand if there is one. -/
def text (i : Instruction) : Bytes :=
  match i.operand with
  | .none => i.opcode.mnemonic
  | operand => i.opcode.mnemonic ++ ascii " " ++ operand.text

end Instruction

end ModRepair
