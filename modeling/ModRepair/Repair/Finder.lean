import ModRepair.Repair.Category
import ModRepair.Repair.Rule

/-!
# Finders

A finder recognises instructions that a report should mention and changes nothing. Two of them check references
to watched assemblies against what the host declares: a member may be missing, or be there with another type.
Three look for the use of a certain type, field or event.
-/

namespace ModRepair

/-- What was found and how it is put. -/
structure Finding where
  category : Category
  phrase : Bytes
  deriving DecidableEq, Repr

inductive Finder
  /-- References to what the watched assemblies do not declare. -/
  | missingMember (scopes : List Bytes)
  /-- References to members of the watched assemblies that have another type there. -/
  | unexpectedType (scopes : List Bytes)
  /-- Any mention of a type of the full name. -/
  | typeUse (fullName : Bytes) (category : Category)
  /-- Accesses to a field. -/
  | fieldUse (typeName field : Bytes) (category : Category)
  /-- Subscriptions to an event and their removal. -/
  | eventUse (typeName event : Bytes) (category : Category)
  deriving DecidableEq, Repr

namespace Finder

/-! ## Missing members -/

def missing (subject : Bytes) (noun : String) : Finding :=
  ⟨.missingMember, ascii "reference to " ++ subject ++ ascii " (no such " ++ ascii noun ++ ascii ")"⟩

/-- The full name of a type, a point, and the name of a member. -/
def qualified (t : TypeRef) (member : Bytes) : Bytes :=
  t.fullName ++ ascii "." ++ member

/-- What a method that is not there is called: accessors of properties go by their names. -/
def methodNoun (r : MethodRef) : String :=
  if r.isConstructor then "constructor"
  else if (Bytes.after? (ascii "get_") r.name).isSome ∨ (Bytes.after? (ascii "set_") r.name).isSome then
    "property"
  else "method"

/-- Looks at a member of a watched type: the type must be there, and so must the member by the given test. -/
def missingOn (find : Resolver) (t : TypeRef) (name : Bytes) (noun : String) (declares : Surface → Bool) :
    Option Finding :=
  match find t with
  | none => some (missing t.fullName "type")
  | some surface => if declares surface then none else some (missing (qualified t name) noun)

/-- A field is there if the first of its name has storage, a method if one of its parameters and receiver is,
whatever it returns, and a property if one of its name is. -/
def missingFinding (scopes : List Bytes) (find : Resolver) (i : Instruction) : Option Finding :=
  match i.operand.subject? with
  | none => none
  | some t =>
    if watched scopes t then
      match i.operand with
      | .none => none
      | .type r => if (find r).isSome then none else some (missing r.fullName "type")
      | .field r => missingOn find t r.name "field" fun s => (s.fieldNamed? r.name).any (!·.isLiteral)
      | .method r => missingOn find t r.name (methodNoun r) fun s => s.methods.any r.fits
      | .property r => missingOn find t r.name "property" fun s => (s.propertyNamed? r.name).isSome
    else none

/-! ## Unexpected types -/

def mismatch (t : TypeRef) (member : Bytes) (noun : String) (actual expected : TypeRef) : Finding :=
  ⟨.unexpectedType,
    ascii "reference to " ++ qualified t member ++ ascii " (" ++ ascii noun ++ ascii " returns " ++
      actual.fullName ++ ascii ", not " ++ expected.fullName ++ ascii ")"⟩

/-- The first field of the name, if it has storage but another type. -/
def fieldMismatch (s : Surface) (r : FieldRef) : Option Finding :=
  (s.fieldNamed? r.name).bind fun d =>
    if d.isLiteral || d.type == r.fieldType then none
    else some (mismatch r.declaringType r.name "field" d.type r.fieldType)

/-- The first method that fits, if none that fits returns what is expected. -/
def methodMismatch (s : Surface) (r : MethodRef) : Option Finding :=
  if s.methods.any r.names then none
  else
    (s.methods.find? r.fits).map fun d => mismatch r.declaringType r.name "method" d.returnType r.returnType

def unexpectedFinding (scopes : List Bytes) (find : Resolver) (i : Instruction) : Option Finding :=
  match i.operand with
  | .field r =>
    if watched scopes r.declaringType then (find r.declaringType).bind (fieldMismatch · r) else none
  | .method r =>
    if watched scopes r.declaringType then (find r.declaringType).bind (methodMismatch · r) else none
  | _ => none

/-! ## Uses -/

def typeUseFinding (fullName : Bytes) (category : Category) (i : Instruction) : Option Finding :=
  if i.operand.types.any (·.fullName == fullName) then some ⟨category, fullName ++ ascii " type"⟩ else none

def fieldUseFinding (typeName field : Bytes) (category : Category) (i : Instruction) : Option Finding :=
  (i.field?.filter fun r => r.declaringType.fullName == typeName && r.name == field).map fun _ =>
    ⟨category, typeName ++ ascii "." ++ field ++ ascii " field"⟩

/-- Whether a method adds or removes a subscriber of an event. -/
def isEventAccessor (event : Bytes) (r : MethodRef) : Bool :=
  r.name == ascii "add_" ++ event || r.name == ascii "remove_" ++ event

def eventUseFinding (typeName event : Bytes) (category : Category) (i : Instruction) : Option Finding :=
  (i.method?.filter fun r =>
    i.opcode.isCall && r.declaringType.fullName == typeName && isEventAccessor event r).map fun _ =>
      ⟨category, typeName ++ ascii "." ++ event ++ ascii " event"⟩

/-! ## All finders -/

/-- What a finder finds in an instruction, if anything. -/
def finding? (finder : Finder) (find : Resolver) (i : Instruction) : Option Finding :=
  match finder with
  | .missingMember scopes => missingFinding scopes find i
  | .unexpectedType scopes => unexpectedFinding scopes find i
  | .typeUse fullName category => typeUseFinding fullName category i
  | .fieldUse typeName field category => fieldUseFinding typeName field category i
  | .eventUse typeName event category => eventUseFinding typeName event category i

/-- What the log and the tables of handlers call a finder. -/
def name : Finder → Bytes
  | .missingMember _ => ascii "MissingMemberFinder"
  | .unexpectedType _ => ascii "UnexpectedTypeFinder"
  | .typeUse fullName _ => ascii "TypeFinder(" ++ fullName ++ ascii ")"
  | .fieldUse typeName field _ => ascii "FieldFinder(" ++ typeName ++ ascii "." ++ field ++ ascii ")"
  | .eventUse typeName event _ => ascii "EventFinder(" ++ typeName ++ ascii "." ++ event ++ ascii ")"

end Finder

end ModRepair
