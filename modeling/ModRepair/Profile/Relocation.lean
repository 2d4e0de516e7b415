import ModRepair.Repair.Handler

/-!
# Relocations and detectors

The entries of a profile. A relocation says where a symbol of the host has moved and becomes a rule; a detector
names a symbol whose use is to be reported and becomes a finder.
-/

namespace ModRepair

inductive RelocationKind
  | fieldToProperty | fieldRename | propertyToField | typeRelocation | methodParent | methodToStaticMethod
  deriving DecidableEq, Repr

namespace RelocationKind

def all : List RelocationKind :=
  [.fieldToProperty, .fieldRename, .propertyToField, .typeRelocation, .methodParent, .methodToStaticMethod]

/-- The position of a kind among all. -/
def index (k : RelocationKind) : Nat :=
  all.idxOf k

def name : RelocationKind → Bytes
  | .fieldToProperty => ascii "field_to_property"
  | .fieldRename => ascii "field_rename"
  | .propertyToField => ascii "property_to_field"
  | .typeRelocation => ascii "type_relocation"
  | .methodParent => ascii "method_parent"
  | .methodToStaticMethod => ascii "method_to_static_method"

def ofName? (name : Bytes) : Option RelocationKind :=
  all.find? (·.name == name)

/-- Whether an entry of the kind says which member has moved. -/
def needsMember (k : RelocationKind) : Bool :=
  k != .typeRelocation && k != .methodParent

/-- Whether an entry of the kind must say what the member has become. -/
def needsNewMember (k : RelocationKind) : Bool :=
  k == .fieldRename || k == .propertyToField

/-- Whether an entry of the kind must say which type it has moved to. -/
def needsNewType (k : RelocationKind) : Bool :=
  k == .typeRelocation || k == .methodParent || k == .methodToStaticMethod

end RelocationKind

/-- One symbol that has moved; what is of no use for its kind is kept and ignored. -/
structure Relocation where
  kind : RelocationKind
  /-- The scope is empty in a type relocation that names no assembly. -/
  type : TypeRef
  member : Bytes
  newType : TypeRef
  newMember : Bytes
  parameterCount : Option Nat
  deriving DecidableEq, Repr

/-- The member after two colons, if there is one, as labels show it. -/
def memberSuffix (member : Bytes) : Bytes :=
  if member.isEmpty then [] else ascii "::" ++ member

namespace Relocation

/-- The rule that follows from an entry. -/
def rule (r : Relocation) : Rule :=
  match r.kind with
  | .fieldToProperty => .fieldToProperty r.type r.member r.newType r.newMember
  | .fieldRename => .fieldRename r.type r.member r.newMember
  | .propertyToField => .propertyToField r.type r.member r.newMember
  | .typeRelocation => .typeMove r.type.fullName r.newType
  | .methodParent => .methodParent r.type r.newType
  | .methodToStaticMethod => .methodToStatic r.type r.member r.parameterCount r.newType r.newMember

def handler (r : Relocation) : Handler :=
  .rule r.rule

def label (r : Relocation) : Bytes :=
  r.kind.name ++ ascii " " ++ r.type.fullName ++ memberSuffix r.member

end Relocation

inductive DetectorKind
  | type | field | event
  deriving DecidableEq, Repr

namespace DetectorKind

def all : List DetectorKind :=
  [.type, .field, .event]

/-- The position of a kind among all. -/
def index (k : DetectorKind) : Nat :=
  all.idxOf k

def name : DetectorKind → Bytes
  | .type => ascii "type"
  | .field => ascii "field"
  | .event => ascii "event"

def ofName? (name : Bytes) : Option DetectorKind :=
  all.find? (·.name == name)

end DetectorKind

/-- A symbol whose use is reported; its type is matched by full name in any assembly. -/
structure Detector where
  kind : DetectorKind
  typeName : Bytes
  /-- The field or event; a detector of types has none. -/
  member : Bytes
  category : Category
  deriving DecidableEq, Repr

namespace Detector

/-- The finder that follows from an entry. -/
def finder (d : Detector) : Finder :=
  match d.kind with
  | .type => .typeUse d.typeName d.category
  | .field => .fieldUse d.typeName d.member d.category
  | .event => .eventUse d.typeName d.member d.category

def handler (d : Detector) : Handler :=
  .finder d.finder

def label (d : Detector) : Bytes :=
  d.kind.name ++ ascii " " ++ d.typeName ++ memberSuffix d.member ++ ascii " => " ++ d.category.name

end Detector

end ModRepair
