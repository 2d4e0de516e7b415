import ModRepair.Metadata.Reference

/-!
# Declarations

What an assembly declares: types with their fields, methods, properties and events. References are resolved
against the `Surface` of a type alone, that is its fields, method signatures and properties, so that no answer can
depend on a method body. A look-up among several declarations that fit finds the first.
-/

namespace ModRepair

structure FieldDecl where
  name : Bytes
  type : TypeRef
  isStatic : Bool
  /-- A compile-time constant: there is no storage to load from. -/
  isLiteral : Bool
  deriving DecidableEq, Repr

/-- A method without its body. -/
structure Signature where
  name : Bytes
  returnType : TypeRef
  parameters : List TypeRef
  isStatic : Bool
  deriving DecidableEq, Repr

/-- A method; one that is abstract or external has no body. -/
structure MethodDecl where
  signature : Signature
  body : Option (List Instruction)
  deriving DecidableEq, Repr

structure PropertyDecl where
  name : Bytes
  type : TypeRef
  /-- The names of the accessor methods, which the same type declares. -/
  getter : Option Bytes
  setter : Option Bytes
  deriving DecidableEq, Repr

/-- The name of an accessor method of a property. -/
def PropertyDecl.accessorName? (p : PropertyDecl) : Accessor → Option Bytes
  | .getter => p.getter
  | .setter => p.setter

structure EventDecl where
  name : Bytes
  type : TypeRef
  deriving DecidableEq, Repr

structure TypeDecl where
  fullName : Bytes
  fields : List FieldDecl
  methods : List MethodDecl
  properties : List PropertyDecl
  events : List EventDecl
  deriving DecidableEq, Repr

/-! ## References to declarations -/

/-- The reference to a field as a type declares it. -/
def FieldDecl.refOn (declaringType : TypeRef) (d : FieldDecl) : FieldRef :=
  ⟨declaringType, d.name, d.type⟩

/-- The reference to a method as a type declares it. -/
def Signature.refOn (declaringType : TypeRef) (s : Signature) : MethodRef :=
  ⟨declaringType, s.name, s.returnType, s.parameters, !s.isStatic⟩

/-- A field reference names a declaration of its name and type. -/
def FieldRef.names (r : FieldRef) (d : FieldDecl) : Bool :=
  d.name == r.name && d.type == r.fieldType

/-- A declaration of the same name and parameters, static unless the reference has a receiver, whatever it
returns. -/
def MethodRef.fits (r : MethodRef) (s : Signature) : Bool :=
  s.name == r.name && s.parameters == r.parameters && s.isStatic != r.hasThis

/-- A method reference names a declaration that fits and has its return type. -/
def MethodRef.names (r : MethodRef) (s : Signature) : Bool :=
  r.fits s && s.returnType == r.returnType

/-- A property reference names a declaration of its name and type. -/
def PropertyRef.names (r : PropertyRef) (d : PropertyDecl) : Bool :=
  d.name == r.name && d.type == r.propertyType

/-! ## Surfaces -/

/-- What references to the members of a type can see. -/
structure Surface where
  fields : List FieldDecl
  methods : List Signature
  properties : List PropertyDecl
  deriving DecidableEq, Repr

def TypeDecl.surface (t : TypeDecl) : Surface :=
  ⟨t.fields, t.methods.map (·.signature), t.properties⟩

/-- Whether a method can serve as the accessor of a property: it has the name the property gives, the
parameters of such an accessor, and is static or not as asked. -/
def PropertyDecl.isAccessor (p : PropertyDecl) (kind : Accessor) (isStatic : Bool) (s : Signature) : Bool :=
  p.accessorName? kind == some s.name && s.parameters.length == kind.arity && s.isStatic == isStatic

namespace Surface

def field? (t : Surface) (r : FieldRef) : Option FieldDecl :=
  t.fields.find? r.names

def method? (t : Surface) (r : MethodRef) : Option Signature :=
  t.methods.find? r.names

def property? (t : Surface) (r : PropertyRef) : Option PropertyDecl :=
  t.properties.find? r.names

/-- The first field of a name, whatever its type. -/
def fieldNamed? (t : Surface) (name : Bytes) : Option FieldDecl :=
  t.fields.find? (·.name == name)

/-- The first property of a name, whatever its type. -/
def propertyNamed? (t : Surface) (name : Bytes) : Option PropertyDecl :=
  t.properties.find? (·.name == name)

/-- The first method that can serve as an accessor of the property. -/
def accessor? (t : Surface) (p : PropertyDecl) (kind : Accessor) (isStatic : Bool) : Option Signature :=
  t.methods.find? (p.isAccessor kind isStatic)

end Surface

end ModRepair
