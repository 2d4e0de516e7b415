import ModRepair.Metadata.Host

/-!
# Modules

A module is a compiled program that was written against some version of the host: its own types and four tables
of what it refers to outside itself. References whose scope is the module's own name are resolved among its own
types, all others in the host. Importing a reference only ever appends to the tables.
-/

namespace ModRepair

/-- What a module refers to outside itself, each in the order of its first use. -/
structure ImportTables where
  assemblies : List Bytes
  types : List TypeRef
  fields : List FieldRef
  methods : List MethodRef
  deriving DecidableEq, Repr

structure Module where
  name : Bytes
  /-- The host it is bound to, if there is one. -/
  host : Option Host
  types : List TypeDecl
  imports : ImportTables
  deriving DecidableEq, Repr

/-! ## Resolution -/

/-- Finds the surface of the type that a reference names, if it can be found. -/
abbrev Resolver := TypeRef → Option Surface

namespace Resolver

def field? (r : Resolver) (ref : FieldRef) : Option FieldDecl :=
  (r ref.declaringType).bind (·.field? ref)

def method? (r : Resolver) (ref : MethodRef) : Option Signature :=
  (r ref.declaringType).bind (·.method? ref)

def property? (r : Resolver) (ref : PropertyRef) : Option PropertyDecl :=
  (r ref.declaringType).bind (·.property? ref)

/-- Whether what an operand names can be found; an operand that names nothing cannot. -/
def finds (r : Resolver) : Operand → Bool
  | .none => false
  | .type ref => (r ref).isSome
  | .field ref => (r.field? ref).isSome
  | .method ref => (r.method? ref).isSome
  | .property ref => (r.property? ref).isSome

end Resolver

/-- Resolution in the host alone. -/
def Host.resolver (h : Host) : Resolver :=
  fun ref => (h.type? ref).map TypeDecl.surface

namespace Module

/-- The first of the module's own types with a full name. -/
def typeNamed? (m : Module) (fullName : Bytes) : Option TypeDecl :=
  m.types.find? (·.fullName == fullName)

/-- The type that a reference names. A scope equal to the module's name never reaches the host. -/
def type? (m : Module) (ref : TypeRef) : Option TypeDecl :=
  if ref.scope = m.name then m.typeNamed? ref.fullName else m.host.bind (·.type? ref)

def resolver (m : Module) : Resolver :=
  fun ref => (m.type? ref).map TypeDecl.surface

/-- The instructions of all method bodies, in the order of the declarations. -/
def instructions (m : Module) : List Instruction :=
  m.types.flatMap fun t => t.methods.flatMap fun d => d.body.getD []

def instructionCount (m : Module) : Nat :=
  m.instructions.length

end Module

/-! ## Imports -/

/-- The list with `a` at its end, unless it is there already. -/
def appendNew {α : Type} [DecidableEq α] (l : List α) (a : α) : List α :=
  if a ∈ l then l else l ++ [a]

theorem mem_appendNew {α : Type} [DecidableEq α] {l : List α} {a b : α} :
    b ∈ appendNew l a ↔ b ∈ l ∨ b = a := by
  unfold appendNew
  split
  · next h => exact ⟨Or.inl, fun hb => hb.elim id (· ▸ h)⟩
  · simp

theorem nodup_appendNew {α : Type} [DecidableEq α] {l : List α} (h : l.Nodup) (a : α) : (appendNew l a).Nodup := by
  unfold appendNew
  split
  · exact h
  · next ha =>
      refine List.nodup_append.mpr ⟨h, by simp, fun b hb c hc => ?_⟩
      rw [List.mem_singleton.mp hc]
      exact fun heq => ha (heq ▸ hb)

namespace ImportTables

def empty : ImportTables := ⟨[], [], [], []⟩

/-- Notes an assembly that is referred to, neither the module itself nor the empty name. -/
def addAssembly (own : Bytes) (t : ImportTables) (scope : Bytes) : ImportTables :=
  if scope = [] ∨ scope = own then t else { t with assemblies := appendNew t.assemblies scope }

def addType (own : Bytes) (t : ImportTables) (ref : TypeRef) : ImportTables :=
  let t := t.addAssembly own ref.scope
  if ref.scope = own then t else { t with types := appendNew t.types ref }

def addField (own : Bytes) (t : ImportTables) (ref : FieldRef) : ImportTables :=
  let t := (t.addType own ref.declaringType).addAssembly own ref.fieldType.scope
  { t with fields := appendNew t.fields ref }

def addMethod (own : Bytes) (t : ImportTables) (ref : MethodRef) : ImportTables :=
  let t := (t.addType own ref.declaringType).addAssembly own ref.returnType.scope
  let t := ref.parameters.foldl (fun t p => t.addAssembly own p.scope) t
  { t with methods := appendNew t.methods ref }

end ImportTables

/-- A reference to be entered in the tables. -/
inductive Import
  | type (ref : TypeRef)
  | field (ref : FieldRef)
  | method (ref : MethodRef)
  deriving DecidableEq, Repr

def Import.text : Import → Bytes
  | .type r => r.text
  | .field r => r.text
  | .method r => r.text

namespace Module

/-- The module with a reference entered in its tables. -/
def addImport (m : Module) (i : Import) : Module :=
  { m with
    imports :=
      match i with
      | .type ref => m.imports.addType m.name ref
      | .field ref => m.imports.addField m.name ref
      | .method ref => m.imports.addMethod m.name ref }

def addImports (m : Module) (is : List Import) : Module :=
  is.foldl addImport m

def referencesAssembly (m : Module) (name : Bytes) : Bool :=
  m.imports.assemblies.contains name

@[simp] theorem name_addImport (m : Module) (i : Import) : (m.addImport i).name = m.name := rfl
@[simp] theorem host_addImport (m : Module) (i : Import) : (m.addImport i).host = m.host := rfl
@[simp] theorem types_addImport (m : Module) (i : Import) : (m.addImport i).types = m.types := rfl

/-- Resolution does not look at the tables. -/
@[simp] theorem resolver_addImport (m : Module) (i : Import) : (m.addImport i).resolver = m.resolver := rfl

end Module

end ModRepair
