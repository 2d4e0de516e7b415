import ModRepair.Json.Printer
import ModRepair.Metadata.Module

/-!
# Writing modules as JSON

The documents that the readers of `Interchange` take. Flags that are usually unset and optional names are left out
when absent; all else is written out, so that a document read back gives the same declarations.
-/

namespace ModRepair.Interchange

def typeJson (r : TypeRef) : Json :=
  .string r.text

def typesJson (rs : List TypeRef) : Json :=
  .array (rs.map typeJson)

/-- An object from its members under literal keys. -/
def objectJson (members : List (String × Json)) : Json :=
  Json.ofMembers (members.map fun (key, value) => (ascii key, value))

/-! ## References and instructions -/

def fieldRefJson (r : FieldRef) : Json :=
  objectJson
    [("type", typeJson r.declaringType), ("name", .string r.name), ("field_type", typeJson r.fieldType)]

def methodRefJson (r : MethodRef) : Json :=
  objectJson
    [("type", typeJson r.declaringType), ("name", .string r.name), ("return", typeJson r.returnType),
      ("parameters", typesJson r.parameters), ("instance", .bool r.hasThis)]

def propertyRefJson (r : PropertyRef) : Json :=
  objectJson
    [("type", typeJson r.declaringType), ("name", .string r.name),
      ("property_type", typeJson r.propertyType)]

/-- The operand under the key of its kind. -/
def operandMembers : Operand → List (String × Json)
  | .none => []
  | .type r => [("type", typeJson r)]
  | .field r => [("field", fieldRefJson r)]
  | .method r => [("method", methodRefJson r)]
  | .property r => [("property", propertyRefJson r)]

def instructionJson (i : Instruction) : Json :=
  objectJson (("op", .string i.opcode.mnemonic) :: operandMembers i.operand)

/-! ## Declarations -/

/-- A name under a key, if there is one. -/
def optionalName (key : String) : Option Bytes → List (String × Json)
  | none => []
  | some name => [(key, .string name)]

def fieldJson (d : FieldDecl) : Json :=
  objectJson
    ([("name", .string d.name), ("type", typeJson d.type), ("static", .bool d.isStatic)] ++
      if d.isLiteral then [("literal", .bool true)] else [])

def propertyJson (d : PropertyDecl) : Json :=
  objectJson
    ([("name", .string d.name), ("type", typeJson d.type)] ++ optionalName "get" d.getter ++
      optionalName "set" d.setter)

def eventJson (d : EventDecl) : Json :=
  objectJson [("name", .string d.name), ("type", typeJson d.type)]

/-- The body under its key, if there is one: an empty body is not left out. -/
def bodyMembers : Option (List Instruction) → List (String × Json)
  | none => []
  | some is => [("body", .array (is.map instructionJson))]

def methodJson (d : MethodDecl) : Json :=
  objectJson
    ([("name", .string d.signature.name), ("return", typeJson d.signature.returnType),
        ("parameters", typesJson d.signature.parameters), ("static", .bool d.signature.isStatic)] ++
      bodyMembers d.body)

def typeDeclJson (t : TypeDecl) : Json :=
  objectJson
    [("name", .string t.fullName), ("fields", .array (t.fields.map fieldJson)),
      ("properties", .array (t.properties.map propertyJson)), ("events", .array (t.events.map eventJson)),
      ("methods", .array (t.methods.map methodJson))]

/-! ## Modules -/

def moduleJson (m : Module) : Json :=
  objectJson
    [("name", .string m.name), ("assembly_references", Json.strings m.imports.assemblies),
      ("types", .array (m.types.map typeDeclJson)), ("imported_types", typesJson m.imports.types),
      ("imported_fields", .array (m.imports.fields.map fieldRefJson)),
      ("imported_methods", .array (m.imports.methods.map methodRefJson))]

/-- The contents of a module file. -/
def moduleDocument (m : Module) : Bytes :=
  (moduleJson m).document ++ [Bytes.newline]

end ModRepair.Interchange
