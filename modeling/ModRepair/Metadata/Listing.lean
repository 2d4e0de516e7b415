import ModRepair.Metadata.Module
import ModRepair.Text.Numeral

/-!
# Listings

Modules and types as assembler text, for people to read. Imports are listed as comments, and only if asked for.
-/

namespace ModRepair

namespace Listing

/-- A word and a space if the flag is set. -/
def flagged (flag : Bool) (word : String) : Bytes :=
  if flag then ascii word ++ ascii " " else []

/-- A space, a word, a space and a name, if there is a name. -/
def named (word : String) (name : Option Bytes) : Bytes :=
  match name with
  | some name => ascii " " ++ ascii word ++ ascii " " ++ name
  | none => []

def field (d : FieldDecl) : Bytes :=
  ascii "  .field " ++ flagged d.isStatic "static" ++ flagged d.isLiteral "literal" ++ d.type.text ++
    ascii " " ++ d.name

def property (d : PropertyDecl) : Bytes :=
  ascii "  .property " ++ d.type.text ++ ascii " " ++ d.name ++ named ".get" d.getter ++ named ".set" d.setter

def event (d : EventDecl) : Bytes :=
  ascii "  .event " ++ d.type.text ++ ascii " " ++ d.name

def signature (s : Signature) : Bytes :=
  ascii "  .method " ++ (if s.isStatic then ascii "static " else ascii "instance ") ++ s.returnType.text ++
    ascii " " ++ s.name ++ ascii "(" ++
    List.intercalate (ascii ", ") (s.parameters.map TypeRef.text) ++ ascii ")"

/-- An instruction after its label, which is its position in hexadecimal. -/
def instruction (position : Nat) (i : Instruction) : Bytes :=
  ascii "    IL_" ++ Numeral.hex 4 position ++ ascii ": " ++ i.text

/-- The lines of a body, labelled from a position on. -/
def body : (position : Nat) → List Instruction → List Bytes
  | _, [] => []
  | position, i :: rest => instruction position i :: body (position + 1) rest

/-- The lines of a method: its signature, and its body in braces if it has one. -/
def method (d : MethodDecl) : List Bytes :=
  match d.body with
  | none => [signature d.signature]
  | some is => (signature d.signature ++ ascii " \x7b") :: body 0 is ++ [ascii "  \x7d"]

/-- The lines of a type. -/
def type (t : TypeDecl) : List Bytes :=
  (ascii ".class " ++ t.fullName ++ ascii " \x7b") ::
    t.fields.map field ++ t.properties.map property ++ t.events.map event ++ t.methods.flatMap method ++
    [ascii "\x7d"]

/-- The lines that list the import tables. -/
def imports (t : ImportTables) : List Bytes :=
  t.types.map (fun r => ascii "// import type " ++ r.text) ++
    t.fields.map (fun r => ascii "// import field " ++ r.text) ++
    t.methods.map (fun r => ascii "// import method " ++ r.text)

/-- The lines of a module: its name, the assemblies it refers to, its imports if `showImports`, and its types,
each after an empty line. -/
def lines (showImports : Bool) (m : Module) : List Bytes :=
  (ascii ".module " ++ m.name) ::
    m.imports.assemblies.map (ascii ".assembly extern " ++ ·) ++
    (if showImports then imports m.imports else []) ++
    m.types.flatMap fun t => [] :: type t

end Listing

/-- The listing of a type. -/
def TypeDecl.listing (t : TypeDecl) : Bytes :=
  Bytes.lines (Listing.type t)

/-- The listing of a module, with its imports if `showImports`. -/
def Module.listing (m : Module) (showImports : Bool) : Bytes :=
  Bytes.lines (Listing.lines showImports m)

end ModRepair
