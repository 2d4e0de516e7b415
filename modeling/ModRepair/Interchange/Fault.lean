import ModRepair.Json.Value

/-!
# Faults of documents

Why a JSON value is no module, assembly or part of one. `readAll` and `listAt` read lists and stop at the first
element that cannot be read.
-/

namespace ModRepair.Interchange

inductive Fault
  /-- A member of the thing described by `context` is absent or of the wrong kind. -/
  | missing (context key : Bytes)
  | notTypeText
  | invalidTypeText (text : Bytes)
  | unknownOpcode (mnemonic : Bytes)
  /-- The opcode does not take an operand of that kind. -/
  | misfit (mnemonic : Bytes)
  /-- A fault in a part of the thing described by `context`. -/
  | within (context : Bytes) (fault : Fault)
  deriving DecidableEq, Repr

def Fault.message : Fault → Bytes
  | .missing context key => context ++ ascii ": missing or invalid " ++ Bytes.doubleQuoted key
  | .notTypeText => ascii "type reference must be a string"
  | .invalidTypeText text => ascii "invalid type reference " ++ Bytes.quoted text
  | .unknownOpcode mnemonic => ascii "unknown opcode " ++ Bytes.quoted mnemonic
  | .misfit mnemonic => ascii "operand does not fit opcode " ++ Bytes.quoted mnemonic
  | .within context fault => context ++ ascii ": " ++ fault.message

/-- What is read from a document, or the fault found first. -/
abbrev Result (α : Type) := Except Fault α

/-- Reads every element. -/
def readAll {α : Type} (read : Json → Result α) : List Json → Result (List α)
  | [] => .ok []
  | j :: rest => do
    let a ← read j
    let as ← readAll read rest
    return a :: as

/-- Reads the elements of the array under a key; without the key there are none. -/
def listAt {α : Type} (key : String) (context : Bytes) (read : Json → Result α) (j : Json) :
    Result (List α) :=
  match j.get? (ascii key) with
  | none => .ok []
  | some (.array items) => (readAll read items).mapError (.within context)
  | some _ => .error (.missing context (ascii key))

/-- The string under a key. -/
def stringAt (key : String) (context : Bytes) (j : Json) : Result Bytes :=
  match j.getString? (ascii key) with
  | some s => .ok s
  | none => .error (.missing context (ascii key))

/-- The boolean under a key, or `fallback` if there is none. -/
def boolAt (key : String) (fallback : Bool) (j : Json) : Bool :=
  j.getBool (ascii key) fallback

end ModRepair.Interchange
