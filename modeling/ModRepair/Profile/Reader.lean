import ModRepair.Log.Record
import ModRepair.Interchange.Reader
import ModRepair.Profile.Relocation

/-!
# Profiles

A profile collects what is known about a host: the assemblies to watch, what has moved in it, the shims for other
platforms and for a missing patch engine, and what to detect. This module reads profiles and their entries from
JSON; every reader is total, and what it cannot use is a `Fault`.
-/

namespace ModRepair

structure Profile where
  /-- The names of the assemblies whose members are checked. -/
  watchedScopes : List Bytes
  relocations : List Relocation
  platformShims : List Relocation
  patchEngineShims : List Relocation
  detectors : List Detector
  /-- Detectors for a scan that is more suspicious than usual. -/
  paranoidDetectors : List Detector
  deriving DecidableEq, Repr

namespace Profile

/-! ## Defaults -/

/-- A detector of any use of a type. -/
def typeDetector (category : Category) (typeName : String) : Detector :=
  ⟨.type, ascii typeName, [], category⟩

/-- Access to the console, to files, to other programs, and dynamic calls. -/
def defaultParanoidDetectors : List Detector :=
  [typeDetector .consoleAccess "System.Console"] ++
    ["System.IO.File", "System.IO.FileStream", "System.IO.FileInfo", "System.IO.Directory",
      "System.IO.DirectoryInfo", "System.IO.DriveInfo", "System.IO.FileSystemWatcher"].map
        (typeDetector .filesystemAccess) ++
    [typeDetector .shellAccess "System.Diagnostics.Process",
      typeDetector .dynamic "System.Runtime.CompilerServices.CallSite"]

/-- Nothing but watched assemblies and the default detectors. -/
def watching (scopes : List Bytes) : Profile :=
  ⟨scopes, [], [], [], [], defaultParanoidDetectors⟩

/-! ## Faults -/

inductive Fault
  /-- A thing of the kind must be an object. -/
  | notObject (what : Bytes)
  | unknownKind (what name : Bytes)
  | missingType (key : Bytes)
  | invalidType (text : Bytes)
  | missingMember (what key : Bytes)
  | invalidParameterCount
  | unknownCategory (name : Bytes)
  | notArray (key : Bytes)
  | notStrings (key : Bytes)
  /-- A fault in the entry at an index of the table under a key. -/
  | entry (key : Bytes) (index : Nat) (fault : Fault)
  deriving DecidableEq, Repr

def Fault.message : Fault → Bytes
  | .notObject what => what ++ ascii " must be an object"
  | .unknownKind what name => ascii "unknown " ++ what ++ ascii " kind " ++ Bytes.quoted name
  | .missingType key => ascii "missing or invalid " ++ Bytes.doubleQuoted key
  | .invalidType text => ascii "invalid type reference " ++ Bytes.quoted text
  | .missingMember what key => what ++ ascii ": missing " ++ Bytes.doubleQuoted key
  | .invalidParameterCount => ascii "\"parameter_count\" must be a non-negative integer"
  | .unknownCategory name => ascii "unknown result category " ++ Bytes.quoted name
  | .notArray key => Bytes.doubleQuoted key ++ ascii " must be an array"
  | .notStrings key => Bytes.doubleQuoted key ++ ascii " entries must be strings"
  | .entry key index fault =>
    key ++ ascii "[" ++ Numeral.decimal index ++ ascii "]: " ++ fault.message

abbrev Result (α : Type) := Except Fault α

/-! ## Entries -/

/-- The string under a key, or the empty string. -/
def textAt (key : String) (j : Json) : Bytes :=
  (j.getString? (ascii key)).getD []

/-- The type under a key. Where no scope is required a name alone will do, unless it starts like a type with a
scope. -/
def typeAt (key : String) (scopeRequired : Bool) (j : Json) : Result TypeRef :=
  match j.getString? (ascii key) with
  | none | some [] => .error (.missingType (ascii key))
  | some (c :: s) =>
    match TypeRef.ofText? (c :: s) with
    | some t => .ok t
    | none =>
      if scopeRequired ∨ c = Bytes.openBracket then .error (.invalidType (c :: s)) else .ok ⟨[], c :: s⟩

/-- Fails unless a condition holds. -/
def require (condition : Bool) (fault : Fault) : Result Unit :=
  if condition then .ok () else .error fault

/-- The type that a symbol has moved to. Where the kind of entry does not need one, the symbol stays on its
type. -/
def newTypeAt (kind : RelocationKind) (type : TypeRef) (j : Json) : Result TypeRef :=
  if (j.get? (ascii "to_type")).isSome then typeAt "to_type" true j
  else if kind.needsNewType then .error (.missingMember kind.name (ascii "to_type"))
  else .ok type

/-- The number of parameters that a method must have, if given. -/
def parameterCountAt (j : Json) : Result (Option Nat) :=
  match j.get? (ascii "parameter_count") with
  | none => .ok none
  | some count =>
    match count.integer? with
    | some n => if n < 0 then .error .invalidParameterCount else .ok (some n.toInt.toNat)
    | none => .error .invalidParameterCount

/-- The kind that an entry names; where it names none, the fault quotes the empty name. -/
def kindAt {α : Type} (what : String) (ofName? : Bytes → Option α) (j : Json) : Result α :=
  match ofName? (textAt "kind" j) with
  | some kind => .ok kind
  | none => .error (.unknownKind (ascii what) (textAt "kind" j))

def readRelocation (j : Json) : Result Relocation := do
  require j.object?.isSome (.notObject (ascii "relocation"))
  let kind ← kindAt "relocation" RelocationKind.ofName? j
  let member := textAt "member" j
  let newMember := textAt "to_member" j
  let type ← typeAt "type" (kind != .typeRelocation) j
  require (!kind.needsMember || !member.isEmpty) (.missingMember kind.name (ascii "member"))
  require (!kind.needsNewMember || !newMember.isEmpty) (.missingMember kind.name (ascii "to_member"))
  let newType ← newTypeAt kind type j
  let parameterCount ← parameterCountAt j
  return { kind, type, member, newType, newMember := if newMember.isEmpty then member else newMember, parameterCount }

def readDetector (j : Json) : Result Detector := do
  require j.object?.isSome (.notObject (ascii "detector"))
  let kind ← kindAt "detector" DetectorKind.ofName? j
  let type ← typeAt "type" false j
  match Category.ofName? (textAt "result" j) with
  | none => .error (.unknownCategory (textAt "result" j))
  | some category =>
    let member := textAt "member" j
    require (kind == .type || !member.isEmpty)
      (.missingMember (kind.name ++ ascii " detector") (ascii "member"))
    return { kind, typeName := type.fullName, member, category }

/-! ## Documents -/

/-- Reads the entries of a table from an index on. -/
def readEntries {α : Type} (key : Bytes) (read : Json → Result α) : (index : Nat) → List Json → Result (List α)
  | _, [] => .ok []
  | index, j :: rest => do
    let a ← (read j).mapError (.entry key index)
    let as ← readEntries key read (index + 1) rest
    return a :: as

/-- The table under a key; without the key it has no entries. -/
def tableAt {α : Type} (key : String) (read : Json → Result α) (j : Json) : Result (List α) :=
  match j.get? (ascii key) with
  | none => .ok []
  | some (.array items) => readEntries (ascii key) read 0 items
  | some _ => .error (.notArray (ascii key))

/-- Strings, all of them. -/
def readStrings (key : Bytes) : List Json → Result (List Bytes)
  | [] => .ok []
  | .string s :: rest => do
    let ss ← readStrings key rest
    return s :: ss
  | _ :: _ => .error (.notStrings key)

/-- The names of the watched assemblies. -/
def watchedScopesAt (j : Json) : Result (List Bytes) :=
  let key := ascii "watched_scopes"
  match j.get? key with
  | none => .ok []
  | some (.array items) => readStrings key items
  | some _ => .error (.notArray key)

/-- The paranoid detectors: the defaults, unless the profile has a table of its own. -/
def paranoidDetectorsAt (j : Json) : Result (List Detector) :=
  if (j.get? (ascii "paranoid_detectors")).isSome then tableAt "paranoid_detectors" readDetector j
  else .ok defaultParanoidDetectors

def read (j : Json) : Result Profile := do
  require j.object?.isSome (.notObject (ascii "profile"))
  let watchedScopes ← watchedScopesAt j
  let relocations ← tableAt "relocations" readRelocation j
  let platformShims ← tableAt "platform_shims" readRelocation j
  let patchEngineShims ← tableAt "patch_engine_shims" readRelocation j
  let detectors ← tableAt "detectors" readDetector j
  let paranoidDetectors ← paranoidDetectorsAt j
  return { watchedScopes, relocations, platformShims, patchEngineShims, detectors, paranoidDetectors }

/-- What the log says of a profile that has been read. -/
def loadedRecord (p : Profile) : Log.Record :=
  ⟨.debug, ascii "profile",
    ascii "loaded " ++ Numeral.decimal p.relocations.length ++ ascii " relocations, " ++
      Numeral.decimal p.platformShims.length ++ ascii " platform shims, " ++
      Numeral.decimal p.patchEngineShims.length ++ ascii " patch engine shims, " ++
      Numeral.decimal p.detectors.length ++ ascii " detectors"⟩

end Profile

end ModRepair
