import ModRepair.Command.Arguments
import ModRepair.Command.Session
import ModRepair.Interchange.Reader
import ModRepair.Json.ErrorReport

/-!
# Loading

Reads the files that the options name: host assemblies, then the profile, then modules. What has been read is told
in the log at once, so that a log file among the files is read as it stands by then; the first fault ends the
loading.
-/

namespace ModRepair.Command

/-- Why a file was of no use. Each fault comes with the path of the file. -/
inductive LoadFault
  | unreadable (path : Bytes)
  /-- It is not JSON. -/
  | text (path : Bytes) (report : Json.ErrorReport)
  /-- It is not an assembly or a module. -/
  | content (path : Bytes) (fault : Interchange.Fault)
  | profile (path : Bytes) (fault : Profile.Fault)
  deriving DecidableEq, Repr

/-- A message about the file at a path. -/
def about (path message : Bytes) : Bytes :=
  path ++ ascii ": " ++ message

def LoadFault.message : LoadFault → Bytes
  | .unreadable path => about path (ascii "cannot open " ++ Bytes.quoted path)
  | .text path report => about path report.text
  | .content path fault => about path fault.message
  | .profile path fault => about path fault.message

/-- What the log says of a fault: only that the content of a profile is wrong. -/
def LoadFault.records (fault : LoadFault) : List Log.Record :=
  match fault with
  | .profile .. => [⟨.error, ascii "profile", fault.message⟩]
  | _ => []

/-- A record of the command line. -/
def record (level : Log.Level) (message : Bytes) : Log.Record :=
  ⟨level, ascii "cli", message⟩

/-- The JSON value in a file. -/
def loadJson (files : Storage.Files) (path : Bytes) : Except LoadFault Json := do
  let text ← (files.read path).mapError fun _ => .unreadable path
  (Json.read text).mapError (.text path)

def loadAssembly (files : Storage.Files) (path : Bytes) : Except LoadFault Assembly := do
  (Interchange.readAssembly (← loadJson files path)).mapError (.content path)

def loadModule (files : Storage.Files) (host : Host) (path : Bytes) : Except LoadFault Module := do
  (Interchange.readModule (some host) (← loadJson files path)).mapError (.content path)

def loadProfile (files : Storage.Files) (path : Bytes) : Except LoadFault Profile := do
  (Profile.read (← loadJson files path)).mapError (.profile path)

/-! ## All files -/

/-- What the log says of a host assembly. -/
def loadedRecord (assembly : Assembly) (path : Bytes) : Log.Record :=
  record .info (ascii "loaded host assembly " ++ assembly.name ++ ascii " from " ++ path)

/-- Registers the assemblies in files with a host. -/
def loadHost (host : Host) : List Bytes → Session → Session × Except LoadFault Host
  | [], s => (s, .ok host)
  | path :: rest, s =>
    match loadAssembly s.files path with
    | .error fault => (s, .error fault)
    | .ok assembly => loadHost (host.add assembly) rest (s.log (loadedRecord assembly path))

/-- The profile of a file, or without one the profile that watches all assemblies of the host. -/
def chooseProfile (host : Host) (path : Option Bytes) (s : Session) : Session × Except LoadFault Profile :=
  match path with
  | none => (s, .ok (.watching (host.assemblies.map (·.name))))
  | some path =>
    match loadProfile s.files path with
    | .error fault => (s.logAll fault.records, .error fault)
    | .ok profile => (s.log profile.loadedRecord, .ok profile)

def loadModules (files : Storage.Files) (host : Host) : List Bytes → Except LoadFault (List Module)
  | [] => .ok []
  | path :: rest => do
    let m ← loadModule files host path
    let ms ← loadModules files host rest
    return m :: ms

/-- What a run works on. -/
structure Inputs where
  profile : Profile
  modules : List Module
  deriving DecidableEq, Repr

/-- Reads everything that the options name. -/
def load (o : Options) (s : Session) : Session × Except LoadFault Inputs :=
  match loadHost .empty o.hosts s with
  | (s, .error fault) => (s, .error fault)
  | (s, .ok host) =>
    match chooseProfile host o.profile s with
    | (s, .error fault) => (s, .error fault)
    | (s, .ok profile) =>
      (s, (loadModules s.files host o.modules).map fun modules => ⟨profile, modules⟩)

end ModRepair.Command
