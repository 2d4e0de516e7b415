import ModRepair.Metadata.Module
import ModRepair.Storage.Files

/-!
# Destinations

Where repaired modules are written: a single one to a file, if the path given looks like one, and otherwise each to a
file of its own in a directory, named for the module.
-/

namespace ModRepair.Command

inductive Destination
  | file (path : Bytes)
  | directory (path : Bytes)
  deriving DecidableEq, Repr

/-- Why modules cannot be written to a destination. -/
inductive DestinationFault
  | unusableName (name : Bytes)
  | sharedName (name : Bytes)
  | noDirectory (path : Bytes) (fault : Storage.Fault)
  | noFile (path : Bytes)
  /-- The file has been opened, but not all that was written to it has fitted. -/
  | noRoom (path : Bytes)
  deriving DecidableEq, Repr

def DestinationFault.message : DestinationFault → Bytes
  | .unusableName name =>
    ascii "module name " ++ Bytes.quoted name ++ ascii " cannot be used as an output file name"
  | .sharedName name =>
    ascii "two modules are named " ++ Bytes.quoted name ++ ascii "; their output files would collide"
  | .noDirectory path fault => ascii "cannot create " ++ Bytes.quoted path ++ ascii ": " ++ fault.message
  | .noFile path => ascii "cannot open " ++ Bytes.quoted path ++ ascii " for writing"
  | .noRoom path => ascii "failed writing " ++ Bytes.quoted path

/-- The file name extension of module files. -/
def moduleExtension : Bytes :=
  ascii ".json"

/-- Whether a module's name can stand for a file in a directory. -/
def isUsableName (name : Bytes) : Bool :=
  !name.isEmpty && name != Storage.Path.here && name != Storage.Path.above &&
    !name.contains Bytes.slash && !name.contains Bytes.backslash

/-- Each name must be usable and none may occur twice; `seen` are the names before these. -/
def checkNames (seen : List Bytes) : List Bytes → Except DestinationFault Unit
  | [] => .ok ()
  | name :: rest =>
    if !isUsableName name then .error (.unusableName name)
    else if seen.contains name then .error (.sharedName name)
    else checkNames (name :: seen) rest

namespace Destination

/-- The destination that a path means for a number of modules. -/
def ofPath (path : Bytes) (modules : Nat) : Destination :=
  if modules = 1 ∧ Storage.Path.extension path = moduleExtension then .file path else .directory path

/-- The path of the file for a module of a name. -/
def pathFor (d : Destination) (name : Bytes) : Bytes :=
  match d with
  | .file path => path
  | .directory path => Storage.Path.join path (name ++ moduleExtension)

/-- Makes the directory, once all modules are known to have a place in it. -/
def prepare (d : Destination) (names : List Bytes) (files : Storage.Files) :
    Storage.Files × Except DestinationFault Unit :=
  match d with
  | .file _ => (files, .ok ())
  | .directory path =>
    match checkNames [] names with
    | .error fault => (files, .error fault)
    | .ok () =>
      match files.makeDirectories path with
      | (files, none) => (files, .ok ())
      | (files, some fault) => (files, .error (.noDirectory path fault))

end Destination

end ModRepair.Command
