import ModRepair.Storage.Path

/-!
# Files and directories

A tree of named directories and files as a value, with the current directory. A `Place` is a way down from the root
without detours; `walk` finds the place that a path leads to, and every operation on a path either succeeds or says
what stands in the way. There need not be room for all that is written to a file, as on a full disk: what does not fit
is lost once the file is open.
-/

namespace ModRepair.Storage

/-- The names of the directories from the root down, and of what lies in the last of them. -/
abbrev Place := List Bytes

inductive Node
  | directory
  | file (content : Bytes)
  deriving DecidableEq, Repr

/-- What stands in the way of an operation. -/
inductive Fault
  | notFound
  | notDirectory
  | isDirectory
  | exists
  | nameTooLong
  | invalid
  deriving DecidableEq, Repr

def Fault.message : Fault → Bytes
  | .notFound => ascii "No such file or directory"
  | .notDirectory => ascii "Not a directory"
  | .isDirectory => ascii "Is a directory"
  | .exists => ascii "File exists"
  | .nameTooLong => ascii "File name too long"
  | .invalid => ascii "Invalid argument"

/-- What there is, apart from the root, which is always there. -/
structure Files where
  current : Place
  nodes : List (Place × Node)
  /-- How many bytes a file at a place can hold, where that is limited. -/
  limits : List (Place × Nat)
  deriving DecidableEq, Repr

/-- The greatest number of bytes in a name. -/
def nameLimit : Nat := 255

/-- The least number of bytes in a path that is too long. -/
def pathLimit : Nat := 4096

/-- The greatest number of directories that are made for one path. -/
def chainLimit : Nat := 1000

namespace Files

/-! ## Places -/

def node? (fs : Files) (place : Place) : Option Node :=
  if place.isEmpty then some .directory else fs.nodes.lookup place

/-- The nodes with one put at a place, instead of the one there before. -/
def putNode (place : Place) (node : Node) : List (Place × Node) → List (Place × Node)
  | [] => [(place, node)]
  | (p, n) :: rest => if p = place then (place, node) :: rest else (p, n) :: putNode place node rest

def put (fs : Files) (place : Place) (node : Node) : Files :=
  { fs with nodes := putNode place node fs.nodes }

theorem lookup_putNode (place place' : Place) (node : Node) (nodes : List (Place × Node)) :
    (putNode place node nodes).lookup place' = if place = place' then some node else nodes.lookup place' := by
  induction nodes with
  | nil =>
    by_cases h : place = place'
    · simp [putNode, h]
    · simp [putNode, List.lookup_cons, h, beq_false_of_ne (Ne.symm h)]
  | cons e rest ih =>
    obtain ⟨p, n⟩ := e
    by_cases hp : p = place
    · subst hp
      by_cases h : p = place'
      · simp [putNode, h]
      · simp [putNode, List.lookup_cons, h, beq_false_of_ne (Ne.symm h)]
    · by_cases h : p = place'
      · subst h
        simp [putNode, hp, Ne.symm hp]
      · simp [putNode, List.lookup_cons, hp, ih, beq_false_of_ne (Ne.symm h)]

/-- At a place other than the root there is what was put there last. -/
theorem node?_put (fs : Files) {place : Place} (hroot : place ≠ []) (place' : Place) (node : Node) :
    (fs.put place node).node? place' = if place = place' then some node else fs.node? place' := by
  by_cases h : place' = []
  · subst h
    simp [node?, hroot]
  · simp [node?, put, lookup_putNode, h]

/-! ## Paths -/

/-- One step from a place. -/
def enter (fs : Files) (place : Place) (name : Bytes) : Except Fault Place :=
  match fs.node? place with
  | none => .error .notFound
  | some (.file _) => .error .notDirectory
  | some .directory =>
    if name = Path.here then .ok place
    else if name = Path.above then .ok place.dropLast
    else if nameLimit < name.length then .error .nameTooLong
    else if (fs.node? (place ++ [name])).isSome then .ok (place ++ [name])
    else .error .notFound

/-- The place at the end of a way. -/
def walk (fs : Files) (place : Place) : List Bytes → Except Fault Place
  | [] => .ok place
  | name :: rest => do fs.walk (← fs.enter place name) rest

/-- Where a path starts. -/
def startOf (fs : Files) (path : Bytes) : Place :=
  if Path.isAbsolute path then [] else fs.current

/-- What is at the end of a way. -/
def nodeAlong (fs : Files) (place : Place) (way : List Bytes) : Except Fault Node := do
  let place ← fs.walk place way
  match fs.node? place with
  | some node => return node
  | none => .error .notFound

/-- The part of a path that counts, which ends at the first zero byte, unless that is empty or too long. -/
def usable (path : Bytes) : Except Fault Bytes :=
  let path := path.untilZero
  if path.isEmpty then .error .notFound
  else if pathLimit ≤ path.length then .error .nameTooLong
  else .ok path

/-- What a path leads to. -/
def nodeAt (fs : Files) (path : Bytes) : Except Fault Node := do
  let path ← usable path
  fs.nodeAlong (fs.startOf path) (Path.steps path)

/-- The place at the end of a way whose last step may lead to nothing yet. -/
def placeOfNew (fs : Files) (place : Place) (way : List Bytes) : Except Fault Place :=
  match way.getLast? with
  | none => .ok place
  | some name => do
    let parent ← fs.walk place way.dropLast
    match fs.enter parent name with
    | .error .notFound => .ok (parent ++ [name])
    | result => result

/-! ## Reading and writing -/

/-- The content of a file. A directory can be opened too, but there is nothing to read. -/
def read (fs : Files) (path : Bytes) : Except Fault Bytes := do
  match ← fs.nodeAt path with
  | .file content => return content
  | .directory => return []

/-- The place of the file that a path names, which need not exist. -/
def filePlace (fs : Files) (path : Bytes) : Except Fault Place := do
  let path ← usable path
  let place ← fs.placeOfNew (fs.startOf path) (Path.steps path)
  if fs.node? place = some .directory then .error .isDirectory else return place

/-- The content of the file at a place. -/
def contentAt (fs : Files) (place : Place) : Bytes :=
  match fs.node? place with
  | some (.file content) => content
  | _ => []

/-- How many bytes a file at a place can hold, if that is limited. -/
def limit? (fs : Files) (place : Place) : Option Nat :=
  fs.limits.lookup place

/-- The part of a text that fits behind what a file holds. -/
def fitting (fs : Files) (place : Place) (text : Bytes) : Bytes :=
  match fs.limit? place with
  | none => text
  | some limit => text.take (limit - (fs.contentAt place).length)

/-- Puts a text at the end of the file at a place, as far as it fits. -/
def appendAt (fs : Files) (place : Place) (text : Bytes) : Files :=
  fs.put place (.file (fs.contentAt place ++ fs.fitting place text))

/-- Opens the file at a place, which may exist, and empties it. -/
def create (fs : Files) (place : Place) : Files :=
  fs.put place (.file [])

/-- Writes a file, which may exist, as far as there is room. -/
def write (fs : Files) (path content : Bytes) : Except Fault Files := do
  let place ← fs.filePlace path
  return (fs.create place).appendAt place content

/-! ## Making directories -/

def makeDirectory (fs : Files) (place : Place) (way : List Bytes) : Except Fault Files := do
  let place ← fs.placeOfNew place way
  match fs.node? place with
  | none => return fs.put place .directory
  | some .directory => return fs
  | some (.file _) => .error .exists

/-- The beginnings of a way that have to be made, shortest first. The way is given from its end, and what has been
found on the part beyond. -/
def unmade (fs : Files) (place : Place) : List Bytes → List (List Bytes) → Except Fault (List (List Bytes))
  | [], found => .ok found
  | name :: rest, found =>
    let found := if name = Path.here ∨ name = Path.above then found else (name :: rest).reverse :: found
    if chainLimit < found.length then .error .nameTooLong
    else
      match fs.nodeAlong place rest.reverse with
      | .ok .directory => .ok found
      | .ok (.file _) => .error .notDirectory
      | .error .nameTooLong => .error .nameTooLong
      | .error _ => fs.unmade place rest found

/-- Makes directories one after another until one cannot be made. -/
def makeEach (fs : Files) (place : Place) : List (List Bytes) → Files × Option Fault
  | [] => (fs, none)
  | way :: rest =>
    match fs.makeDirectory place way with
    | .ok fs => fs.makeEach place rest
    | .error fault => (fs, some fault)

/-- Makes a directory and those above it that are missing. -/
def makeDirectories (fs : Files) (path : Bytes) : Files × Option Fault :=
  match fs.nodeAt path with
  | .ok .directory => (fs, none)
  | .ok (.file _) => (fs, some .notDirectory)
  | .error .nameTooLong => (fs, some .nameTooLong)
  | .error _ =>
    if path.isEmpty then (fs, some .invalid)
    else
      let place := fs.startOf path
      match fs.unmade place (Path.names path).reverse [] with
      | .error fault => (fs, some fault)
      | .ok ways => fs.makeEach place ways

end Files

end ModRepair.Storage
