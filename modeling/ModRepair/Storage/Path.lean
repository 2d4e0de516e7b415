import ModRepair.Text.Bytes

/-!
# Paths

Names separated by slashes. A path that starts with a slash leads from the root, any other from the current
directory; one that ends in a slash leads to a directory.
-/

namespace ModRepair.Storage

namespace Path

/-- The name of a directory in itself. -/
abbrev here : Bytes := [Bytes.dot]

/-- The name of the directory above. -/
abbrev above : Bytes := [Bytes.dot, Bytes.dot]

def isAbsolute (path : Bytes) : Bool :=
  path.head? == some Bytes.slash

/-- The names along a path. Slashes in a row count as one. -/
def names (path : Bytes) : List Bytes :=
  (Bytes.splitAll Bytes.slash path).filter (!·.isEmpty)

/-- The names along a path and, after a slash at the end, that of the directory in itself. -/
def steps (path : Bytes) : List Bytes :=
  names path ++ if path.getLast? = some Bytes.slash then [here] else []

/-- The part after the last slash. -/
def fileName (path : Bytes) : Bytes :=
  Bytes.afterLast (· == Bytes.slash) path

/-- The part of the file name from its last dot on. A dot at the start of the name does not count, nor do the two
names that consist of dots. -/
def extension (path : Bytes) : Bytes :=
  let name := fileName path
  let suffix := Bytes.afterLast (· == Bytes.dot) name
  if name = above ∨ name.length ≤ suffix.length + 1 then [] else Bytes.dot :: suffix

/-- The path of a name in a directory. -/
def join (directory name : Bytes) : Bytes :=
  match directory.getLast? with
  | none => name
  | some c => if c = Bytes.slash then directory ++ name else directory ++ Bytes.slash :: name

end Path

end ModRepair.Storage
