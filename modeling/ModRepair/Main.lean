import ModRepair.Command.Run
import Std.Time

/-!
# The program

Takes a picture of the files that the command line names, runs the program on it, and makes the changes that the run
made to the picture.
-/

namespace ModRepair.Command

/-- The text that some bytes encode; bytes that are no UTF-8 give nothing. -/
def textOfBytes (bytes : Bytes) : String :=
  (String.fromUTF8? ⟨bytes.toArray⟩).getD ""

def bytesOfText (text : String) : Bytes :=
  text.toUTF8.toList

/-- The path of a place. -/
def pathOfPlace (place : Storage.Place) : String :=
  textOfBytes (Bytes.slash :: [Bytes.slash].intercalate place)

/-! ## The picture -/

/-- Adds what is really at a place to the picture, with the contents of a file if they are wanted. -/
def addPlace (withContents : Bool) (files : Storage.Files) (place : Storage.Place) : IO Storage.Files := do
  if (files.node? place).isSome then return files
  let path := (← IO.currentDir) / pathOfPlace place
  if ← path.isDir then return files.put place .directory
  else if ← path.pathExists then
    let contents ← if withContents then IO.FS.readBinFile path else pure .empty
    return files.put place (.file contents.toList)
  else return files

/-- Adds all that a path leads through to the picture. -/
def addPath (files : Storage.Files) (path : Bytes) : IO Storage.Files := do
  let (files, _) ← (Storage.Path.names path).foldlM (fun (files, place) name => do
    if name = Storage.Path.here then return (files, place)
    else if name = Storage.Path.above then return (files, place.dropLast)
    else
      let place := place ++ [name]
      return (← addPlace true files place, place)) (files, files.startOf path)
  return files

/-- Adds what lies in a directory to the picture. -/
def addEntries (files : Storage.Files) (path : Bytes) : IO Storage.Files := do
  match files.walk (files.startOf path) (Storage.Path.steps path) with
  | .error _ => return files
  | .ok place =>
    if files.node? place != some .directory then return files
    let directory := (← IO.currentDir) / pathOfPlace place
    (← directory.readDir).foldlM (fun files entry =>
      addPlace false files (place ++ [bytesOfText entry.fileName])) files

/-- The device that everything can be written to and nothing fits on. -/
def fullDevice : Storage.Place :=
  [ascii "dev", ascii "full"]

/-- The picture of the files that a command line names. -/
def pictureFor (args : List Bytes) (config : Log.Config) : IO Storage.Files := do
  let current := bytesOfText (← IO.currentDir).toString
  let devices := [(fullDevice.dropLast, .directory), (fullDevice, .file [])]
  let files ← addPath ⟨Storage.Path.names current, devices, [(fullDevice, 0)]⟩ current
  let files ← addPath files config.file
  match Options.ofArguments args with
  | .error _ => return files
  | .ok o =>
    let files ← (o.hosts ++ o.profile.toList ++ o.modules ++ o.output.toList).foldlM addPath files
    o.output.toList.foldlM addEntries files

/-- Makes the changes that lead from one picture to another. -/
def applyChanges (before after : Storage.Files) : IO Unit :=
  after.nodes.forM fun (place, node) => do
    if before.node? place == some node then return
    match node with
    | .directory => IO.FS.createDirAll (pathOfPlace place)
    | .file contents => IO.FS.writeBinFile (pathOfPlace place) ⟨contents.toArray⟩

/-- The time of day and the moment. -/
def stampNow : IO Log.Stamp := do
  let time ← Std.Time.PlainTime.now
  let now ← Std.Time.Timestamp.now
  let digits (width : Nat) (n : Int) : Bytes := Bytes.padLeft width Bytes.zero (Numeral.decimalInt n)
  let clock := digits 2 time.hour.val ++ ascii ":" ++ digits 2 time.minute.val ++ ascii ":" ++
    digits 2 time.second.val ++ ascii "." ++ digits 3 (time.nanosecond.val / 1000000)
  return ⟨clock, now.toMillisecondsSinceUnixEpoch.val⟩

end ModRepair.Command

open ModRepair ModRepair.Command in
def main (args : List String) : IO UInt32 := do
  let args := args.map bytesOfText
  let environment := (← IO.getEnv "RETROFIT_LOG").map bytesOfText
  let before ← pictureFor args (.ofArguments args environment)
  let (s, ending) := execute 0 before (← stampNow) args environment
  (← IO.getStderr).write ⟨s.stderr.text.toArray⟩
  (← IO.getStdout).write ⟨s.stdout.text.toArray⟩
  applyChanges before s.files
  return ending.exitCode.toUInt32
