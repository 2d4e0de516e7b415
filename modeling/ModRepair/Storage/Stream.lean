import ModRepair.Storage.Files

/-!
# Streams to files

A stream holds back what is written to it until there is too much of it, and only what it hands over can turn out not to
fit. A stream that has met with that has failed, and takes nothing more. What is still held back when a stream is closed
is handed over then, and if it does not fit no one is told.
-/

namespace ModRepair.Storage

/-- A stream to the file at a place, and what is held back for it. -/
structure Stream where
  place : Place
  pending : Bytes
  failed : Bool
  deriving DecidableEq, Repr

namespace Stream

/-- From this number of bytes on, what is held back is handed over when there is more to write. -/
def capacity : Nat := 8191

def new (place : Place) : Stream :=
  ⟨place, [], false⟩

/-- Hands over what is held back and a text behind it. -/
def pass (s : Stream) (text : Bytes) (files : Files) : Stream × Files :=
  let whole := s.pending ++ text
  (if files.fitting s.place whole = whole then { s with pending := [] } else { s with failed := true },
    files.appendAt s.place whole)

/-- Writes a text: it is held back with what there is already if all that is below the capacity. -/
def write (s : Stream) (text : Bytes) (files : Files) : Stream × Files :=
  if s.failed then (s, files)
  else if (s.pending ++ text).length < capacity then ({ s with pending := s.pending ++ text }, files)
  else s.pass text files

/-- Writes a single character, which is always held back. -/
def put (s : Stream) (c : UInt8) : Stream :=
  if s.failed then s else { s with pending := s.pending ++ [c] }

/-- Hands over what is held back. -/
def flush (s : Stream) (files : Files) : Stream × Files :=
  if s.failed || s.pending.isEmpty then (s, files) else s.pass [] files

/-- The files after a stream has been closed. -/
def close (s : Stream) (files : Files) : Files :=
  if s.pending.isEmpty then files else files.appendAt s.place s.pending

/-- Writes a line to a file that is opened and closed for it, and tells whether the stream had failed before it was
closed. -/
def writeLine (place : Place) (line : Bytes) (files : Files) : Files × Bool :=
  let (s, files) := (new place).write line (files.create place)
  let (s, files) := s.write [Bytes.newline] files
  (s.close files, s.failed)

end Stream

end ModRepair.Storage
