import ModRepair.Log.Logger
import ModRepair.Log.Options
import ModRepair.Storage.Stream
import ModRepair.Text.Transcript

/-!
# Sessions

All that a run of the program acts on: the files, the logger with its log file, and the two output streams. What is
written to the log file is held back until there is too much of it, a record is severe, or the run ends.
-/

namespace ModRepair.Command

structure Session where
  files : Storage.Files
  logger : Log.Logger
  /-- The stream to the log file, if there is one. -/
  logFile : Option Storage.Stream
  /-- The moment that log lines bear. -/
  stamp : Log.Stamp
  stdout : Transcript
  stderr : Transcript
  deriving DecidableEq, Repr

namespace Session

/-! ## Output -/

def print (s : Session) (text : Bytes) : Session :=
  { s with stdout := s.stdout.write text }

def printError (s : Session) (text : Bytes) : Session :=
  { s with stderr := s.stderr.write text }

/-- Tells why the run cannot go on. -/
def printFault (s : Session) (message : Bytes) : Session :=
  s.printError (Bytes.lines [ascii "error: " ++ message])

/-! ## Log -/

/-- Lets the stream to the log file do something, if there is one. -/
def withLogFile (s : Session) (act : Storage.Stream → Storage.Files → Storage.Stream × Storage.Files) : Session :=
  match s.logFile with
  | none => s
  | some stream =>
    let (stream, files) := act stream s.files
    { s with files, logFile := some stream }

/-- Lets the log file have what was held back for it. -/
def flush (s : Session) : Session :=
  s.withLogFile Storage.Stream.flush

/-- Writes a line to the log file. The end of a line is a single character. -/
def writeLogLine (s : Session) (line : Bytes) : Session :=
  s.withLogFile fun stream files =>
    let (stream, files) := stream.write line files
    (stream.put Bytes.newline, files)

/-- Writes a record to a sink. -/
def deliver (s : Session) : Log.Sink × Log.Record → Session
  | (.memory, _) => s
  | (.console format, r) => s.printError (Bytes.lines [r.line format s.stamp])
  | (.file format, r) =>
    let s := s.writeLogLine (r.line format s.stamp)
    if Log.Level.error ≤ r.level then s.flush else s

/-- Writes a record to each sink that it goes to. -/
def log (s : Session) (r : Log.Record) : Session :=
  (s.logger.log r).foldl deliver s

def logAll (s : Session) (rs : List Log.Record) : Session :=
  rs.foldl log s

/-! ## Start -/

/-- Opens a log file, which is made if it is missing, or tells that this cannot be done. -/
def openLogFile (s : Session) (format : Log.Format) (path : Bytes) : Session :=
  match s.files.filePlace path with
  | .ok place =>
    { s with
      files := s.files.appendAt place []
      logger := s.logger.addSink (.file format)
      logFile := some (.new place) }
  | .error _ => s.printError (Bytes.lines [ascii "warning: could not open log file: " ++ path])

/-- A session with a logger and log file as configured. -/
def start (files : Storage.Files) (stamp : Log.Stamp) (config : Log.Config) : Session :=
  let logger := Log.Logger.configured config.level config.filterSpec
  let logger := if config.console then logger.addSink (.console config.format) else logger
  let s : Session := { files, logger, logFile := none, stamp, stdout := .empty, stderr := .empty }
  if config.file.isEmpty then s else s.openLogFile config.format config.file

end Session

end ModRepair.Command
