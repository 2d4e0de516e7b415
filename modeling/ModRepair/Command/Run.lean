import ModRepair.Command.Destination
import ModRepair.Command.Loading
import ModRepair.Command.Session
import ModRepair.Metadata.Listing

/-!
# A run of the program

Loads what the options name, repairs the modules and publishes the outcome: reports and listings on the output
stream, modules at the destination. Until the modules are repaired nothing is published, so a fault up to there
leaves no trace but its message, the log and perhaps a directory.
-/

namespace ModRepair.Command

/-- How a run ends. -/
inductive Ending
  /-- Every module was accepted, perhaps with warnings. -/
  | accepted
  | failed
  /-- Some module was rejected. -/
  | rejected
  deriving DecidableEq, Repr

def Ending.exitCode : Ending → Nat
  | .accepted => 0
  | .failed => 1
  | .rejected => 2

/-- The ending for reports that were published. -/
def Ending.ofReports (reports : List Report) : Ending :=
  if reports.any (·.disposition == .reject) then .rejected else .accepted

/-! ## Publication -/

/-- What a run prints for a module and its report; JSON reports are printed together at the end. -/
def printed (o : Options) (m : Module) (report : Report) : Bytes :=
  (if o.format = .text then report.text else []) ++ if o.print then m.listing true else []

/-- Writes a module to its file, if there is a destination. Whether it has fitted is asked before the file is closed,
and so before it is known of what is handed over only then. -/
def writeModule (destination : Option Destination) (m : Module) (s : Session) :
    Session × Except DestinationFault Unit :=
  match destination with
  | none => (s, .ok ())
  | some d =>
    let path := d.pathFor m.name
    match s.files.filePlace path with
    | .error _ => (s, .error (.noFile path))
    | .ok place =>
      let (files, failed) := Storage.Stream.writeLine place (Interchange.moduleJson m).document s.files
      let s := { s with files }
      if failed then (s, .error (.noRoom path))
      else (s.log (record .info (ascii "wrote " ++ path)), .ok ())

/-- Publishes the modules with their reports one after another, until one cannot be written. -/
def publishEach (o : Options) (destination : Option Destination) :
    List (Module × Report) → Session → Session × Except DestinationFault Unit
  | [], s => (s, .ok ())
  | (m, report) :: rest, s =>
    match writeModule destination m ((s.logAll report.records).print (printed o m report)) with
    | (s, .error fault) => (s, .error fault)
    | (s, .ok ()) => publishEach o destination rest s

/-- All reports as one JSON document. -/
def reportsDocument (reports : List Report) : Bytes :=
  Bytes.lines [(Json.array (reports.map (·.json))).document]

/-- Publishes everything. -/
def publish (o : Options) (destination : Option Destination) (modules : List Module) (reports : List Report)
    (s : Session) : Session × Ending :=
  match publishEach o destination (modules.zip reports) s with
  | (s, .error fault) => (s.printFault fault.message, .failed)
  | (s, .ok ()) =>
    let s := if o.format = .json then s.print (reportsDocument reports) else s
    (s, .ofReports reports)

/-! ## The run -/

/-- What the log says before the handlers run. -/
def startRecord (registry : Registry) (modules : Nat) : Log.Record :=
  record .debug
    (ascii "running " ++ Numeral.decimal registry.labels.length ++ ascii " handlers on " ++
      Numeral.decimal modules ++ ascii " module(s)")

/-- Repairs modules and publishes the outcome. -/
def repairAndPublish (cores : Nat) (o : Options) (destination : Option Destination) (inputs : Inputs)
    (s : Session) : Session × Ending :=
  let registry := Registry.ofProfile o.repair inputs.profile
  let count := inputs.modules.length
  let outcome := registry.repairAll (workerCount cores o.jobs count) inputs.modules
  let s := s.logAll (registry.readyRecord :: startRecord registry count :: outcome.log)
  match outcome.reports with
  | .error reason => (s.printFault reason, .failed)
  | .ok reports => publish o destination outcome.modules reports s

/-- Gets the destination ready, if the options name one. -/
def prepareOutput (o : Options) (inputs : Inputs) (s : Session) : Session × Except DestinationFault Unit :=
  match o.output with
  | none => (s, .ok ())
  | some path =>
    let (files, result) :=
      (Destination.ofPath path inputs.modules.length).prepare (inputs.modules.map (·.name)) s.files
    ({ s with files }, result)

/-- Runs the program for options that ask for neither help nor the version. -/
def runRepair (cores : Nat) (o : Options) (s : Session) : Session × Ending :=
  match load o s with
  | (s, .error fault) => (s.printFault fault.message, .failed)
  | (s, .ok inputs) =>
    match prepareOutput o inputs s with
    | (s, .error fault) => (s.printFault fault.message, .failed)
    | (s, .ok ()) =>
      repairAndPublish cores o (o.output.map (Destination.ofPath · inputs.modules.length)) inputs s

/-- Runs the program for any options. -/
def run (cores : Nat) (o : Options) (s : Session) : Session × Ending :=
  if o.help then (s.print usage, .accepted)
  else if o.version then (s.print versionLine, .accepted)
  else runRepair cores o s

/-- Runs the program for a list of arguments; faulty ones are answered with the usage. -/
def runArguments (cores : Nat) (args : List Bytes) (s : Session) : Session × Ending :=
  match Options.ofArguments args with
  | .error fault => ((s.printFault fault.message).printError (Bytes.lines [[]] ++ usage), .failed)
  | .ok o =>
    let (s, ending) := run cores o s
    (s.flush, ending)

/-- A whole run, from the arguments and the text in the environment to the final state of the session. -/
def execute (cores : Nat) (files : Storage.Files) (stamp : Log.Stamp) (args : List Bytes)
    (environment : Option Bytes) : Session × Ending :=
  runArguments cores args (.start files stamp (.ofArguments args environment))

end ModRepair.Command
