import ModRepair.Log.Options
import ModRepair.Repair.Registry

/-!
# Command-line arguments

The arguments of the program, without those about logging, which are skipped here. An option's value is written
after an equals sign or as the next argument, whatever that looks like; what does not start with a hyphen is the
path of a module.
-/

namespace ModRepair.Command

/-- How reports are printed. -/
inductive ReportFormat
  | text
  | json
  deriving DecidableEq, Repr

/-- What the arguments ask for. -/
structure Options where
  /-- Paths of host assemblies. -/
  hosts : List Bytes
  profile : Option Bytes
  output : Option Bytes
  /-- Paths of modules. -/
  modules : List Bytes
  /-- Whether the listings of the modules are printed. -/
  print : Bool
  format : ReportFormat
  /-- How many workers are wished for; zero is one for each processor. -/
  jobs : Nat
  help : Bool
  version : Bool
  repair : RepairOptions
  deriving DecidableEq, Repr

/-- What holds if nothing is asked for. -/
def Options.initial : Options where
  hosts := []
  profile := none
  output := none
  modules := []
  print := false
  format := .text
  jobs := 1
  help := false
  version := false
  repair := .standard

/-! ## Faults -/

inductive ArgumentFault
  | noHostFile
  | noProfileFile
  | noOutputPath
  | unknownFormat (name : Bytes)
  /-- No number at all, or one that 64 bits do not hold. -/
  | invalidJobs
  | unknownOption (arg : Bytes)
  | noHosts
  | noModules
  deriving DecidableEq, Repr

def ArgumentFault.message : ArgumentFault → Bytes
  | .noHostFile => ascii "--host requires a file"
  | .noProfileFile => ascii "--profile requires a file"
  | .noOutputPath => ascii "--output requires a path"
  | .unknownFormat name => ascii "unknown report format " ++ Bytes.quoted name
  | .invalidJobs => ascii "--jobs requires a non-negative number"
  | .unknownOption arg => ascii "unknown option " ++ Bytes.quoted arg
  | .noHosts => ascii "at least one --host assembly is required"
  | .noModules => ascii "no modules given"

/-! ## Kinds of arguments -/

/-- Options without a value. -/
inductive Switch
  | help | version | paranoid | crossPlatform | noPatchEngine | print
  deriving DecidableEq, Repr

/-- Options with a value. -/
inductive Setting
  | host | profile | output | reportFormat | jobs
  deriving DecidableEq, Repr

inductive Argument
  /-- About logging. -/
  | logging
  | switch (s : Switch)
  /-- The value is given if it is part of the argument. -/
  | setting (s : Setting) (value : Option Bytes)
  | unknown
  | module
  deriving DecidableEq, Repr

def switches : List (String × Switch) :=
  [("-h", .help), ("--help", .help), ("-V", .version), ("--version", .version), ("--paranoid", .paranoid),
    ("--cross-platform", .crossPlatform), ("--no-patch-engine", .noPatchEngine), ("--print", .print)]

/-- Names of options that may be followed by an equals sign and a value. -/
def settings : List (String × Setting) :=
  [("--host", .host), ("--profile", .profile), ("--output", .output), ("--report-format", .reportFormat),
    ("--jobs", .jobs)]

/-- The one short name of an option with a value, which is always the next argument. -/
def shortSetting : String × Setting :=
  ("-j", .jobs)

/-- The switch that an argument is. -/
def Switch.ofArgument? (arg : Bytes) : Option Switch :=
  switches.findSome? fun (name, s) => if arg = ascii name then some s else none

/-- The option that an argument is, with its value if that is part of the argument. -/
def Setting.ofArgument? (arg : Bytes) : Option (Setting × Option Bytes) :=
  if arg = ascii shortSetting.1 then some (shortSetting.2, none)
  else
    settings.findSome? fun (name, s) =>
      match Bytes.after? (ascii name) arg with
      | some [] => some (s, none)
      | some (c :: value) => if c = Bytes.equals then some (s, some value) else none
      | none => none

def Argument.ofBytes (arg : Bytes) : Argument :=
  if Log.isLogging arg then .logging
  else
    match Switch.ofArgument? arg with
    | some s => .switch s
    | none =>
      match Setting.ofArgument? arg with
      | some (s, value) => .setting s value
      | none => if arg.head? = some Bytes.minus then .unknown else .module

/-! ## Reading -/

namespace Options

def turnOn (o : Options) : Switch → Options
  | .help => { o with help := true }
  | .version => { o with version := true }
  | .paranoid => { o with repair := { o.repair with paranoid := true } }
  | .crossPlatform => { o with repair := { o.repair with crossPlatform := true } }
  | .noPatchEngine => { o with repair := { o.repair with patchEngine := false } }
  | .print => { o with print := true }

/-- A number of workers: decimal digits only, for a number of 64 bits. -/
def jobs? (value : Bytes) : Option Nat :=
  if !value.isEmpty && value.all Numeral.isDigit && Numeral.value value < UInt64.size then
    some (Numeral.value value)
  else none

def set (o : Options) (s : Setting) (value : Bytes) : Except ArgumentFault Options :=
  match s with
  | .host => .ok { o with hosts := o.hosts ++ [value] }
  | .profile => .ok { o with profile := some value }
  | .output => .ok { o with output := some value }
  | .reportFormat =>
    if value = ascii "text" then .ok { o with format := .text }
    else if value = ascii "json" then .ok { o with format := .json }
    else .error (.unknownFormat value)
  | .jobs =>
    match jobs? value with
    | some jobs => .ok { o with jobs }
    | none => .error .invalidJobs

/-- The fault of an option at the end of the arguments. -/
def missingValue : Setting → ArgumentFault
  | .host => .noHostFile
  | .profile => .noProfileFile
  | .output => .noOutputPath
  | .reportFormat => .unknownFormat []
  | .jobs => .invalidJobs

/-- Takes the arguments one after another, up to the first that is at fault. -/
def take (o : Options) : List Bytes → Except ArgumentFault Options
  | [] => .ok o
  | arg :: rest =>
    match Argument.ofBytes arg with
    | .logging => o.take rest
    | .switch s => (o.turnOn s).take rest
    | .setting s (some value) => do (← o.set s value).take rest
    | .setting s none =>
      match rest with
      | [] => .error (missingValue s)
      | value :: rest => do (← o.set s value).take rest
    | .unknown => .error (.unknownOption arg)
    | .module => { o with modules := o.modules ++ [arg] }.take rest

/-- Without a wish for help or the version there must be a host and a module. -/
def check (o : Options) : Except ArgumentFault Options :=
  if o.help || o.version then .ok o
  else if o.hosts.isEmpty then .error .noHosts
  else if o.modules.isEmpty then .error .noModules
  else .ok o

/-- The options for a list of arguments. -/
def ofArguments (args : List Bytes) : Except ArgumentFault Options := do
  (← initial.take args).check

end Options

/-! ## Help -/

/-- How the program is called. -/
def usage : Bytes :=
  Bytes.lines <| [
    "Usage: retrofit --host <assembly.json> [--host ...] [--profile <profile.json>]",
    "                [options] <module.json> [<module.json> ...]",
    "",
    "Options:",
    "  --host <file>            Host assembly metadata (repeatable)",
    "  --profile <file>         Host API profile; defaults to watching every host",
    "                           assembly with the built-in detectors",
    "  --paranoid               Flag console, filesystem, process and dynamic access",
    "  --cross-platform         Apply platform shims",
    "  --no-patch-engine        Redirect patch engine calls to compatibility shims",
    "  --output <path>          Write rewritten modules (file for one, else directory)",
    "  --print                  Print the rewritten IL",
    "  --report-format=<fmt>    text (default) or json",
    "  --jobs <n>               Rewrite modules on n threads (0 = all cores)",
    "  --log-level=<level>      trace, debug, info, warn, error, off",
    "  --log-filter=<spec>      e.g. \"rewrite=debug,*=warn\"",
    "  --log-file=<path>        Also write log records to a file",
    "  -v, -vv, -vvv, -q        Raise or lower verbosity",
    "  -h, --help               Show this help",
    "  -V, --version            Show version"].map ascii

/-- The name and version of the program. -/
def versionLine : Bytes :=
  Bytes.lines [ascii "retrofit 0.3.0"]

end ModRepair.Command
