import ModRepair.Log.Record

/-!
# Log options

The arguments of the command line that are about logging, and the configuration they lead to. An explicit level
goes before verbosity flags, and both go before the environment, whatever the order of the arguments.
-/

namespace ModRepair.Log

structure Config where
  level : Level
  format : Format
  filterSpec : Bytes
  /-- The file that records go to as well; none if this is empty. -/
  file : Bytes
  console : Bool
  colors : Bool
  deriving DecidableEq, Repr

/-- Warnings on the console as text. -/
def Config.standard : Config :=
  ⟨.warn, .text, [], [], true, true⟩

/-- An argument that is about logging. -/
inductive LogOption
  | level (level : Level)
  | filter (spec : Bytes)
  | file (path : Bytes)
  | format (format : Format)
  /-- A wish for more detail; more of them do not add up. -/
  | verbosity (amount : Nat)
  deriving DecidableEq, Repr

namespace LogOption

/-- The format of a name; what is not known is text. -/
def formatOfName (name : Bytes) : Format :=
  if name = ascii "json" ∨ name = ascii "JSON" then .json else .text

/-- The number of `v`s after a single hyphen. -/
def verboseFlag? : Bytes → Option Nat
  | c :: v :: rest => if c = Bytes.minus ∧ (v :: rest).all (· == 0x76) then some (rest.length + 1) else none
  | _ => none

/-- The options that are written as a name and a value. -/
def named : List (String × (Bytes → LogOption)) :=
  [("--log-level=", fun v => .level (.ofName v)), ("--log-filter=", .filter), ("--log-file=", .file),
    ("--log-format=", fun v => .format (formatOfName v))]

/-- What an argument says about logging, if anything. -/
def ofArgument? (arg : Bytes) : Option LogOption :=
  match named.findSome? fun (name, build) => (Bytes.after? (ascii name) arg).map build with
  | some option => some option
  | none =>
    if arg = ascii "-q" ∨ arg = ascii "--quiet" then some (.level .error)
    else if arg = ascii "--verbose" then some (.verbosity 1)
    else (verboseFlag? arg).map .verbosity

end LogOption

/-- Whether an argument is about logging, for those who leave such arguments alone. -/
def isLogging (arg : Bytes) : Bool :=
  ["--log-level=", "--log-filter=", "--log-file=", "--log-format="].any
      (fun name => (Bytes.after? (ascii name) arg).isSome) ||
    ["-q", "--quiet", "--verbose"].any (fun word => arg == ascii word) || (LogOption.verboseFlag? arg).isSome

/-- What has been seen of the arguments. -/
structure Seen where
  config : Config
  hasLevel : Bool
  hasFilter : Bool
  verbosity : Nat
  deriving DecidableEq, Repr

namespace Seen

def nothing : Seen :=
  ⟨.standard, false, false, 0⟩

/-- Of several options of a kind the last counts, and the greatest verbosity. -/
def take (s : Seen) : LogOption → Seen
  | .level level => { s with config := { s.config with level }, hasLevel := true }
  | .filter spec => { s with config := { s.config with filterSpec := spec }, hasFilter := true }
  | .file path => { s with config := { s.config with file := path } }
  | .format format => { s with config := { s.config with format } }
  | .verbosity amount => { s with verbosity := max s.verbosity amount }

/-- The level that a verbosity above zero asks for. -/
def levelOfVerbosity (amount : Nat) : Level :=
  if 3 ≤ amount then .trace else if amount = 2 then .debug else .info

/-- Verbosity sets the level unless that was given. -/
def settle (s : Seen) : Seen :=
  if !s.hasLevel && 0 < s.verbosity then s.take (.level (levelOfVerbosity s.verbosity)) else s

/-- Whether a text from the environment is a filter specification rather than a level. -/
def isFilterSpec (s : Bytes) : Bool :=
  s.contains Bytes.equals || s.contains Bytes.comma

/-- The environment counts where the arguments say nothing of level and filter. -/
def withEnvironment (s : Seen) (environment : Option Bytes) : Config :=
  let text := environment.getD []
  if s.hasLevel || s.hasFilter || text.isEmpty then s.config
  else if isFilterSpec text then { s.config with filterSpec := text }
  else { s.config with level := .ofName text }

end Seen

/-- The configuration for a list of arguments and the text in the environment, if there is one. -/
def Config.ofArguments (args : List Bytes) (environment : Option Bytes) : Config :=
  let seen := (args.filterMap LogOption.ofArgument?).foldl Seen.take .nothing
  seen.settle.withEnvironment environment

end ModRepair.Log
