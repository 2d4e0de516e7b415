import ModRepair.Interchange.Writer
import ModRepair.Log.Record
import ModRepair.Repair.Handler

/-!
# Reports

What a run says about a module: what was found and done, on how many instructions, and the disposition that
follows. A report is written as text, as JSON, or to the log.
-/

namespace ModRepair

structure Report where
  /-- The name of the module. -/
  module : Bytes
  phrases : List Bytes
  /-- In the order of the categories. -/
  categories : List Category
  visited : Nat
  claimed : Nat
  /-- How often a handler failed. -/
  failures : Nat
  deriving DecidableEq, Repr

namespace Report

def disposition (r : Report) : Disposition :=
  .ofCategories r.categories

/-- Whether nothing was found or done. -/
def isEmpty (r : Report) : Bool :=
  r.phrases.isEmpty && r.categories.isEmpty

/-- The categories that are worth a warning. -/
def concerns (r : Report) : List Category :=
  r.categories.filter (·.severity != .info)

/-- A count as a JSON number, which has 64 bits. -/
def countJson (n : Nat) : Json :=
  .integer (Int64.ofNat n)

def json (r : Report) : Json :=
  Interchange.objectJson
    [("module", .string r.module), ("disposition", .string r.disposition.name),
      ("phrases", Json.strings r.phrases), ("results", Json.strings (r.categories.map Category.name)),
      ("instructions_visited", countJson r.visited), ("instructions_claimed", countJson r.claimed),
      ("handler_failures", countJson r.failures)]

/-- The line that tells the disposition and the counts. -/
def headline (r : Report) : Bytes :=
  r.module ++ ascii ": " ++ r.disposition.name ++ ascii " (" ++ Numeral.decimal r.claimed ++ ascii " of " ++
    Numeral.decimal r.visited ++ ascii " instructions matched)"

def lines (r : Report) : List Bytes :=
  r.headline :: r.phrases.map (ascii "  - " ++ ·) ++ r.concerns.map (ascii "  ! " ++ ·.description) ++
    if r.failures = 0 then [] else [ascii "  " ++ Numeral.decimal r.failures ++ ascii " handler failure(s)"]

def text (r : Report) : Bytes :=
  Bytes.lines r.lines

/-- A record of the run of a module. -/
def record (level : Log.Level) (message : Bytes) : Log.Record :=
  ⟨level, ascii "rewrite", message⟩

/-- The record that tells the disposition; acceptance is told only if something was done. -/
def dispositionRecords (r : Report) : List Log.Record :=
  match r.disposition with
  | .reject => [record .error (r.module ++ ascii " is not compatible and was rejected")]
  | .acceptWithWarning => [record .warn (r.module ++ ascii " loaded with warnings")]
  | .accept =>
    if r.phrases.isEmpty then [] else [record .info (r.module ++ ascii " rewritten for compatibility")]

/-- The report as records of the log. -/
def records (r : Report) : List Log.Record :=
  r.dispositionRecords ++ r.phrases.map (fun p => record .info (ascii "  " ++ p)) ++
    r.concerns.map fun c => record .warn (ascii "  " ++ r.module ++ ascii " " ++ c.description)

end Report

end ModRepair
