import ModRepair.Metadata.Traversal
import ModRepair.Repair.Report

/-!
# Runs

A run takes every instruction of a module in turn and offers it to the handlers, one after another, until one
claims it. `hear` finds out what the handlers say to one instruction; `Run.visit` does what follows from it. A
handler that fails is noted and passed over; one that aborts ends the run, and the rest of the module stays as it
is. Decisions are taken on the module as its tables stand at that moment.
-/

namespace ModRepair

/-! ## One instruction -/

/-- What becomes of an instruction. -/
inductive Verdict
  | unclaimed
  /-- The handler at the position claims it. -/
  | claimed (position : Nat) (claim : Claim)
  | aborted (reason : Bytes)
  deriving DecidableEq, Repr

/-- The verdict, and the failures on the way to it. -/
structure Hearing where
  failures : List (Handler × Bytes)
  verdict : Verdict

/-- The verdict seen from one position further to the left. -/
def Verdict.shift : Verdict → Verdict
  | .claimed position claim => .claimed (position + 1) claim
  | v => v

/-- Offers an instruction to the handlers from left to right until one claims it or aborts. -/
def hear (find : Resolver) (i : Instruction) : List Handler → Hearing
  | [] => ⟨[], .unclaimed⟩
  | h :: rest =>
    match h.offer find i with
    | .claimed c => ⟨[], .claimed 0 c⟩
    | .aborted reason => ⟨[], .aborted reason⟩
    | .declined =>
      let hearing := hear find i rest
      ⟨hearing.failures, hearing.verdict.shift⟩
    | .failed text =>
      let hearing := hear find i rest
      ⟨(h, text) :: hearing.failures, hearing.verdict.shift⟩

/-! ## The state of a run -/

structure Run where
  /-- The module with the tables as they stand; the bodies are put back at the end. -/
  module : Module
  tallies : List Tally
  visited : Nat
  claimed : Nat
  failures : Nat
  /-- Why the run was given up, if it was. -/
  aborted : Option Bytes
  log : List Log.Record

namespace Run

def start (handlers : List Handler) (m : Module) : Run :=
  ⟨m, handlers.map Tally.new, 0, 0, 0, none, []⟩

/-- What the log says of tables that have grown: first the new assemblies, then new members. -/
def growthRecords (name : Bytes) (before after : ImportTables) : List Log.Record :=
  (after.assemblies.drop before.assemblies.length).map
      (fun a => ⟨.debug, ascii "cil", name ++ ascii ": added assembly reference " ++ a⟩) ++
    (after.fields.drop before.fields.length).map
      (fun r => ⟨.trace, ascii "cil", name ++ ascii ": imported field " ++ r.text⟩) ++
    (after.methods.drop before.methods.length).map
      (fun r => ⟨.trace, ascii "cil", name ++ ascii ": imported method " ++ r.text⟩)

/-- What the log says of a handler that failed. The text of a failure ends at its first zero byte. -/
def failureRecord (name : Bytes) (site : Site) (failure : Handler × Bytes) : Log.Record :=
  Report.record .warn
    (name ++ ascii ": " ++ failure.1.name ++ ascii " failed on " ++ site.typeName ++ ascii "::" ++
      site.methodName ++ ascii " IL_" ++ Numeral.decimal site.position ++ ascii ": " ++ failure.2.untilZero)

/-- What the log says of a claim: nothing if the handler has used the phrase before. -/
def claimRecords (t : Tally) (c : Claim) : List Log.Record :=
  if t.knows c.phrase then [] else [Report.record .debug (t.handler.name ++ ascii ": " ++ c.phrase)]

/-- Enters a claim of the handler at a position, and the references it imports. -/
def take (run : Run) (position : Nat) (c : Claim) : Run :=
  let grown := run.module.addImports c.imports
  { run with
    module := grown
    tallies := run.tallies.modify position (·.take c)
    claimed := run.claimed + 1
    log := run.log ++ growthRecords run.module.name run.module.imports grown.imports ++
      (run.tallies[position]?.map (claimRecords · c)).getD [] }

/-- Counts an instruction and the failures that it met with. -/
def note (run : Run) (site : Site) (failures : List (Handler × Bytes)) : Run :=
  { run with
    visited := run.visited + 1
    failures := run.failures + failures.length
    log := run.log ++ failures.map (failureRecord run.module.name site) }

/-- Takes one instruction; once a run is given up no more are taken. -/
def visit (site : Site) (i : Instruction) (run : Run) : Instruction × Run :=
  if run.aborted.isSome then (i, run)
  else
    let hearing := hear run.module.resolver i (run.tallies.map (·.handler))
    let run := run.note site hearing.failures
    match hearing.verdict with
    | .unclaimed => (i, run)
    | .claimed position c => (c.instruction, run.take position c)
    | .aborted reason => (i, { run with aborted := some reason })

/-- The report of a run that is over. -/
def report (run : Run) : Report where
  module := run.module.name
  phrases := distinct (run.tallies.flatMap (·.phrases))
  categories := Category.inOrder (run.tallies.flatMap (·.categories))
  visited := run.visited
  claimed := run.claimed
  failures := run.failures

/-- What the log says of a run that is over. -/
def reportRecord (r : Report) : Log.Record :=
  Report.record .info
    (r.module ++ ascii ": " ++ Numeral.decimal r.visited ++ ascii " instructions, " ++
      Numeral.decimal r.claimed ++ ascii " matched, " ++ r.disposition.name)

end Run

/-! ## Whole modules -/

/-- The module as a run leaves it, its report or the reason for giving up, and what was logged. -/
structure Outcome where
  module : Module
  report : Except Bytes Report
  log : List Log.Record

/-- Runs the handlers over a module. -/
def repair (handlers : List Handler) (m : Module) : Outcome :=
  let (types, run) := Traversal.types Run.visit m.types (.start handlers m)
  let repaired := { run.module with types }
  match run.aborted with
  | some reason => ⟨repaired, .error reason, run.log⟩
  | none => ⟨repaired, .ok run.report, run.log ++ [Run.reportRecord run.report]⟩

end ModRepair
