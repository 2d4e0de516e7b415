import ModRepair.Repair.Run

/-!
# Batches

Several workers repair a list of modules. Each takes the next index from a shared counter, repairs the module at
that index, puts its report in the place of that index, and begins again until the counter has passed the end. A
`Batch` is the state of all this between two steps, `Batch.step` the next step of one worker, and a schedule the
list of workers in the order of their steps; `repairAll` lets the workers take turns.
-/

namespace ModRepair

/-- What a worker is about to do. -/
inductive Worker
  | ready
  /-- It has taken an index. -/
  | holding (index : Nat)
  /-- It has repaired the module at the index and has yet to hand in the report. -/
  | carrying (index : Nat) (report : Except Bytes Report)
  | stopped

structure Batch where
  /-- The shared counter. -/
  next : Nat
  modules : List Module
  /-- The reports handed in so far, by index. -/
  reports : List (Option (Except Bytes Report))
  workers : List Worker
  log : List Log.Record

namespace Batch

def start (workers : Nat) (modules : List Module) : Batch :=
  ⟨0, modules, modules.map fun _ => none, List.replicate workers .ready, []⟩

/-- What the log says of a module whose report is handed in. -/
def finishedRecords (b : Batch) (index : Nat) : Except Bytes Report → List Log.Record
  | .error _ => []
  | .ok _ =>
    match b.modules[index]? with
    | none => []
    | some m =>
      [Report.record .debug
        (ascii "batch: finished " ++ m.name ++ ascii " (" ++ Numeral.decimal (index + 1) ++ ascii "/" ++
          Numeral.decimal b.modules.length ++ ascii ")")]

/-- The next step of a worker. -/
def step (handlers : List Handler) (b : Batch) (worker : Nat) : Batch :=
  match b.workers[worker]? with
  | some .ready =>
    { b with
      next := b.next + 1
      workers := b.workers.set worker (if b.next < b.modules.length then .holding b.next else .stopped) }
  | some (.holding index) =>
    match b.modules[index]? with
    | none => b
    | some m =>
      let o := repair handlers m
      { b with
        modules := b.modules.set index o.module
        workers := b.workers.set worker (.carrying index o.report)
        log := b.log ++ o.log }
  | some (.carrying index report) =>
    { b with
      reports := b.reports.set index (some report)
      workers := b.workers.set worker .ready
      log := b.log ++ b.finishedRecords index report }
  | some .stopped => b
  | none => b

/-- The state after the steps of a schedule. -/
def run (handlers : List Handler) (b : Batch) (schedule : List Nat) : Batch :=
  schedule.foldl (step handlers) b

/-- Whether all workers have stopped. -/
def isOver (b : Batch) : Bool :=
  b.workers.all fun
    | .stopped => true
    | _ => false

/-- The schedule in which the workers take turns, long enough for any one of them to do all the work. -/
def turns (workers modules : Nat) : List Nat :=
  (List.replicate (3 * modules + 1) (List.range workers)).flatten

/-- The reports in the order of the modules, or the index and reason of the first failure. -/
def collect (index : Nat) : List (Option (Except Bytes Report)) → Except (Nat × Bytes) (List Report)
  | [] => .ok []
  | some (.error reason) :: _ => .error (index, reason)
  | some (.ok report) :: rest => (collect (index + 1) rest).map (report :: ·)
  | none :: rest => collect (index + 1) rest

end Batch

/-- The modules as they were left, their reports or the reason why the first of those that were given up was, and
what was logged. -/
structure BatchOutcome where
  modules : List Module
  reports : Except Bytes (List Report)
  log : List Log.Record

/-- The number of workers for a wish and a number of modules: no wish means one for each of `cores`, and there are
never more than modules. -/
def workerCount (cores jobs modules : Nat) : Nat :=
  min (if jobs = 0 then if cores = 0 then 4 else cores else jobs) modules

/-- Repairs all modules with a number of workers. -/
def repairAll (handlers : List Handler) (workers : Nat) (modules : List Module) : BatchOutcome :=
  let b := (Batch.start workers modules).run handlers (Batch.turns workers modules.length)
  match Batch.collect 0 b.reports with
  | .ok reports => ⟨b.modules, .ok reports, b.log⟩
  | .error (index, reason) =>
    let name := (b.modules[index]?.map (·.name)).getD []
    ⟨b.modules, .error reason,
      b.log ++ [Report.record .error (ascii "batch: rewriting " ++ name ++ ascii " failed")]⟩

end ModRepair
