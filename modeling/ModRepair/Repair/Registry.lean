import ModRepair.Profile.Reader
import ModRepair.Repair.Batch

/-!
# The handler registry

The table of all handlers that a profile gives rise to, each behind a gate that the options open or keep shut. The
order of the table is the order in which instructions are offered: shims for other platforms, relocations, shims
for a missing patch engine, the heuristic, the two finders that check references, detectors, paranoid detectors,
and whatever is added later.
-/

namespace ModRepair

/-- When a handler is used. -/
inductive Gate
  | always
  | crossPlatform
  | patchEngineMissing
  | paranoidScan
  deriving DecidableEq, Repr

def Gate.name : Gate → Bytes
  | .always => ascii "always"
  | .crossPlatform => ascii "cross_platform"
  | .patchEngineMissing => ascii "patch_engine_missing"
  | .paranoidScan => ascii "paranoid_scan"

def Gate.ofName? (name : Bytes) : Option Gate :=
  [Gate.always, .crossPlatform, .patchEngineMissing, .paranoidScan].find? (·.name == name)

/-- What is known of the surroundings in which modules will run. -/
structure RepairOptions where
  /-- Modules were made for another platform. -/
  crossPlatform : Bool
  paranoid : Bool
  /-- There is a patch engine for modules to use. -/
  patchEngine : Bool
  deriving DecidableEq, Repr

/-- A patch engine and nothing unusual. -/
def RepairOptions.standard : RepairOptions :=
  ⟨false, false, true⟩

/-- Whether the options open a gate. -/
def Gate.isOpen (options : RepairOptions) : Gate → Bool
  | .always => true
  | .crossPlatform => options.crossPlatform
  | .patchEngineMissing => !options.patchEngine
  | .paranoidScan => options.paranoid

/-- A line of the table. -/
structure Registration where
  gate : Gate
  label : Bytes
  handler : Handler

structure Registry where
  options : RepairOptions
  table : List Registration

namespace Registry

def ofRelocations (gate : Gate) (rs : List Relocation) : List Registration :=
  rs.map fun r => ⟨gate, r.label, r.handler⟩

def ofDetectors (gate : Gate) (ds : List Detector) : List Registration :=
  ds.map fun d => ⟨gate, d.label, d.handler⟩

/-- The handlers that look after references to the watched assemblies. -/
def ofScopes (scopes : List Bytes) : List Registration :=
  [⟨.always, ascii "heuristic field => property", .rule (.heuristic scopes)⟩,
    ⟨.always, ascii "missing member", .finder (.missingMember scopes)⟩,
    ⟨.always, ascii "unexpected member type", .finder (.unexpectedType scopes)⟩]

/-- The table of a profile. -/
def ofProfile (options : RepairOptions) (p : Profile) : Registry where
  options := options
  table :=
    ofRelocations .crossPlatform p.platformShims ++ ofRelocations .always p.relocations ++
      ofRelocations .patchEngineMissing p.patchEngineShims ++ ofScopes p.watchedScopes ++
      ofDetectors .always p.detectors ++ ofDetectors .paranoidScan p.paranoidDetectors

/-- The table with one more handler at its end. -/
def add (r : Registry) (entry : Registration) : Registry :=
  { r with table := r.table ++ [entry] }

/-- The lines behind open gates. -/
def enabled (r : Registry) : List Registration :=
  r.table.filter (·.gate.isOpen r.options)

def labels (r : Registry) : List Bytes :=
  r.enabled.map (·.label)

def handlers (r : Registry) : List Handler :=
  r.enabled.map (·.handler)

/-- What the log says of a table that has been drawn up. -/
def readyRecord (r : Registry) : Log.Record :=
  ⟨.debug, ascii "registry",
    Numeral.decimal r.enabled.length ++ ascii " of " ++ Numeral.decimal r.table.length ++
      ascii " handlers enabled"⟩

/-- Runs the enabled handlers over a module. -/
def repair (r : Registry) (m : Module) : Outcome :=
  ModRepair.repair r.handlers m

/-- Runs the enabled handlers over several modules with a number of workers. -/
def repairAll (r : Registry) (workers : Nat) (ms : List Module) : BatchOutcome :=
  ModRepair.repairAll r.handlers workers ms

end Registry

end ModRepair
