import ModRepair.Log.Filter

/-!
# The logger

A logger passes records on to its sinks if they are severe enough. It asks its filter, and before that, as a quick test,
a level of its own. Configuring the logger and giving it a filter put that level at or below every threshold of the
filter. Giving it a new level does not: the filter may have a lower threshold for some tags, and then the quick test
hides records that the filter would let pass.
-/

namespace ModRepair.Log

/-- Where records go. -/
inductive Sink
  /-- Kept for the caller to look at. -/
  | memory
  | console (format : Format)
  | file (format : Format)
  deriving DecidableEq, Repr

structure Logger where
  level : Level
  filter : Filter
  sinks : List Sink
  deriving DecidableEq, Repr

namespace Logger

/-- Without sinks, until it is configured. -/
def initial : Logger :=
  ⟨.info, .initial, []⟩

/-- A logger for a level, changed by a filter specification unless that is empty, without sinks. -/
def configured (level : Level) (spec : Bytes) : Logger :=
  let filter := Filter.initial.setFallback level
  if spec.isEmpty then ⟨level, filter, []⟩
  else
    let filter := filter.parse spec
    ⟨filter.lowest, filter, []⟩

/-- Takes a level, for the quick test too, whatever thresholds the filter has for single tags. -/
def setLevel (l : Logger) (level : Level) : Logger :=
  { l with level, filter := l.filter.setFallback level }

/-- Takes a filter specification; the level follows the filter down but not up. -/
def setFilter (l : Logger) (spec : Bytes) : Logger :=
  let filter := l.filter.parse spec
  { l with filter, level := filter.lowest.least l.level }

def addSink (l : Logger) (sink : Sink) : Logger :=
  { l with sinks := l.sinks ++ [sink] }

def clearSinks (l : Logger) : Logger :=
  { l with sinks := [] }

/-- Whether a record of a level and tag is wanted: the quick test on the level, then the filter. -/
def wants (l : Logger) (level : Level) (tag : Bytes) : Bool :=
  l.level ≤ level && l.filter.accepts level tag

/-- A record with each sink that it goes to. -/
def deliver (l : Logger) (r : Record) : List (Sink × Record) :=
  l.sinks.map (·, r)

/-- A record with each sink that it goes to, if it is wanted. -/
def log (l : Logger) (r : Record) : List (Sink × Record) :=
  if l.wants r.level r.tag then l.deliver r else []

end Logger

end ModRepair.Log
