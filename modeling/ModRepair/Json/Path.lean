import ModRepair.Json.Value

/-!
# Paths into a JSON value

A path names a place within a value by keys and indices. `follow` finds the value at the place and `update` puts
another there; both fail in the same two ways.
-/

namespace ModRepair.Json

/-- One step of a path. -/
inductive Step
  | key (name : Bytes)
  | index (position : Int)
  deriving DecidableEq, Repr

/-- Why a path leads nowhere: an index into something that is no array, or a place that does not exist. -/
inductive PathFault
  | wrongKind
  | absent
  deriving DecidableEq, Repr

/-- The value one step further. A key leads nowhere from anything but an object. -/
def child (step : Step) (j : Json) : Except PathFault Json :=
  match step with
  | .key name =>
    match j.get? name with
    | some v => .ok v
    | none => .error .absent
  | .index i =>
    match j with
    | .array items =>
      match if i < 0 then none else items[i.toNat]? with
      | some v => .ok v
      | none => .error .absent
    | _ => .error .wrongKind

/-- The value with the one a step further replaced, where that step leads somewhere. -/
def replaceChild (j : Json) (step : Step) (new : Json) : Json :=
  match j, step with
  | .object members, .key name => .object (Dictionary.insert name new members)
  | .array items, .index i => .array (items.set i.toNat new)
  | _, _ => j

/-- The value at the end of a path. -/
def follow : List Step → Json → Except PathFault Json
  | [], j => .ok j
  | step :: path, j => (j.child step).bind (follow path)

/-- Changes the value at the end of a path, unless the change refuses it as of the wrong kind. -/
def update (change : Json → Option Json) : List Step → Json → Except PathFault Json
  | [], j =>
    match change j with
    | some j => .ok j
    | none => .error .wrongKind
  | step :: path, j => do
    let inner ← update change path (← j.child step)
    return j.replaceChild step inner

end ModRepair.Json
