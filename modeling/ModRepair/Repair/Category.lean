import ModRepair.Text.Bytes

/-!
# Categories

What can be found out about an instruction, how much it matters, and what it means for the whole module.
-/

namespace ModRepair

inductive Severity
  | info | warning | fatal
  deriving DecidableEq, Repr

def Severity.name : Severity → Bytes
  | .info => ascii "info"
  | .warning => ascii "warning"
  | .fatal => ascii "fatal"

inductive Category
  | repaired
  | missingMember
  | unexpectedType
  | patchEngine
  | saveSerializer
  | unvalidatedUpdateTick
  | dynamic
  | consoleAccess
  | filesystemAccess
  | shellAccess
  deriving DecidableEq, Repr

namespace Category

/-- All categories, in the order in which reports list them. -/
def all : List Category :=
  [.repaired, .missingMember, .unexpectedType, .patchEngine, .saveSerializer, .unvalidatedUpdateTick,
    .dynamic, .consoleAccess, .filesystemAccess, .shellAccess]

/-- The position of a category among all. -/
def index (c : Category) : Nat :=
  all.idxOf c

def name : Category → Bytes
  | .repaired => ascii "rewritten"
  | .missingMember => ascii "missing_member"
  | .unexpectedType => ascii "unexpected_member_type"
  | .patchEngine => ascii "detected_patch_engine"
  | .saveSerializer => ascii "detected_save_serializer"
  | .unvalidatedUpdateTick => ascii "detected_unvalidated_update_tick"
  | .dynamic => ascii "detected_dynamic"
  | .consoleAccess => ascii "detected_console_access"
  | .filesystemAccess => ascii "detected_filesystem_access"
  | .shellAccess => ascii "detected_shell_access"

def ofName? (name : Bytes) : Option Category :=
  all.find? (·.name == name)

def severity : Category → Severity
  | .repaired => .info
  | .missingMember | .unexpectedType => .fatal
  | _ => .warning

def description : Category → Bytes
  | .repaired => ascii "rewritten for compatibility with the current host API"
  | .missingMember => ascii "references a host member that no longer exists"
  | .unexpectedType => ascii "references a host member whose type has changed"
  | .patchEngine => ascii "patches host code directly, which may break the host or other mods"
  | .saveSerializer => ascii "accesses the save serializers and may corrupt save files"
  | .unvalidatedUpdateTick => ascii "subscribes to lifecycle hooks that bypass state validation"
  | .dynamic => ascii "uses dynamic call sites that cannot be checked ahead of time"
  | .consoleAccess => ascii "accesses the console directly"
  | .filesystemAccess => ascii "accesses the filesystem directly"
  | .shellAccess => ascii "starts external processes"

/-- Each category that occurs in a list, once and in the order of reports. -/
def inOrder (cs : List Category) : List Category :=
  all.filter fun c => cs.contains c

theorem mem_all (c : Category) : c ∈ all := by
  cases c <;> decide

@[simp] theorem mem_inOrder {cs : List Category} {c : Category} : c ∈ inOrder cs ↔ c ∈ cs := by
  simp [inOrder, mem_all]

end Category

/-! ## Dispositions -/

/-- What is to be done with a module, from the least to the most severe. -/
inductive Disposition
  | accept | acceptWithWarning | reject
  deriving DecidableEq, Repr

namespace Disposition

def name : Disposition → Bytes
  | .accept => ascii "accept"
  | .acceptWithWarning => ascii "accept_with_warning"
  | .reject => ascii "reject"

/-- The position from the least to the most severe. -/
def rank : Disposition → Nat
  | .accept => 0
  | .acceptWithWarning => 1
  | .reject => 2

/-- A module is rejected for any fatal category, and accepted with a warning for any other that is not merely
informative. -/
def ofCategories (cs : List Category) : Disposition :=
  if cs.any (·.severity == .fatal) then .reject
  else if cs.any (·.severity == .warning) then .acceptWithWarning
  else .accept

end Disposition

end ModRepair
