import ModRepair.Repair.Run

/-!
# Handling an instruction, step by step

What `Handler.offer` answers is carried out here one step after another: a handler looks at the instruction it was
handed and at what references resolve to, turns away as soon as something does not fit, and only then enters references
in the tables, replaces the instruction and records the claim in its ledger. Every step works on the same `Bench`, so a
body that imported or recorded something too early would leave a trace of it on what it declines.

Each rule and each finder has its own body; `Handler.handle` puts them together, and `round` hands an instruction to one
handler after another until one claims it.
-/

namespace ModRepair

/-! ## Ledgers -/

/-- What a handler has recorded: the phrases in the order in which they first came up, the categories, each once and in
the order of reports, and the number of claims. -/
structure Ledger where
  phrases : List Bytes
  categories : List Category
  count : Nat
  once : phrases.Nodup
  ordered : Category.inOrder categories = categories

namespace Ledger

def new : Ledger :=
  ⟨[], [], 0, List.nodup_nil, rfl⟩

/-- Records a claim. A phrase that has been recorded before is not recorded again. -/
def record (l : Ledger) (category : Category) (phrase : Bytes) : Ledger where
  phrases := appendNew l.phrases phrase
  categories := Category.inOrder (category :: l.categories)
  count := l.count + 1
  once := nodup_appendNew l.once phrase
  ordered := List.filter_congr fun c _ => by simp [Category.mem_inOrder]

end Ledger

/-! ## The bench -/

/-- What a handler has before it: the module, its own ledger, and the instruction. -/
structure Bench where
  module : Module
  ledger : Ledger
  instruction : Instruction

/-- How a handler ends that neither claims nor declines. -/
inductive Breakdown
  | failed (text : Bytes)
  | aborted (reason : Bytes)
  deriving DecidableEq, Repr

/-- Steps at the bench. What has been done before a breakdown stays done. -/
abbrev Handling := EStateM Breakdown Bench

namespace Handling

/-- The instruction as it is. -/
def offered : Handling Instruction :=
  return (← get).instruction

/-- The type that a reference names. -/
def lookUp (ref : TypeRef) : Handling (Option Surface) :=
  return (← get).module.resolver ref

def lookUpField (ref : FieldRef) : Handling (Option FieldDecl) :=
  return (← get).module.resolver.field? ref

/-- Enters a reference in the tables of the module. -/
def enter (i : Import) : Handling Unit :=
  modify fun b => { b with module := b.module.addImport i }

def importType (ref : TypeRef) : Handling TypeRef := do
  enter (.type ref)
  return ref

def importField (ref : FieldRef) : Handling FieldRef := do
  enter (.field ref)
  return ref

def importMethod (ref : MethodRef) : Handling MethodRef := do
  enter (.method ref)
  return ref

/-- Replaces opcode and operand together. -/
def replace (op : Opcode) (operand : Operand) : Handling Unit :=
  modify fun b => { b with instruction := ⟨op, operand⟩ }

def record (category : Category) (phrase : Bytes) : Handling Unit :=
  modify fun b => { b with ledger := b.ledger.record category phrase }

/-- Records a repair and claims the instruction. -/
def markRepaired (phrase : Bytes) : Handling Bool := do
  record .repaired phrase
  return true

/-- Makes the instruction a call of a method, which is imported. -/
def retargetToCall (ref : MethodRef) : Handling Unit := do
  let ref ← importMethod ref
  replace .call (.method ref)

end Handling

/-! ## Rules -/

namespace Rule

open Handling

def handleFieldToProperty (source : TypeRef) (field : Bytes) (target : TypeRef) (property : Bytes) :
    Handling Bool := do
  let i ← offered
  let some _ := i.field?.filter fun r => r.declaringType == source && r.name == field | return false
  let some kind := i.opcode.accessor? | return false
  let some surface ← lookUp target | return false
  let some p := surface.propertyNamed? property | return false
  let isStatic := i.opcode.isStaticAccess
  if !(isStatic || target == source) then
    return false
  let some s := surface.accessor? p kind isStatic | return false
  retargetToCall (s.refOn target)
  markRepaired (propertyPhrase source field target property)

def handleFieldRename (type : TypeRef) (old new : Bytes) : Handling Bool := do
  let i ← offered
  let some _ := i.field?.filter fun r => r.declaringType == type && r.name == old | return false
  let some surface ← lookUp type | return false
  let some d := surface.fieldNamed? new | return false
  if d.isLiteral || d.isStatic != i.opcode.isStaticAccess then
    return false
  let renamed ← importField (d.refOn type)
  replace i.opcode (.field renamed)
  markRepaired (simple type old ++ remark (ascii "field => " ++ new))

def handlePropertyToField (type : TypeRef) (property field : Bytes) : Handling Bool := do
  let i ← offered
  let some r := i.method?.filter fun r => r.declaringType == type | return false
  if !i.opcode.isCall then
    return false
  let some kind := accessorOf? property r | return false
  let some surface ← lookUp type | return false
  let some d := surface.fieldNamed? field | return false
  if d.isLiteral || d.isStatic == r.hasThis then
    return false
  let accessed ← importField (d.refOn type)
  replace (accessOpcode kind d.isStatic) (.field accessed)
  markRepaired (simple type property ++ remark (ascii "property => field"))

/-- The import of the target comes before that of the changed operand. -/
def handleTypeMove (fullName : Bytes) (target : TypeRef) : Handling Bool := do
  let i ← offered
  if !i.operand.types.any (isStale fullName target) then
    return false
  let imported ← importType target
  let operand := i.operand.mapTypes fun t => if isStale fullName target t then imported else t
  match operand with
  | .field r => let _ ← importField r
  | .method r => let _ ← importMethod r
  | _ => pure ()
  replace i.opcode operand
  markRepaired (fullName ++ ascii " type" ++ remark (ascii "=> " ++ target.fullName))

def handleMethodParent (source target : TypeRef) : Handling Bool := do
  let i ← offered
  let some r := i.method?.filter fun r => r.declaringType == source | return false
  let some surface ← lookUp target | return false
  let some s := surface.method? { r with declaringType := target } | return false
  let redirected ← importMethod (s.refOn target)
  replace i.opcode (.method redirected)
  markRepaired (simple source r.name ++ remark (ascii "=> " ++ target.name))

def handleMethodToStatic (source : TypeRef) (method : Bytes) (arity : Option Nat) (target : TypeRef) (shim : Bytes) :
    Handling Bool := do
  let i ← offered
  if !i.opcode.isCall then
    return false
  let some r := i.method?.filter fun r => r.hasThis && r.declaringType == source && r.name == method
    | return false
  if !arity.all (r.parameters.length == ·) then
    return false
  let some surface ← lookUp target | return false
  let some s := surface.methods.find? (isShim source shim r) | return false
  retargetToCall (s.refOn target)
  markRepaired (simple source method ++ remark (ascii "=> " ++ simple target shim))

/-- A property has no address, so loads of addresses are turned away before anything is looked up. -/
def handleHeuristic (scopes : List Bytes) : Handling Bool := do
  let i ← offered
  if i.opcode.hasFieldMode .address then
    return false
  let some r := i.field?.filter fun r => watched scopes r.declaringType | return false
  if (← lookUpField r).isSome then
    return false
  let some surface ← lookUp r.declaringType | return false
  let some p := surface.propertyNamed? r.name | return false
  let some kind := i.opcode.accessor? | return false
  let some s := surface.accessor? p kind i.opcode.isStaticAccess | return false
  retargetToCall (s.refOn r.declaringType)
  markRepaired (simple r.declaringType r.name ++ remark (ascii "field => property"))

def handle : Rule → Handling Bool
  | .fieldToProperty source field target property => handleFieldToProperty source field target property
  | .fieldRename type old new => handleFieldRename type old new
  | .propertyToField type property field => handlePropertyToField type property field
  | .typeMove fullName target => handleTypeMove fullName target
  | .methodParent source target => handleMethodParent source target
  | .methodToStatic source method arity target shim => handleMethodToStatic source method arity target shim
  | .heuristic scopes => handleHeuristic scopes

end Rule

/-! ## Finders -/

namespace Finder

open Handling

def findMissingType (scopes : List Bytes) (r : TypeRef) : Handling (Option Finding) := do
  if !watched scopes r then
    return none
  if (← lookUp r).isSome then
    return none
  return some (missing r.fullName "type")

/-- The search for a member that is missing unless its type declares it by the given test. -/
def findMissingMember (scopes : List Bytes) (t : TypeRef) (name : Bytes) (noun : String) (declares : Surface → Bool) :
    Handling (Option Finding) := do
  if !watched scopes t then
    return none
  let some surface ← lookUp t | return some (missing t.fullName "type")
  if !declares surface then
    return some (missing (qualified t name) noun)
  return none

def findMissing (scopes : List Bytes) : Handling (Option Finding) := do
  match (← offered).operand with
  | .field r =>
    findMissingMember scopes r.declaringType r.name "field" fun s => (s.fieldNamed? r.name).any (!·.isLiteral)
  | .method r => findMissingMember scopes r.declaringType r.name (methodNoun r) fun s => s.methods.any r.fits
  | .property r =>
    findMissingMember scopes r.declaringType r.name "property" fun s => (s.propertyNamed? r.name).isSome
  | .type r => findMissingType scopes r
  | .none => return none

def findUnexpectedField (scopes : List Bytes) (r : FieldRef) : Handling (Option Finding) := do
  if !watched scopes r.declaringType then
    return none
  let some surface ← lookUp r.declaringType | return none
  let some d := surface.fieldNamed? r.name | return none
  if d.isLiteral || d.type == r.fieldType then
    return none
  return some (mismatch r.declaringType r.name "field" d.type r.fieldType)

def findUnexpectedMethod (scopes : List Bytes) (r : MethodRef) : Handling (Option Finding) := do
  if !watched scopes r.declaringType then
    return none
  let some surface ← lookUp r.declaringType | return none
  if surface.methods.any r.names then
    return none
  let some d := surface.methods.find? r.fits | return none
  return some (mismatch r.declaringType r.name "method" d.returnType r.returnType)

def findUnexpected (scopes : List Bytes) : Handling (Option Finding) := do
  match (← offered).operand with
  | .field r => findUnexpectedField scopes r
  | .method r => findUnexpectedMethod scopes r
  | _ => return none

def findTypeUse (fullName : Bytes) (category : Category) : Handling (Option Finding) := do
  let i ← offered
  if !i.operand.types.any (·.fullName == fullName) then
    return none
  return some ⟨category, fullName ++ ascii " type"⟩

def findFieldUse (typeName field : Bytes) (category : Category) : Handling (Option Finding) := do
  let i ← offered
  let some _ := i.field?.filter fun r => r.declaringType.fullName == typeName && r.name == field | return none
  return some ⟨category, typeName ++ ascii "." ++ field ++ ascii " field"⟩

def findEventUse (typeName event : Bytes) (category : Category) : Handling (Option Finding) := do
  let i ← offered
  if !i.opcode.isCall then
    return none
  let some r := i.method?.filter fun r => r.declaringType.fullName == typeName | return none
  if !isEventAccessor event r then
    return none
  return some ⟨category, typeName ++ ascii "." ++ event ++ ascii " event"⟩

def find : Finder → Handling (Option Finding)
  | .missingMember scopes => findMissing scopes
  | .unexpectedType scopes => findUnexpected scopes
  | .typeUse fullName category => findTypeUse fullName category
  | .fieldUse typeName field category => findFieldUse typeName field category
  | .eventUse typeName event category => findEventUse typeName event category

/-- What all finders do with what they find. -/
def handle (f : Finder) : Handling Bool := do
  let some g ← f.find | return false
  record g.category g.phrase
  return true

end Finder

/-! ## All handlers -/

/-- An observer gives its answer at once. -/
def Observer.handle (o : Observer) : Handling Bool := do
  let b ← get
  match o.answer b.module.resolver b.instruction with
  | .declined => return false
  | .claimed c =>
    Handling.record c.category c.phrase
    return true
  | .failed text => throw (.failed text)
  | .aborted reason => throw (.aborted reason)

def Handler.handle : Handler → Handling Bool
  | .rule r => r.handle
  | .finder f => f.handle
  | .observer o => o.handle

/-! ## Rounds -/

/-- How a round ends. -/
inductive Ending
  | unclaimed
  | claimed
  | aborted (reason : Bytes)
  deriving DecidableEq, Repr

/-- What a round leaves: the module and the instruction as the handlers have left them, their ledgers, the failures on
the way, and the ending. -/
structure Round where
  module : Module
  instruction : Instruction
  ledgers : List (Handler × Ledger)
  failures : List (Handler × Bytes)
  ending : Ending

/-- Hands an instruction to the handlers from left to right, each with its ledger, until one claims it or aborts. A
failure is noted, and the round goes on with the module and the instruction as the handler has left them. -/
def round (m : Module) (i : Instruction) : List (Handler × Ledger) → Round
  | [] => ⟨m, i, [], [], .unclaimed⟩
  | (h, ledger) :: rest =>
    match h.handle.run ⟨m, ledger, i⟩ with
    | .ok true b => ⟨b.module, b.instruction, (h, b.ledger) :: rest, [], .claimed⟩
    | .ok false b =>
      let r := round b.module b.instruction rest
      { r with ledgers := (h, b.ledger) :: r.ledgers }
    | .error (.failed text) b =>
      let r := round b.module b.instruction rest
      { r with ledgers := (h, b.ledger) :: r.ledgers, failures := (h, text) :: r.failures }
    | .error (.aborted reason) b => ⟨b.module, b.instruction, (h, b.ledger) :: rest, [], .aborted reason⟩

end ModRepair
