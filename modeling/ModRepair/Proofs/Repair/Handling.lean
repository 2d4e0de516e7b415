import ModRepair.Proofs.Metadata.Imports
import ModRepair.Proofs.Repair.Completion
import ModRepair.Repair.Handling

/-!
# Step by step and at once

The steps of every handler come to what `Handler.offer` answers at once: a handler that declines has left nothing on the
bench, one that claims has entered, replaced and recorded what its claim says, and nothing else.

* `Rule.handle_run`, `Finder.find_run`, `Handler.handle_run` — **steps and answers agree**, for one body after another;
* `Tally.ledger_take` — the ledger of a tally takes a claim as a tally does;
* `Run.visit_eq_round` — **a visit is a round**: what a run does with an instruction is what comes of handing it to the
  handlers one by one.
-/

namespace ModRepair

/-- What must pass two tests passes one after the other. -/
theorem filter_and {α : Type} (x : Option α) (p q : α → Bool) :
    (x.filter fun a => p a && q a) = (x.filter p).filter q := by
  cases x with
  | none => rfl
  | some a => cases hp : p a <;> cases hq : q a <;> simp [Option.filter_some, hp, hq]

/-- A change at one place of a list, seen through a function that takes it to another change. -/
theorem map_modify {α β : Type} {g : α → β} {f : α → α} {f' : β → β} (h : ∀ a, g (f a) = f' (g a)) (l : List α)
    (k : Nat) : (l.modify k f).map g = (l.map g).modify k f' := by
  apply List.ext_getElem?
  intro j
  by_cases hj : k = j
  · subst hj
    cases hk : l[k]? <;> simp [hk, h]
  · simp [hj]

/-! ## Claims at the bench -/

namespace Bench

/-- The bench after a claim. -/
def take (b : Bench) (c : Claim) : Bench :=
  ⟨b.module.addImports c.imports, b.ledger.record c.category c.phrase, c.instruction⟩

/-- What comes of an answer at the bench. -/
def answer (b : Bench) : Offer → EStateM.Result Breakdown Bench Bool
  | .declined => .ok false b
  | .claimed c => .ok true (b.take c)
  | .failed text => .error (.failed text) b
  | .aborted reason => .error (.aborted reason) b

end Bench

/-! ## Steps -/

namespace Handling

theorem run_get_bind {α : Type} (b : Bench) (k : Bench → Handling α) : (get >>= k).run b = (k b).run b := rfl

/-- The steps carry out a replacement, or leave everything as it is if there is none. -/
def Refines (steps : Handling Bool) (b : Bench) (r : Option Replacement) : Prop :=
  steps.run b = b.answer (.ofClaim? (r.map (·.claim)))

section

variable {b : Bench} {steps : Handling Bool} {r : Option Replacement}

theorem refines_offered {k : Instruction → Handling Bool} (h : (k b.instruction).Refines b r) :
    (offered >>= k).Refines b r := h

theorem refines_lookUp {ref : TypeRef} {k : Option Surface → Handling Bool}
    (h : (k (b.module.resolver ref)).Refines b r) : (lookUp ref >>= k).Refines b r := h

theorem refines_lookUpField {ref : FieldRef} {k : Option FieldDecl → Handling Bool}
    (h : (k (b.module.resolver.field? ref)).Refines b r) : (lookUpField ref >>= k).Refines b r := h

/-- Steps that stop where there is no replacement. -/
theorem refines_unless {c : Prop} [Decidable c] (h : ¬ c → steps.Refines b r) :
    Refines (if c then return false else steps) b (if c then none else r) := by
  by_cases hc : c
  · rw [if_pos hc, if_pos hc]
    rfl
  · rw [if_neg hc, if_neg hc]
    exact h hc

/-- Steps that go on only where there may be a replacement. -/
theorem refines_if {c : Bool} (h : c → steps.Refines b r) :
    Refines (if !c then return false else steps) b (if c then r else none) := by
  cases c with
  | false => rfl
  | true => exact h rfl

end

/-- The steps come to a finding, or to none, and leave everything as it is. -/
def Finds (steps : Handling (Option Finding)) (b : Bench) (g : Option Finding) : Prop :=
  steps.run b = .ok g b

section

variable {b : Bench} {steps : Handling (Option Finding)} {g : Option Finding}

theorem finds_offered {k : Instruction → Handling (Option Finding)} (h : (k b.instruction).Finds b g) :
    (offered >>= k).Finds b g := h

theorem finds_lookUp {ref : TypeRef} {k : Option Surface → Handling (Option Finding)}
    (h : (k (b.module.resolver ref)).Finds b g) : (lookUp ref >>= k).Finds b g := h

/-- Steps that stop where there is nothing to find. -/
theorem finds_unless {c : Bool} (h : c = false → steps.Finds b g) :
    Finds (if c then return none else steps) b (if c then none else g) := by
  cases c with
  | false => exact h rfl
  | true => rfl

/-- Steps that go on only where there may be something to find. -/
theorem finds_if {c : Bool} (h : c → steps.Finds b g) :
    Finds (if !c then return none else steps) b (if c then g else none) := by
  cases c with
  | false => rfl
  | true => exact h rfl

end

end Handling

/-! ## Rules -/

namespace Rule

open Handling

variable (b : Bench)

theorem fieldToProperty_refines (source : TypeRef) (field : Bytes) (target : TypeRef) (property : Bytes) :
    (handleFieldToProperty source field target property).Refines b
      (fieldToPropertyReplacement source field target property b.module.resolver b.instruction) := by
  unfold handleFieldToProperty fieldToPropertyReplacement
  refine refines_offered ?_
  cases b.instruction.field?.filter fun r => r.declaringType == source && r.name == field with
  | none => rfl
  | some r =>
      cases b.instruction.opcode.accessor? with
      | none => rfl
      | some kind =>
          refine refines_lookUp ?_
          cases b.module.resolver target with
          | none => rfl
          | some surface =>
              dsimp only [Option.bind_eq_bind, Option.bind_some]
              cases surface.propertyNamed? property with
              | none => rfl
              | some p =>
                  refine refines_if fun _ => ?_
                  cases surface.accessor? p kind b.instruction.opcode.isStaticAccess with
                  | none => rfl
                  | some s => rfl

theorem fieldRename_refines (type : TypeRef) (old new : Bytes) :
    (handleFieldRename type old new).Refines b
      (fieldRenameReplacement type old new b.module.resolver b.instruction) := by
  unfold handleFieldRename fieldRenameReplacement
  refine refines_offered ?_
  cases b.instruction.field?.filter fun r => r.declaringType == type && r.name == old with
  | none => rfl
  | some r =>
      refine refines_lookUp ?_
      cases b.module.resolver type with
      | none => rfl
      | some surface =>
          dsimp only [Option.bind_eq_bind, Option.bind_some]
          cases surface.fieldNamed? new with
          | none => rfl
          | some d => exact refines_unless fun _ => rfl

theorem propertyToField_refines (type : TypeRef) (property field : Bytes) :
    (handlePropertyToField type property field).Refines b
      (propertyToFieldReplacement type property field b.module.resolver b.instruction) := by
  unfold handlePropertyToField propertyToFieldReplacement
  refine refines_offered ?_
  rw [filter_and]
  cases b.instruction.method?.filter fun r => r.declaringType == type with
  | none => rfl
  | some r =>
      cases b.instruction.opcode.isCall with
      | false => rfl
      | true =>
          simp only [Option.filter_some, if_true, Option.bind_eq_bind, Option.bind_some]
          cases accessorOf? property r with
          | none => rfl
          | some kind =>
              refine refines_lookUp ?_
              cases b.module.resolver type with
              | none => rfl
              | some surface =>
                  dsimp only [Option.bind_eq_bind, Option.bind_some]
                  cases surface.fieldNamed? field with
                  | none => rfl
                  | some d => exact refines_unless fun _ => rfl

theorem typeMove_refines (fullName : Bytes) (target : TypeRef) :
    (handleTypeMove fullName target).Refines b (typeMoveReplacement fullName target b.instruction) := by
  unfold handleTypeMove typeMoveReplacement
  refine refines_offered (refines_if fun _ => ?_)
  cases b.instruction.operand <;> rfl

theorem methodParent_refines (source target : TypeRef) :
    (handleMethodParent source target).Refines b
      (methodParentReplacement source target b.module.resolver b.instruction) := by
  unfold handleMethodParent methodParentReplacement Resolver.method?
  refine refines_offered ?_
  cases b.instruction.method?.filter fun r => r.declaringType == source with
  | none => rfl
  | some r =>
      refine refines_lookUp ?_
      dsimp only [Option.bind_eq_bind, Option.bind_some]
      cases b.module.resolver target with
      | none => rfl
      | some surface =>
          dsimp only [Option.bind_some]
          cases surface.method? { r with declaringType := target } with
          | none => rfl
          | some s => rfl

theorem methodToStatic_refines (source : TypeRef) (method : Bytes) (arity : Option Nat) (target : TypeRef)
    (shim : Bytes) :
    (handleMethodToStatic source method arity target shim).Refines b
      (methodToStaticReplacement source method arity target shim b.module.resolver b.instruction) := by
  unfold handleMethodToStatic methodToStaticReplacement
  refine refines_offered ?_
  cases b.instruction.opcode.isCall with
  | false => cases b.instruction.method? <;> rfl
  | true =>
      simp only [Bool.true_and]
      rw [filter_and _ fun r : MethodRef => r.hasThis && r.declaringType == source && r.name == method]
      cases b.instruction.method?.filter fun r => r.hasThis && r.declaringType == source && r.name == method with
      | none => rfl
      | some r =>
          simp only [Option.filter_some]
          cases arity.all (r.parameters.length == ·) with
          | false => rfl
          | true =>
              refine refines_lookUp ?_
              cases b.module.resolver target with
              | none => rfl
              | some surface =>
                  simp only [Option.bind_eq_bind, Option.bind_some, if_true]
                  cases surface.methods.find? (isShim source shim r) with
                  | none => rfl
                  | some s => rfl

/-- What takes an address has no accessor. -/
theorem accessor?_of_address {op : Opcode} (h : op.hasFieldMode .address) : op.accessor? = none := by
  cases op <;> first | rfl | cases h

theorem heuristic_refines (scopes : List Bytes) :
    (handleHeuristic scopes).Refines b (heuristicReplacement scopes b.module.resolver b.instruction) := by
  unfold handleHeuristic heuristicReplacement
  refine refines_offered ?_
  cases haddress : b.instruction.opcode.hasFieldMode .address with
  | true =>
      rw [accessor?_of_address haddress]
      simp only [Option.bind_eq_bind, Option.bind_none, Option.bind_fun_none]
      rfl
  | false =>
      rw [filter_and]
      cases b.instruction.field?.filter fun r => watched scopes r.declaringType with
      | none => rfl
      | some r =>
          refine refines_lookUpField ?_
          cases hfound : b.module.resolver.field? r with
          | some d =>
              rw [Option.filter_some, hfound]
              rfl
          | none =>
              simp only [Option.filter_some, hfound, Option.isNone_none, if_true, Option.bind_eq_bind,
                Option.bind_some]
              refine refines_lookUp ?_
              cases b.module.resolver r.declaringType with
              | none => rfl
              | some surface =>
                  dsimp only [Option.bind_some]
                  cases surface.propertyNamed? r.name with
                  | none => rfl
                  | some p =>
                      dsimp only [Option.bind_some]
                      cases b.instruction.opcode.accessor? with
                      | none => rfl
                      | some kind =>
                          dsimp only [Option.bind_some]
                          cases surface.accessor? p kind b.instruction.opcode.isStaticAccess with
                          | none => rfl
                          | some s => rfl

/-- **The steps of a rule** come to the replacement that it has. -/
theorem handle_run (r : Rule) :
    r.handle.run b = b.answer (.ofClaim? ((r.replacement? b.module.resolver b.instruction).map (·.claim))) := by
  cases r with
  | fieldToProperty source field target property => exact fieldToProperty_refines b source field target property
  | fieldRename type old new => exact fieldRename_refines b type old new
  | propertyToField type property field => exact propertyToField_refines b type property field
  | typeMove fullName target => exact typeMove_refines b fullName target
  | methodParent source target => exact methodParent_refines b source target
  | methodToStatic source method arity target shim =>
      exact methodToStatic_refines b source method arity target shim
  | heuristic scopes => exact heuristic_refines b scopes

end Rule

/-! ## Finders -/

namespace Finder

open Handling

variable (b : Bench)

/-- The search for a member: its type is looked up only if it is watched. -/
theorem missingMember_finds (scopes : List Bytes) (t : TypeRef) (name : Bytes) (noun : String)
    (declares : Surface → Bool) :
    (findMissingMember scopes t name noun declares).Finds b
      (if watched scopes t then missingOn b.module.resolver t name noun declares else none) := by
  unfold findMissingMember missingOn
  refine finds_if fun _ => finds_lookUp ?_
  cases b.module.resolver t with
  | none => rfl
  | some surface =>
      dsimp only
      cases declares surface <;> rfl

theorem missing_finds (scopes : List Bytes) :
    (findMissing scopes).Finds b (missingFinding scopes b.module.resolver b.instruction) := by
  unfold findMissing missingFinding
  refine finds_offered ?_
  cases b.instruction.operand with
  | none => rfl
  | type r => exact finds_if fun _ => finds_lookUp (finds_unless fun _ => rfl)
  | field r => exact missingMember_finds b ..
  | method r => exact missingMember_finds b ..
  | property r => exact missingMember_finds b ..

theorem unexpectedField_finds (scopes : List Bytes) (r : FieldRef) :
    (findUnexpectedField scopes r).Finds b
      (if watched scopes r.declaringType then (b.module.resolver r.declaringType).bind (fieldMismatch · r)
        else none) := by
  unfold findUnexpectedField fieldMismatch
  refine finds_if fun _ => finds_lookUp ?_
  cases b.module.resolver r.declaringType with
  | none => rfl
  | some surface =>
      dsimp only [Option.bind_some]
      cases surface.fieldNamed? r.name with
      | none => rfl
      | some d => exact finds_unless fun _ => rfl

theorem unexpectedMethod_finds (scopes : List Bytes) (r : MethodRef) :
    (findUnexpectedMethod scopes r).Finds b
      (if watched scopes r.declaringType then (b.module.resolver r.declaringType).bind (methodMismatch · r)
        else none) := by
  unfold findUnexpectedMethod methodMismatch
  refine finds_if fun _ => finds_lookUp ?_
  cases b.module.resolver r.declaringType with
  | none => rfl
  | some surface =>
      refine finds_unless fun _ => ?_
      cases surface.methods.find? r.fits <;> rfl

theorem unexpected_finds (scopes : List Bytes) :
    (findUnexpected scopes).Finds b (unexpectedFinding scopes b.module.resolver b.instruction) := by
  unfold findUnexpected unexpectedFinding
  refine finds_offered ?_
  cases b.instruction.operand with
  | field r => exact unexpectedField_finds b scopes r
  | method r => exact unexpectedMethod_finds b scopes r
  | none => rfl
  | type r => rfl
  | property r => rfl

theorem typeUse_finds (fullName : Bytes) (category : Category) :
    (findTypeUse fullName category).Finds b (typeUseFinding fullName category b.instruction) := by
  unfold typeUseFinding findTypeUse
  exact finds_offered (finds_if fun _ => rfl)

theorem fieldUse_finds (typeName field : Bytes) (category : Category) :
    (findFieldUse typeName field category).Finds b (fieldUseFinding typeName field category b.instruction) := by
  unfold fieldUseFinding findFieldUse
  refine finds_offered ?_
  cases b.instruction.field?.filter fun r => r.declaringType.fullName == typeName && r.name == field <;> rfl

theorem eventUse_finds (typeName event : Bytes) (category : Category) :
    (findEventUse typeName event category).Finds b (eventUseFinding typeName event category b.instruction) := by
  unfold eventUseFinding findEventUse
  refine finds_offered ?_
  cases b.instruction.opcode.isCall with
  | false => cases b.instruction.method? <;> rfl
  | true =>
      simp only [Bool.true_and]
      rw [filter_and]
      cases b.instruction.method?.filter fun r => r.declaringType.fullName == typeName with
      | none => rfl
      | some r =>
          simp only [Bool.not_true, Bool.false_eq_true, if_false, Option.filter_some]
          cases isEventAccessor event r <;> rfl

/-- **The search of a finder** leaves everything as it is. -/
theorem find_run (f : Finder) : f.find.run b = .ok (f.finding? b.module.resolver b.instruction) b := by
  cases f with
  | missingMember scopes => exact missing_finds b scopes
  | unexpectedType scopes => exact unexpected_finds b scopes
  | typeUse fullName category => exact typeUse_finds b fullName category
  | fieldUse typeName field category => exact fieldUse_finds b typeName field category
  | eventUse typeName event category => exact eventUse_finds b typeName event category

/-- **The steps of a finder** come to the finding that it has. -/
theorem handle_run (f : Finder) :
    f.handle.run b =
      b.answer (.ofClaim? ((f.finding? b.module.resolver b.instruction).map (·.claim b.instruction))) := by
  unfold handle
  rw [EStateM.run_bind, find_run]
  cases f.finding? b.module.resolver b.instruction <;> rfl

end Finder

/-! ## All handlers -/

/-- An observer has nothing to enter and nothing to replace, so recording is all there is to its claims. -/
theorem Observer.handle_run (o : Observer) (b : Bench) :
    o.handle.run b = b.answer (o.answer b.module.resolver b.instruction) := by
  unfold Observer.handle
  rw [Handling.run_get_bind]
  cases ho : o.answer b.module.resolver b.instruction with
  | declined => rfl
  | failed text => rfl
  | aborted reason => rfl
  | claimed c =>
      obtain ⟨hinstruction, himports⟩ := o.changes_nothing _ _ _ ho
      show EStateM.Result.ok true _ = .ok true (b.take c)
      rw [Bench.take, hinstruction, himports]
      rfl

/-- **Steps and answers agree.** What a handler does at the bench is what it answers at once. -/
theorem Handler.handle_run (h : Handler) (b : Bench) :
    h.handle.run b = b.answer (h.offer b.module.resolver b.instruction) := by
  cases h with
  | rule r => exact r.handle_run b
  | finder f => exact f.handle_run b
  | observer o => exact o.handle_run b

/-! ## Ledgers -/

namespace Tally

/-- What a tally comes to. -/
def ledger (t : Tally) : Ledger where
  phrases := t.phrases
  categories := t.categories
  count := t.count
  once := nodup_foldl_appendNew List.nodup_nil _
  ordered := List.filter_congr fun c _ => by simp [categories]

/-- What has been said before is not said again. -/
theorem phrases_take (t : Tally) (c : Claim) : (t.take c).phrases = appendNew t.phrases c.phrase := by
  have hclaims : (t.take c).claims.map (·.2) = t.claims.map (·.2) ++ [c.phrase] := List.map_append
  rw [phrases, hclaims, distinct, List.foldl_append]
  rfl

theorem categories_take (t : Tally) (c : Claim) :
    (t.take c).categories = Category.inOrder (c.category :: t.categories) := by
  have hclaims : (t.take c).claims.map (·.1) = t.claims.map (·.1) ++ [c.category] := List.map_append
  rw [categories, hclaims]
  refine List.filter_congr fun k _ => ?_
  rw [Bool.eq_iff_iff, List.contains_iff_mem, List.contains_iff_mem, List.mem_append, List.mem_singleton,
    List.mem_cons, categories, Category.mem_inOrder, or_comm]

/-- **A tally and its ledger** take claims alike. -/
theorem ledger_take (t : Tally) (c : Claim) : (t.take c).ledger = t.ledger.record c.category c.phrase := by
  have hcount : (t.take c).count = t.count + 1 := List.length_append
  rw [Ledger.mk.injEq]
  exact ⟨t.phrases_take c, t.categories_take c, hcount⟩

end Tally

/-! ## Rounds -/

/-- What a hearing comes to. -/
def Hearing.round (hearing : Hearing) (m : Module) (i : Instruction) (ledgers : List (Handler × Ledger)) : Round :=
  match hearing.verdict with
  | .unclaimed => ⟨m, i, ledgers, hearing.failures, .unclaimed⟩
  | .claimed k c =>
    ⟨m.addImports c.imports, c.instruction, ledgers.modify k fun (h, l) => (h, l.record c.category c.phrase),
      hearing.failures, .claimed⟩
  | .aborted reason => ⟨m, i, ledgers, hearing.failures, .aborted reason⟩

/-- **A round is a hearing**: who does not claim leaves the module, the instruction and the ledger to the next as they
    are. -/
theorem round_eq_hear (m : Module) (i : Instruction) (ledgers : List (Handler × Ledger)) :
    round m i ledgers = (hear m.resolver i (ledgers.map (·.1))).round m i ledgers := by
  -- Induction on the handlers. The first one hands on what it was handed unless it claims.
  induction ledgers with
  | nil => rfl
  | cons p rest ih =>
      obtain ⟨h, l⟩ := p
      rw [round, Handler.handle_run, List.map_cons, hear]
      cases h.offer m.resolver i with
      | claimed c => rfl
      | aborted reason => rfl
      | declined =>
          dsimp only [Bench.answer]
          rw [ih]
          cases hv : (hear m.resolver i (rest.map (·.1))).verdict <;> simp [Hearing.round, Verdict.shift, hv]
      | failed text =>
          dsimp only [Bench.answer]
          rw [ih]
          cases hv : (hear m.resolver i (rest.map (·.1))).verdict <;> simp [Hearing.round, Verdict.shift, hv]

/-- The reason why a round was the last one. -/
def Ending.reason? : Ending → Option Bytes
  | .aborted reason => some reason
  | _ => none

namespace Run

variable {run : Run}

/-- The handlers of a run, each with its ledger. -/
def ledgers (run : Run) : List (Handler × Ledger) :=
  run.tallies.map fun t => (t.handler, t.ledger)

theorem ledgers_take (k : Nat) (c : Claim) :
    (run.take k c).ledgers = run.ledgers.modify k fun (h, l) => (h, l.record c.category c.phrase) := by
  exact map_modify (fun t => congrArg (Prod.mk t.handler) (t.ledger_take c)) run.tallies k

/-- **A visit is a round.** As long as a run has not been given up, it does with an instruction, with the module, with
    the ledgers of its handlers and with its counts what comes of handing the instruction to one handler after
    another. -/
theorem visit_eq_round (site : Site) (i : Instruction) (hrunning : run.aborted = none) :
    let after := (run.visit site i).2
    let outcome := round run.module i run.ledgers
    (run.visit site i).1 = outcome.instruction ∧ after.module = outcome.module ∧ after.ledgers = outcome.ledgers ∧
      after.visited = run.visited + 1 ∧ after.failures = run.failures + outcome.failures.length ∧
      after.claimed = run.claimed + (if outcome.ending = .claimed then 1 else 0) ∧
      after.aborted = outcome.ending.reason? := by
  have hround : round run.module i run.ledgers = (run.hearing i).round run.module i run.ledgers := by
    have hhandlers : run.ledgers.map (·.1) = run.tallies.map (·.handler) := by simp [ledgers]
    rw [hearing, ← hhandlers]
    exact round_eq_hear run.module i run.ledgers
  rw [visit_of_running hrunning, hround, Hearing.round]
  cases (run.hearing i).verdict with
  | unclaimed => exact ⟨rfl, rfl, rfl, rfl, rfl, rfl, hrunning⟩
  | claimed k c => exact ⟨rfl, rfl, ledgers_take k c, rfl, rfl, rfl, hrunning⟩
  | aborted reason => exact ⟨rfl, rfl, rfl, rfl, rfl, rfl, rfl⟩

end Run

end ModRepair
