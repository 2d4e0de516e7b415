import ModRepair.Proofs.Repair.Accounting
import ModRepair.Proofs.Repair.Shadowing

/-!
# Valid instructions

A rule chooses a member by one search, the resolver looks for the reference to it by another, and each finder by a third.
With overloads, and with several fields of one name, these need not end at the same declaration. They do for the answers
of all rules but the one for types that have moved, and what they end at can be used as the opcode uses it.

* `Instruction.Valid` — the operand is found, and a field has storage and is static if the opcode says so;
* `Rule.static_of_replacement` — **what the rules for fields look at** before they answer;
* `rule_restores` — what a rule puts in is valid, and no finder has anything to say about it;
* `Run.restored_visit`, `restored_repair` — **one step and a whole run**: an instruction is left as it is, or a valid one
  takes its place.
-/

namespace ModRepair

/-- An instruction whose operand is found. If it is a field, it has storage, and it is static exactly if the opcode is
    one for static fields; a token may be loaded of either. -/
structure Instruction.Valid (find : Resolver) (i : Instruction) : Prop where
  finds : find.finds i.operand = true
  storage {r : FieldRef} {d : FieldDecl} : i.operand = .field r → find.field? r = some d → d.isLiteral = false
  static {r : FieldRef} {d : FieldDecl} {access : FieldAccess} :
    i.operand = .field r → find.field? r = some d → i.opcode.fieldAccess? = some access → d.isStatic = access.isStatic

/-! ## Answers -/

theorem Opcode.isStaticAccess_of_fieldAccess? {op : Opcode} {access : FieldAccess} (h : op.fieldAccess? = some access) :
    op.isStaticAccess = access.isStatic := by
  rw [isStaticAccess, h]
  rfl

theorem Rule.isStaticAccess_accessOpcode (kind : Accessor) (isStatic : Bool) :
    (accessOpcode kind isStatic).isStaticAccess = isStatic := by
  cases kind <;> cases isStatic <;> rfl

section

variable {find : Resolver} {i : Instruction} {rep : Replacement} {rule : Rule}

/-- A rule that answers with a field has looked for its storage, and whether it is static as the opcode needs it. -/
theorem Rule.static_of_replacement (hrule : rule.isTypeMove = false) (h : rule.replacement? find i = some rep)
    {r : FieldRef} (hr : rep.instruction.operand = .field r) :
    ∃ d, find.field? r = some d ∧ d.isLiteral = false ∧ d.isStatic = rep.instruction.opcode.isStaticAccess := by
  cases rule with
  | fieldRename type old new =>
      obtain ⟨_, d, -, -, -, hd, hstorage, hstatic, rfl⟩ := fieldRename_iff.mp h
      obtain ⟨surface, hsurface, hfirst⟩ := fieldNamed?_eq_some.mp hd
      cases hr
      exact ⟨d, Resolver.field?_refOn hsurface (fieldNamed?_self hfirst), hstorage, hstatic⟩
  | propertyToField type property field =>
      obtain ⟨_, kind, d, -, -, -, -, hd, hstorage, -, rfl⟩ := propertyToField_iff.mp h
      obtain ⟨surface, hsurface, hfirst⟩ := fieldNamed?_eq_some.mp hd
      cases hr
      exact ⟨d, Resolver.field?_refOn hsurface (fieldNamed?_self hfirst), hstorage,
        (isStaticAccess_accessOpcode kind d.isStatic).symm⟩
  | typeMove fullName target => cases hrule
  -- The others answer with methods.
  | fieldToProperty source field target property =>
      obtain ⟨_, _, s, -, -, -, -, -, -, rfl⟩ := fieldToProperty_iff.mp h
      cases hr
  | methodParent source target =>
      obtain ⟨_, s, -, -, -, rfl⟩ := methodParent_iff.mp h
      cases hr
  | methodToStatic source method arity target shim =>
      obtain ⟨_, _, s, -, -, -, -, -, -, -, -, rfl⟩ := methodToStatic_spec h
      cases hr
  | heuristic scopes =>
      obtain ⟨_, _, s, -, -, -, -, -, rfl⟩ := heuristic_iff.mp h
      cases hr

/-- **An answer is valid**, unless it comes from the rule for types that have moved. -/
theorem Rule.valid_of_replacement (hrule : rule.isTypeMove = false) (h : rule.replacement? find i = some rep) :
    rep.instruction.Valid find where
  finds := by
    obtain ⟨t, -, hanswer⟩ := answer_of_replacement hrule h
    exact hanswer.asDeclared.finds
  storage := by
    intro r d hr hd
    obtain ⟨d', hd', hstorage, -⟩ := static_of_replacement hrule h hr
    rw [Option.some.inj (hd.symm.trans hd')]
    exact hstorage
  static := by
    intro r d access hr hd haccess
    obtain ⟨d', hd', -, hstatic⟩ := static_of_replacement hrule h hr
    rw [Option.some.inj (hd.symm.trans hd'), hstatic, Opcode.isStaticAccess_of_fieldAccess? haccess]

/-- A rule that moves no type puts in what is valid, and what is not flagged. -/
theorem Handler.restores_of_claimed {h : Handler} (hh : h.isMutating) (hmove : h.movesType = false) {c : Claim}
    (hc : h.offer find i = .claimed c) : c.instruction.Valid find ∧ ∀ scopes, ¬ flagged scopes find c.instruction := by
  have hclear : ∀ scopes, ¬ flagged scopes find c.instruction := by
    intro scopes
    exact (asDeclared_of_claimed hh hmove hc).not_flagged scopes c.instruction.opcode
  cases h with
  | rule rule =>
      obtain ⟨rep, hrep, rfl⟩ := rule_offer_eq_claimed.mp hc
      exact ⟨Rule.valid_of_replacement hmove hrep, hclear⟩
  | finder f => cases hh
  | observer o => cases hh

end

/-- **What a rule puts in is valid.** Let any rule but one for types that have moved claim an instruction of any module.
    Then the new operand is found in the module that is left, imports included. If it is a field, the one that is found
    is not a literal, and static exactly if the opcode is one for static fields. Neither finder flags the new
    instruction, whatever is watched. -/
theorem rule_restores (rule : Rule) (hrule : rule.isTypeMove = false) (m : Module) {i : Instruction} {c : Claim}
    (hc : (Handler.rule rule).offer m.resolver i = .claimed c) :
    let left := m.addImports c.imports
    c.instruction.Valid left.resolver ∧ ∀ scopes, ¬ flagged scopes left.resolver c.instruction := by
  intro left
  have hleft : left.resolver = m.resolver := Module.resolver_addImports m c.imports
  rw [hleft]
  exact Handler.restores_of_claimed (h := .rule rule) rfl hrule hc

/-- `D` has two fields of the name `v`. The rule chooses the first, which is no number, and that is the one that is
    found; a reference to the number itself is flagged. -/
theorem rule_restores_sample :
    let rule := Rule.fieldRename ⟨ascii "Host", ascii "D"⟩ (ascii "old") (ascii "v")
    let m := Sample.shadowingModule
    ∃ c, (Handler.rule rule).offer m.resolver ⟨.ldsfld, .field (Sample.numberOfD (ascii "old"))⟩ = .claimed c ∧
      c.instruction ≠ ⟨.ldsfld, .field (Sample.numberOfD (ascii "v"))⟩ ∧
      (m.addImports c.imports).resolver.finds c.instruction.operand = true ∧
      ¬ flagged [ascii "Host"] (m.addImports c.imports).resolver c.instruction ∧
      flagged [ascii "Host"] m.resolver ⟨.ldsfld, .field (Sample.numberOfD (ascii "v"))⟩ := by
  intro rule m
  obtain ⟨c, hc, hother⟩ : ∃ c, (Handler.rule rule).offer m.resolver
      ⟨.ldsfld, .field (Sample.numberOfD (ascii "old"))⟩ = .claimed c ∧
      c.instruction ≠ ⟨.ldsfld, .field (Sample.numberOfD (ascii "v"))⟩ := ⟨_, rfl, by decide⟩
  obtain ⟨hvalid, hclear⟩ := rule_restores rule rfl m hc
  exact ⟨c, hc, hother, hvalid.finds, hclear _, .inr rfl⟩

/-! ## Runs -/

/-- An instruction stays as it is, or one takes its place that is valid and not flagged. -/
def Instruction.Restored (find : Resolver) (i j : Instruction) : Prop :=
  j = i ∨ j.Valid find ∧ ∀ scopes, ¬ flagged scopes find j

namespace Run

/-- A visit leaves resolution as it is, for it does no more than import references. -/
theorem resolver_visit (site : Site) (i : Instruction) (run : Run) :
    (visit site i run).2.module.resolver = run.module.resolver := by
  rcases visit_cases site i run with ⟨-, hmodule⟩ | ⟨-, -, c, -, -, hmodule⟩
  · rw [hmodule]
  · rw [hmodule, Module.resolver_addImports]

/-- **The step lemma.** Where no handler moves types, a visit leaves an instruction as it is or restores it. -/
theorem restored_visit {run : Run} (hmoves : ∀ t ∈ run.tallies, t.handler.movesType = false) (site : Site)
    (i : Instruction) : i.Restored run.module.resolver (visit site i run).1 := by
  rcases visit_cases site i run with ⟨hi, -⟩ | ⟨t, ht, c, hc, hi, -⟩
  · exact .inl hi
  · rw [hi]
    cases hmutating : t.handler.isMutating with
    | false => exact .inl (Handler.claim_of_not_mutating hmutating hc).1
    | true => exact .inr (Handler.restores_of_claimed hmutating (hmoves t ht) hc)

end Run

/-- **A whole run** of handlers that move no types leaves each instruction as it is or restores it, even if it is given
    up. -/
theorem restored_repair {hs : List Handler} (hmoves : ∀ h ∈ hs, h.movesType = false) (m : Module) :
    List.Forall₂ (TypeDecl.Aligned (Instruction.Restored m.resolver)) m.types (repair hs m).module.types := by
  rw [types_repair]
  -- No visit changes the handlers, or what references resolve to.
  refine (Traversal.types_aligned Run.visit (Instruction.Restored m.resolver)
    (fun _ run => run.tallies.map (·.handler) = hs ∧ run.module.resolver = m.resolver) ?_
    ⟨Run.handlers_start hs m, rfl⟩).1
  rintro i - site - run ⟨hhandlers, hresolver⟩
  refine ⟨?_, (Run.handlers_visit site i run).trans hhandlers, (Run.resolver_visit site i run).trans hresolver⟩
  have hstill : ∀ t ∈ run.tallies, t.handler.movesType = false := by
    intro t ht
    apply hmoves
    rw [← hhandlers]
    exact List.mem_map.mpr ⟨t, ht, rfl⟩
  rw [← hresolver]
  exact Run.restored_visit hstill site i

end ModRepair
