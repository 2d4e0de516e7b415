import ModRepair.Proofs.Repair.Accounting
import ModRepair.Proofs.Repair.Contract
import ModRepair.Proofs.Repair.TypeMove
import ModRepair.Proofs.Repair.ValueType

/-!
# Rules that are offered their own answers

What a rule puts in the place of an instruction it does not change again. Most rules look for operands of another kind
than they leave. A method that has become static has no receiver any more, and a type that has moved is no longer
stale. A field that has another name and a method that has moved are not recognised either, unless the rule leads back
to where it starts; then the same answer is given once more, and nothing is new about it.

* `Rule.replacement?_again` — **the step lemma**: what a rule answers to its own answer;
* `rule_idempotent` — what this means for the module: instruction and tables stay;
* `repair_again` — a second run of one rule leaves the module as it is.
-/

namespace ModRepair

namespace Rule

/-- The kind of operand that a rule looks for, if it is always the same: types are mentioned in all kinds. -/
def soughtKind? : Rule → Option OperandKind
  | .fieldToProperty _ _ _ _ | .fieldRename _ _ _ | .heuristic _ => some .field
  | .propertyToField _ _ _ | .methodParent _ _ | .methodToStatic _ _ _ _ _ => some .method
  | .typeMove _ _ => none

/-- Whether a rule leads back to where it starts: a field to its own name, or the methods of a type to that type. -/
def isCircular : Rule → Bool
  | .fieldRename _ old new => old == new
  | .methodParent source target => source == target
  | _ => false

variable {find : Resolver} {i : Instruction} {rep : Replacement} {rule : Rule}

/-! ## One rule after the other -/

/-- What a rule replaces has an operand of the kind that it looks for. -/
theorem kind_of_replacement {kind : OperandKind} (hkind : rule.soughtKind? = some kind)
    (h : rule.replacement? find i = some rep) : i.operand.kind = kind := by
  cases rule with
  | fieldToProperty source field target property =>
      obtain ⟨r, _, _, hoperand, -⟩ := fieldToProperty_iff.mp h
      rw [hoperand]
      exact Option.some.inj hkind
  | fieldRename type old new =>
      obtain ⟨r, _, hoperand, -⟩ := fieldRename_iff.mp h
      rw [hoperand]
      exact Option.some.inj hkind
  | propertyToField type property field =>
      obtain ⟨r, _, _, hoperand, -⟩ := propertyToField_iff.mp h
      rw [hoperand]
      exact Option.some.inj hkind
  | typeMove fullName target => cases hkind
  | methodParent source target =>
      obtain ⟨r, _, hoperand, -⟩ := methodParent_iff.mp h
      rw [hoperand]
      exact Option.some.inj hkind
  | methodToStatic source method arity target shim =>
      obtain ⟨r, _, _, hoperand, -⟩ := methodToStatic_spec h
      rw [hoperand]
      exact Option.some.inj hkind
  | heuristic scopes =>
      obtain ⟨r, _, _, hoperand, -⟩ := heuristic_iff.mp h
      rw [hoperand]
      exact Option.some.inj hkind

/-- A rule leaves operands of another kind alone. -/
theorem replacement?_eq_none_of_kind {kind : OperandKind} (hkind : rule.soughtKind? = some kind)
    (hi : i.operand.kind ≠ kind) : rule.replacement? find i = none := by
  apply Option.eq_none_iff_forall_ne_some.mpr
  intro rep h
  exact hi (kind_of_replacement hkind h)

/-- The field of the new name is not taken for one of the old name, unless the names are the same. -/
theorem fieldRename_again {type : TypeRef} {old new : Bytes}
    (h : fieldRenameReplacement type old new find i = some rep) :
    fieldRenameReplacement type old new find rep.instruction = if old = new then some rep else none := by
  obtain ⟨r, d, -, -, -, hd, hstorage, hstatic, rfl⟩ := fieldRename_iff.mp h
  have hnew : d.name = new := by
    obtain ⟨surface, -, hfirst⟩ := fieldNamed?_eq_some.mp hd
    exact fieldNamed?_name hfirst
  by_cases hold : old = new
  · -- The search by name has not changed, so it ends at the same field.
    rw [if_pos hold]
    exact fieldRename_iff.mpr ⟨d.refOn type, d, rfl, rfl, hnew.trans hold.symm, hd, hstorage, hstatic, rfl⟩
  · rw [if_neg hold]
    apply Option.eq_none_iff_forall_ne_some.mpr
    intro rep' h'
    obtain ⟨r', d', hoperand, -, hname, -⟩ := fieldRename_iff.mp h'
    cases hoperand
    exact hold (hname.symm.trans hnew)

/-- A method of the target is not taken for one of the source, unless they are the same type. -/
theorem methodParent_again {source target : TypeRef} (h : methodParentReplacement source target find i = some rep) :
    methodParentReplacement source target find rep.instruction = if source = target then some rep else none := by
  obtain ⟨r, s, -, -, hs, rfl⟩ := methodParent_iff.mp h
  by_cases htype : source = target
  · rw [if_pos htype]
    -- The reference as declared is the one that was looked for, so the same method is found.
    have hsame : s.refOn target = { r with declaringType := target } := by
      obtain ⟨surface, -, hfirst⟩ := Option.bind_eq_some_iff.mp hs
      exact MethodRef.refOn_of_names (r := { r with declaringType := target }) (List.find?_some hfirst)
    have hname : (s.refOn target).name = r.name := by rw [hsame]
    refine methodParent_iff.mpr ⟨s.refOn target, s, rfl, htype.symm, ?_, ?_⟩
    · rw [hsame]
      exact hs
    · rw [hname]
  · rw [if_neg htype]
    apply Option.eq_none_iff_forall_ne_some.mpr
    intro rep' h'
    obtain ⟨r', s', hoperand, hsource, -⟩ := methodParent_iff.mp h'
    cases hoperand
    exact htype hsource.symm

/-- The call of a static method has no receiver, so it is not taken for one of an instance method. -/
theorem methodToStatic_again {source target : TypeRef} {method shim : Bytes} {arity : Option Nat}
    (h : methodToStaticReplacement source method arity target shim find i = some rep) :
    methodToStaticReplacement source method arity target shim find rep.instruction = none := by
  obtain ⟨r, surface, s, -, -, -, -, -, hstatic, -, -, rfl⟩ := methodToStatic_spec h
  apply Option.eq_none_iff_forall_ne_some.mpr
  intro rep' h'
  obtain ⟨r', surface', s', hoperand, -, hthis, -⟩ := methodToStatic_spec h'
  cases hoperand
  have hnothis : (s.refOn target).hasThis = false := by rw [Signature.refOn, hstatic]; rfl
  rw [hnothis] at hthis
  cases hthis

/-- After a type has moved it is mentioned no more. -/
theorem typeMove_again {fullName : Bytes} {target : TypeRef} (h : typeMoveReplacement fullName target i = some rep) :
    typeMoveReplacement fullName target rep.instruction = none := by
  obtain ⟨-, rfl⟩ := typeMove_iff.mp h
  apply Option.eq_none_iff_forall_ne_some.mpr
  intro rep' h'
  obtain ⟨hstale, -⟩ := typeMove_iff.mp h'
  rw [Operand.types_mapTypes, List.any_map, List.any_eq_true] at hstale
  obtain ⟨t, -, ht⟩ := hstale
  exact not_stale_moved fullName target t (isStale_eq_true_iff.mp ht)

/-- **The step lemma.** A rule declines its own answer; if it leads back to where it starts, it gives it again. -/
theorem replacement?_again (h : rule.replacement? find i = some rep) :
    rule.replacement? find rep.instruction = if rule.isCircular then some rep else none := by
  cases rule with
  | fieldToProperty source field target property =>
      obtain ⟨_, _, s, -, -, -, -, -, -, rfl⟩ := fieldToProperty_iff.mp h
      exact replacement?_eq_none_of_kind rfl nofun
  | fieldRename type old new =>
      simp only [isCircular, beq_iff_eq]
      exact fieldRename_again h
  | propertyToField type property field =>
      obtain ⟨_, _, d, -, -, -, -, -, -, -, rfl⟩ := propertyToField_iff.mp h
      exact replacement?_eq_none_of_kind rfl nofun
  | typeMove fullName target => exact typeMove_again h
  | methodParent source target =>
      simp only [isCircular, beq_iff_eq]
      exact methodParent_again h
  | methodToStatic source method arity target shim => exact methodToStatic_again h
  | heuristic scopes =>
      obtain ⟨_, _, s, -, -, -, -, -, rfl⟩ := heuristic_iff.mp h
      exact replacement?_eq_none_of_kind rfl nofun

end Rule

/-- The same for claims. -/
theorem Handler.rule_offer_again {rule : Rule} {find : Resolver} {i : Instruction} {c : Claim}
    (hc : (Handler.rule rule).offer find i = .claimed c) :
    (Handler.rule rule).offer find c.instruction = if rule.isCircular then .claimed c else .declined := by
  obtain ⟨rep, hrep, rfl⟩ := Handler.rule_offer_eq_claimed.mp hc
  show Offer.ofClaim? ((rule.replacement? find rep.instruction).map (·.claim)) = _
  rw [Rule.replacement?_again hrep]
  split
  · rfl
  · rfl

/-! ## Offered twice -/

/-- What a visit does if the only handler declines: the instruction is counted, and that is all. -/
theorem Run.visit_of_declined_only {run : Run} {t : Tally} {site : Site} {i : Instruction} (htallies : run.tallies = [t])
    (hrunning : run.aborted = none) (hdeclined : t.handler.offer run.module.resolver i = .declined) :
    run.visit site i = (i, run.note site []) := by
  have hhear : run.hearing i = ⟨[], .unclaimed⟩ := by
    rw [hearing, htallies, List.map_singleton, hear, hdeclined]
    rfl
  rw [visit_of_running hrunning, hhear]

/-- **Rules are idempotent.** Let a rule be alone in a run, with whatever it has claimed before, over any module, and
    let it claim an instruction. If it is offered what it has put in its place, it declines, unless it leads back to
    where it starts; then it makes the same claim again. Either way that instruction and the module, its tables
    included, stay as the first visit has left them. -/
theorem rule_idempotent (rule : Rule) {run : Run} {t : Tally} (htallies : run.tallies = [t])
    (hrule : t.handler = .rule rule) (hrunning : run.aborted = none) {i : Instruction} {c : Claim}
    (hc : t.handler.offer run.module.resolver i = .claimed c) (site site' : Site) :
    let first := run.visit site i
    let second := first.2.visit site' first.1
    first.1 = c.instruction ∧
      t.handler.offer first.2.module.resolver first.1 = (if rule.isCircular then .claimed c else .declined) ∧
      second.1 = first.1 ∧ second.2.module = first.2.module := by
  intro first second
  let after := (run.note site []).take 0 c
  have hfirst : first = (c.instruction, after) := Run.visit_of_claimed_first htallies hrunning hc
  have hmodule : after.module = run.module.addImports c.imports := rfl
  have htallies' : after.tallies = [t.take c] := by
    show run.tallies.modify 0 (·.take c) = _
    rw [htallies]
    rfl
  have hagain : t.handler.offer after.module.resolver c.instruction =
      if rule.isCircular then .claimed c else .declined := by
    rw [hrule] at hc ⊢
    rw [hmodule, Module.resolver_addImports]
    exact Handler.rule_offer_again hc
  have hsecond : second.1 = c.instruction ∧ second.2.module = after.module := by
    show (first.2.visit site' first.1).1 = _ ∧ (first.2.visit site' first.1).2.module = _
    rw [hfirst]
    cases hcircular : rule.isCircular with
    | false =>
        rw [hcircular] at hagain
        have hdeclined : (t.take c).handler.offer after.module.resolver c.instruction = .declined := hagain
        rw [Run.visit_of_declined_only htallies' hrunning hdeclined]
        exact ⟨rfl, rfl⟩
    | true =>
        rw [hcircular] at hagain
        have hclaimed : (t.take c).handler.offer after.module.resolver c.instruction = .claimed c := hagain
        rw [Run.visit_of_claimed_first htallies' hrunning hclaimed]
        refine ⟨rfl, ?_⟩
        -- The same references are imported once more.
        show (run.module.addImports c.imports).addImports c.imports = run.module.addImports c.imports
        exact run.module.addImports_again c.imports
  rw [hfirst]
  exact ⟨rfl, hagain, hsecond⟩

namespace Sample

/-- The type `Batch` has moved from one assembly to another and has kept its name. -/
def batchMoved : Rule :=
  .typeMove (ascii "Batch") ⟨ascii "Host", ascii "Batch"⟩

/-- The boxing of a `Batch` of an assembly. -/
def boxBatch (scope : Bytes) : Instruction :=
  ⟨.box, .type ⟨scope, ascii "Batch"⟩⟩

end Sample

/-- A type that moves to another assembly under its name is moved once. A field that gets its own name is claimed twice,
    and the second time nothing changes. -/
theorem rule_idempotent_sample :
    let site : Site := ⟨[], [], 0⟩
    let moving := Run.start [.rule Sample.batchMoved] (Sample.moduleOf [])
    let first := moving.visit site (Sample.boxBatch (ascii "Lib"))
    let second := first.2.visit site first.1
    let naming := Run.start [.rule (.fieldRename Sample.typeC (ascii "q") (ascii "q"))] Sample.changedModule
    let first' := naming.visit site (Sample.loadOfC (ascii "q"))
    let second' := first'.2.visit site first'.1
    (first.1 = Sample.boxBatch (ascii "Host") ∧ second.1 = first.1 ∧ second.2.module = first.2.module ∧
        second.2.claimed = 1) ∧
      first'.1 ≠ Sample.loadOfC (ascii "q") ∧ second'.1 = first'.1 ∧ second'.2.module = first'.2.module ∧
        second'.2.claimed = 2 := by
  intro site moving first second naming first' second'
  have htallies : moving.tallies = [.new (.rule Sample.batchMoved)] := rfl
  have htallies' : naming.tallies = [.new (.rule (.fieldRename Sample.typeC (ascii "q") (ascii "q")))] := rfl
  obtain ⟨hfirst, -, hsecond⟩ :=
    rule_idempotent _ htallies rfl rfl (i := Sample.boxBatch (ascii "Lib")) rfl site site
  obtain ⟨hfirst', -, hsecond'⟩ :=
    rule_idempotent _ htallies' rfl rfl (i := Sample.loadOfC (ascii "q")) rfl site site
  have hother : first'.1 ≠ Sample.loadOfC (ascii "q") := by
    rw [show first'.1 = _ from hfirst']
    decide
  exact ⟨⟨hfirst, hsecond.1, hsecond.2, rfl⟩, hother, hsecond'.1, hsecond'.2, rfl⟩

/-! ## Whole runs -/

/-- What a single rule leaves of an instruction it claims no more, or claims without changing it. -/
theorem claim_settle_rule {rule : Rule} {find : Resolver} {i : Instruction} {d : Claim}
    (hd : claimOf? find [.rule rule] (settle find [.rule rule] i) = some d) :
    claimOf? find [.rule rule] i = some d ∧ d.instruction = settle find [.rule rule] i := by
  cases hc : claimOf? find [.rule rule] i with
  | none =>
      rw [settle_of_unclaimed hc, hc] at hd
      cases hd
  | some c =>
      rw [settle_of_claim hc] at hd ⊢
      have hagain := Handler.rule_offer_again (claimOf?_singleton.mp hc)
      rw [claimOf?_singleton.mp hd] at hagain
      split at hagain
      · cases hagain
        exact ⟨rfl, rfl⟩
      · cases hagain

/-- **A second run of one rule** leaves the module as the first has left it. -/
theorem repair_again (rule : Rule) (m : Module) :
    let left := (repair [.rule rule] m).module
    (repair [.rule rule] left).module = left := by
  intro left
  have hleft : left = settled [.rule rule] m := (repair_reports Handler.not_mayAbort_of_mem_rule m).1
  rw [(repair_reports Handler.not_mayAbort_of_mem_rule left).1]
  apply settled_eq_self_of_known
  intro j hj d hd
  rw [hleft, instructions_settled] at hj
  rw [hleft, resolver_settled] at hd
  obtain ⟨i, hi, rfl⟩ := List.mem_map.mp hj
  obtain ⟨hfirst, hsame⟩ := claim_settle_rule hd
  refine ⟨hsame, fun a ha => ?_⟩
  -- What is imported again has been imported for the same instruction in the first run.
  have hmem : a ∈ m.instructions.flatMap (importsOf m.resolver [.rule rule]) := by
    refine List.mem_flatMap.mpr ⟨i, hi, ?_⟩
    rw [importsOf, hfirst]
    exact ha
  have hknown := m.knows_addImports hmem
  rw [hleft]
  exact ⟨hknown.reaches, hknown.records⟩

end ModRepair
