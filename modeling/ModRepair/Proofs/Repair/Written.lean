import ModRepair.Proofs.Metadata.Written
import ModRepair.Proofs.Repair.Completion
import ModRepair.Proofs.Repair.Table

/-!
# Runs keep modules such that they can be written

A run puts in references that no reader has seen: their types come from the profile and from what the host and the
module declare. If all of those can be written, the module can be written after the run, and after any number of
runs.

* `Rule.Answer.written`, `Rule.typeMove_written` — what rules answer can be written;
* `Handler.Written.claim` — **the step lemma**: a claim on an instruction that can be written can be written;
* `written_settled` — one run;
* `Registry.Leads.written` — **any number of runs**, by induction on them.
-/

namespace ModRepair

/-! ## Rules -/

theorem Signature.Written.refOn {s : Signature} (hs : s.Written) {t : TypeRef} (ht : t.Written) :
    (s.refOn t).Written :=
  ⟨ht, hs.1, hs.2⟩

theorem FieldDecl.Written.refOn {d : FieldDecl} (hd : d.Written) {t : TypeRef} (ht : t.Written) :
    (d.refOn t).Written :=
  ⟨ht, hd⟩

/-- A claim that puts in, and imports, only what can be written. -/
structure Claim.Written (c : Claim) : Prop where
  instruction : c.instruction.Written
  imports : ∀ i ∈ c.imports, i.Written

/-- The subject of an operand is one of its types. -/
theorem Operand.Written.subject {o : Operand} (h : o.Written) {t : TypeRef} (ht : o.subject? = some t) : t.Written := by
  apply h
  cases o with
  | none => cases ht
  | type r =>
      cases ht
      exact List.mem_singleton.mpr rfl
  | field r =>
      cases ht
      exact List.mem_cons_self ..
  | method r =>
      cases ht
      exact List.mem_cons_self ..
  | property r =>
      cases ht
      exact List.mem_cons_self ..

namespace Rule

/-- A rule that refers to a type that can be written, if it names one. -/
def Written : Rule → Prop
  | .fieldToProperty _ _ target _ => target.Written
  | .fieldRename type _ _ => type.Written
  | .propertyToField type _ _ => type.Written
  | .typeMove _ target => target.Written
  | .methodParent _ target => target.Written
  | .methodToStatic _ _ _ target _ => target.Written
  | .heuristic _ => True

section

variable {find : Resolver} {i : Instruction} {rep : Replacement} {rule : Rule} {t : TypeRef}

theorem Written.home (h : rule.Written) (hi : i.Written) (ht : rule.home? i = some t) : t.Written := by
  cases rule with
  | fieldToProperty source field target property => cases ht; exact h
  | fieldRename type old new => cases ht; exact h
  | propertyToField type property field => cases ht; exact h
  | typeMove fullName target => cases ht
  | methodParent source target => cases ht; exact h
  | methodToStatic source method arity target shim => cases ht; exact h
  | heuristic scopes => exact hi.operand.subject ht

/-- **An answer can be written**, if the type it is about and all declarations can. -/
theorem Answer.written (h : Answer find i t rep) (ht : t.Written) (hfind : find.Written) (hi : i.Written) :
    rep.claim.Written := by
  have hfits : rep.instruction.isWellFormed = true := h.wellFormed hi.wellFormed
  cases h with
  | @call surface s phrase type declared =>
      have href : (s.refOn t).Written := ((hfind t surface type).methods s declared).refOn ht
      exact ⟨⟨hfits, Operand.written_method.mpr href⟩, List.forall_mem_singleton.mpr href⟩
  | @method surface s phrase kind type declared =>
      have href : (s.refOn t).Written := ((hfind t surface type).methods s declared).refOn ht
      exact ⟨⟨hfits, Operand.written_method.mpr href⟩, List.forall_mem_singleton.mpr href⟩
  | @field surface d op phrase kind type declared storage =>
      have hd : d ∈ surface.fields := List.mem_of_find?_eq_some declared
      have href : (d.refOn t).Written := ((hfind t surface type).fields d hd).refOn ht
      exact ⟨⟨hfits, Operand.written_field.mpr href⟩, List.forall_mem_singleton.mpr href⟩

theorem moved_written {fullName : Bytes} {target : TypeRef} (htarget : target.Written) (ht : t.Written) :
    (moved fullName target t).Written := by
  unfold moved
  split
  · exact htarget
  · exact ht

/-- **Moving types** to one that can be written leaves what can be written. -/
theorem typeMove_written {fullName : Bytes} {target : TypeRef} (htarget : target.Written) (hi : i.Written)
    (h : typeMoveReplacement fullName target i = some rep) : rep.claim.Written := by
  have hoperand : (i.operand.mapTypes (moved fullName target)).Written := by
    intro t ht
    rw [Operand.types_mapTypes] at ht
    obtain ⟨t', ht', rfl⟩ := List.mem_map.mp ht
    exact moved_written htarget (hi.operand t' ht')
  have hfits : rep.instruction.isWellFormed = true := typeMove_wellFormed h hi.wellFormed
  obtain ⟨-, rfl⟩ := typeMove_iff.mp h
  refine ⟨⟨hfits, hoperand⟩, ?_⟩
  -- The target is imported, and so is the new operand if it is a field or a method.
  intro j hj
  rcases List.mem_cons.mp hj with rfl | hj
  · exact htarget
  · cases ho : i.operand.mapTypes (moved fullName target) with
    | field r =>
        rw [ho] at hj hoperand
        rw [List.mem_singleton.mp hj]
        exact Operand.written_field.mp hoperand
    | method r =>
        rw [ho] at hj hoperand
        rw [List.mem_singleton.mp hj]
        exact Operand.written_method.mp hoperand
    | none => rw [ho] at hj; cases hj
    | type r => rw [ho] at hj; cases hj
    | property r => rw [ho] at hj; cases hj

end

end Rule

/-! ## Handlers -/

/-- A handler that is no rule, or a rule that refers to a type that can be written. -/
def Handler.Written : Handler → Prop
  | .rule r => r.Written
  | .finder _ => True
  | .observer _ => True

/-- **The step lemma.** -/
theorem Handler.Written.claim {h : Handler} (hh : h.Written) {find : Resolver} (hfind : find.Written)
    {i : Instruction} (hi : i.Written) {c : Claim} (hc : h.offer find i = .claimed c) : c.Written := by
  cases hmut : h.isMutating with
  | false =>
      obtain ⟨hsame, hnone⟩ := Handler.claim_of_not_mutating hmut hc
      refine ⟨by rw [hsame]; exact hi, ?_⟩
      rw [hnone]
      intro j hj
      cases hj
  | true =>
      cases h with
      | finder f => cases hmut
      | observer o => cases hmut
      | rule rule =>
          obtain ⟨rep, hrep, rfl⟩ := Handler.rule_offer_eq_claimed.mp hc
          cases hmove : rule.isTypeMove with
          | false =>
              obtain ⟨t, ht, hanswer⟩ := Rule.answer_of_replacement hmove hrep
              exact hanswer.written (Rule.Written.home hh hi ht) hfind hi
          | true =>
              cases rule with
              | typeMove fullName target => exact Rule.typeMove_written hh hi hrep
              | _ => cases hmove

/-! ## Runs -/

section

variable {find : Resolver} {hs : List Handler} {i : Instruction}

theorem claimOf?_written (hhs : ∀ h ∈ hs, h.Written) (hfind : find.Written) (hi : i.Written) {c : Claim}
    (hc : claimOf? find hs i = some c) : c.Written := by
  obtain ⟨h, hh, hoffer⟩ := exists_mem_of_claimOf? hc
  exact (hhs h hh).claim hfind hi hoffer

theorem settle_written (hhs : ∀ h ∈ hs, h.Written) (hfind : find.Written) (hi : i.Written) :
    (settle find hs i).Written := by
  cases hc : claimOf? find hs i with
  | none =>
      rw [settle_of_unclaimed hc]
      exact hi
  | some c =>
      rw [settle_of_claim hc]
      exact (claimOf?_written hhs hfind hi hc).instruction

theorem importsOf_written (hhs : ∀ h ∈ hs, h.Written) (hfind : find.Written) (hi : i.Written) :
    ∀ j ∈ importsOf find hs i, j.Written := by
  rw [importsOf]
  cases hc : claimOf? find hs i with
  | none =>
      intro j hj
      cases hj
  | some c => exact (claimOf?_written hhs hfind hi hc).imports

end

/-- **One run** of handlers that refer to what can be written. -/
theorem written_settled {hs : List Handler} (hhs : ∀ h ∈ hs, h.Written) {m : Module}
    (hhost : ∀ a, m.host = some a → a.Written) (h : m.Written) : (settled hs m).Written := by
  have hfind : m.resolver.Written := h.resolver hhost
  apply Module.Written.mapInstructions
  · apply h.addImports
    intro j hj
    obtain ⟨i, hi, hj⟩ := List.mem_flatMap.mp hj
    exact importsOf_written hhs hfind (h.instructions i hi) j hj
  · intro i hi
    exact settle_written hhs hfind hi

namespace Registry

/-- The modules that completed runs of a table lead to, any number of them one after another. -/
inductive Leads (r : Registry) (m : Module) : Module → Prop
  | none : Leads r m m
  | run {m' : Module} {report : Report} (before : Leads r m m') (completed : (r.repair m').report = .ok report) :
      Leads r m (r.repair m').module

/-- **Any number of runs** leaves a module that can be written, bound to the same host. -/
theorem Leads.written {r : Registry} (hr : ∀ h ∈ r.handlers, h.Written) {m left : Module}
    (hhost : ∀ a, m.host = some a → a.Written) (h : m.Written) (hleads : r.Leads m left) :
    left.host = m.host ∧ left.Written := by
  -- The host goes with the invariant: what the next run resolves depends on it.
  induction hleads with
  | none => exact ⟨rfl, h⟩
  | @run m' report before completed ih =>
      obtain ⟨hsame, hwritten⟩ := ih
      have hmodule : (r.repair m').module = settled r.handlers m' := (repair_completed completed).1
      rw [hmodule]
      refine ⟨?_, written_settled hr (by rw [hsame]; exact hhost) hwritten⟩
      rw [host_settled, hsame]

/-- The handlers of a profile refer to what its relocations do. -/
theorem written_ofProfile {options : RepairOptions} {p : Profile}
    (hp : ∀ e ∈ p.platformShims ++ p.relocations ++ p.patchEngineShims, e.rule.Written) :
    ∀ h ∈ (ofProfile options p).handlers, h.Written := by
  intro h hh
  rw [handlers_ofProfile] at hh
  simp only [List.mem_append, List.mem_cons] at hh
  rcases hh with hh | rfl | rfl | hh
  · rcases mem_rules hh with rfl | ⟨e, he, rfl⟩
    · trivial
    · exact hp e he
  · trivial
  · trivial
  · obtain ⟨d, -, rfl⟩ := mem_detectors hh
    trivial

end Registry

end ModRepair
