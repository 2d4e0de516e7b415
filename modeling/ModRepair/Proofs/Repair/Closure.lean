import ModRepair.Proofs.Metadata.Closure
import ModRepair.Proofs.Repair.Independence

/-!
# Runs keep the tables closed

Whatever a rule puts in the place of an operand, its imports account for it: `Accounts` says of tables that they reach
the types that are new and record the operand if it has changed. One visit brings this about for the instruction that
is visited, and later visits leave it so. It does not matter here whether the run is given up on the way.

* `Handler.covers_of_claim` — **the step lemma**: the imports of a claim cover what it puts in;
* `Run.accounts_visit`, `accounts_at` — one visit, and the end of a run;
* `imports_closed` — **closed tables stay closed**, every changed operand is recorded, and nothing is entered twice.
-/

namespace ModRepair

/-! ## Claims -/

/-- Imports cover an operand in the place of another: they mention the types that are new, and enter the operand if it
    has changed. There is nothing to enter for a property. -/
structure Covers (is : List Import) (o o' : Operand) : Prop where
  mentioned : ∀ t ∈ o'.types, t ∈ o.types ∨ ∃ i ∈ is, t ∈ i.operand.types
  entered : o' ≠ o → o'.kind = .property ∨ ∃ i ∈ is, i.operand = o'

theorem Covers.refl (is : List Import) (o : Operand) : Covers is o o :=
  ⟨fun _ ht => .inl ht, fun h => absurd rfl h⟩

/-- An import of the operand itself covers it. -/
theorem covers_of_mem {is : List Import} {i : Import} (hi : i ∈ is) (o : Operand) : Covers is o i.operand :=
  ⟨fun _ ht => .inr ⟨i, hi, ht⟩, fun _ => .inr ⟨i, hi, rfl⟩⟩

section

variable {find : Resolver} {i : Instruction} {rep : Replacement}

/-- Answers import what they refer to. -/
theorem Rule.Answer.covers {t : TypeRef} (h : Rule.Answer find i t rep) :
    Covers rep.imports i.operand rep.instruction.operand := by
  cases h with
  | call => exact covers_of_mem (List.mem_singleton.mpr rfl) _
  | method => exact covers_of_mem (List.mem_singleton.mpr rfl) _
  | field => exact covers_of_mem (List.mem_singleton.mpr rfl) _

/-- **Moving types** imports the target, and the new operand if there is a table for it. -/
theorem Rule.covers_typeMove {fullName : Bytes} {target : TypeRef}
    (h : Rule.typeMoveReplacement fullName target i = some rep) :
    Covers rep.imports i.operand rep.instruction.operand := by
  obtain ⟨hstale, rfl⟩ := typeMove_iff.mp h
  constructor
  · intro t ht
    rw [Operand.types_mapTypes] at ht
    obtain ⟨t', ht', rfl⟩ := List.mem_map.mp ht
    unfold moved
    split
    · exact .inr ⟨.type target, List.mem_cons_self .., List.mem_singleton.mpr rfl⟩
    · exact .inl ht'
  · intro hchanged
    -- What is entered besides the target depends on the kind of the operand.
    cases ho : i.operand with
    | none =>
        rw [ho] at hchanged
        exact absurd rfl hchanged
    | type r =>
        rw [ho] at hstale
        have hr : isStale fullName target r = true := by simpa [Operand.types] using hstale
        refine .inr ⟨.type target, List.mem_cons_self .., ?_⟩
        simp [Import.operand, Operand.mapTypes, moved, hr]
    | field r => exact .inr ⟨_, List.mem_cons_of_mem _ (List.mem_singleton.mpr rfl), rfl⟩
    | method r => exact .inr ⟨_, List.mem_cons_of_mem _ (List.mem_singleton.mpr rfl), rfl⟩
    | property r => exact .inl rfl

/-- **The step lemma.** The imports of a claim cover what it puts in the place of an operand. -/
theorem Handler.covers_of_claim {h : Handler} {c : Claim} (hc : h.offer find i = .claimed c) :
    Covers c.imports i.operand c.instruction.operand := by
  cases hm : h.isMutating with
  | false =>
      rw [(Handler.claim_of_not_mutating hm hc).1]
      exact .refl _ _
  | true =>
      cases h with
      | rule rule =>
          obtain ⟨rep, hrep, rfl⟩ := Handler.rule_offer_eq_claimed.mp hc
          cases hmove : rule.isTypeMove with
          | false =>
              obtain ⟨t, -, hanswer⟩ := Rule.answer_of_replacement hmove hrep
              exact hanswer.covers
          | true =>
              cases rule with
              | typeMove fullName target => exact Rule.covers_typeMove hrep
              | _ => cases hmove
      | finder f => cases hm
      | observer o => cases hm

end

/-! ## Visits -/

/-- The tables of a module account for an operand in the place of another: they reach the types that are new, and
    record the operand if it has changed. -/
structure Module.Accounts (m : Module) (o o' : Operand) : Prop where
  reached : ∀ t ∈ o'.types, t ∈ o.types ∨ m.imports.Reaches m.name t
  recorded : o' ≠ o → m.imports.Records m.name o'

theorem Module.Accounts.refl (m : Module) (o : Operand) : m.Accounts o o :=
  ⟨fun _ ht => .inl ht, fun h => absurd rfl h⟩

/-- Imports that cover an operand let the tables account for it. -/
theorem Covers.accounts {is : List Import} {o o' : Operand} (h : Covers is o o') (m : Module) :
    (m.addImports is).Accounts o o' := by
  constructor
  · intro t ht
    rcases h.mentioned t ht with ht | ⟨i, hi, ht⟩
    · exact .inl ht
    · rw [Module.name_addImports]
      exact .inr (m.reaches_addImports hi t ht)
  · intro hchanged
    rw [Module.name_addImports]
    rcases h.entered hchanged with hkind | ⟨i, hi, rfl⟩
    · cases o' with
      | property ref => trivial
      | _ => cases hkind
    · exact m.records_addImports hi

/-- Imports keep what the tables account for. -/
theorem Module.Accounts.addImports {m : Module} {o o' : Operand} (h : m.Accounts o o') (is : List Import) :
    (m.addImports is).Accounts o o' := by
  constructor
  · intro t ht
    rw [Module.name_addImports]
    exact (h.reached t ht).imp id (m.extends_addImports is).reaches
  · intro hchanged
    rw [Module.name_addImports]
    exact (m.extends_addImports is).records (h.recorded hchanged)

namespace Run

variable (site : Site) (i : Instruction) (run : Run)

theorem accounts_visit : (visit site i run).2.module.Accounts i.operand (visit site i run).1.operand := by
  rcases visit_cases site i run with ⟨hi, hmodule⟩ | ⟨t, -, c, hoffer, hi, hmodule⟩
  · rw [hi]
    exact .refl _ _
  · rw [hi, hmodule]
    exact (Handler.covers_of_claim hoffer).accounts run.module

/-- What imports keep, a visit keeps. -/
theorem visit_keeps {P : Module → Prop} (himports : ∀ m is, P m → P (m.addImports is)) (h : P run.module) :
    P (visit site i run).2.module := by
  rcases visit_cases site i run with ⟨-, hmodule⟩ | ⟨-, -, c, -, -, hmodule⟩
  · rw [hmodule]
    exact h
  · rw [hmodule]
    exact himports _ _ h

end Run

/-! ## Whole runs -/

section

variable {hs : List Handler} {m : Module}

/-- What imports keep, a run keeps. -/
theorem final_keeps {P : Module → Prop} (himports : ∀ m is, P m → P (m.addImports is)) (h : P m) :
    P (Run.final hs m).module :=
  (Traversal.types_aligned Run.visit (fun _ _ => True) (fun _ run => P run.module)
    (fun i _ site _ run hrun => ⟨trivial, Run.visit_keeps site i run himports hrun⟩) h).2

/-- **At the end of a run** the tables account for what is left at each place. -/
theorem accounts_at {p : Position} {i j : Instruction} (hi : m.instructionAt? p = some i)
    (hj : (repair hs m).module.instructionAt? p = some j) :
    (Run.final hs m).module.Accounts i.operand j.operand := by
  rw [← Traversal.arrival?_instruction Run.visit m (.start hs m), Option.map_eq_some_iff] at hi
  obtain ⟨a, ha, rfl⟩ := hi
  rw [instructionAt?_repair, ha] at hj
  cases hj
  have hvisit := Run.accounts_visit a.site a.instruction a.state
  generalize (Run.visit a.site a.instruction a.state).1.operand = o at hvisit ⊢
  exact Traversal.holds_at_end (P := fun run => run.module.Accounts a.instruction.operand o)
    (fun site i run => Run.visit_keeps (P := fun m => m.Accounts a.instruction.operand o) site i run
      fun _ is h => h.addImports is) ha hvisit

/-- A run leaves an instruction wherever there was one, and nowhere else. -/
theorem exists_instructionAt?_repair {p : Position} {j : Instruction}
    (hj : (repair hs m).module.instructionAt? p = some j) : ∃ i, m.instructionAt? p = some i := by
  rw [instructionAt?_repair] at hj
  obtain ⟨a, ha, -⟩ := Option.map_eq_some_iff.mp hj
  refine ⟨a.instruction, ?_⟩
  rw [← Traversal.arrival?_instruction Run.visit m (.start hs m), ha]
  rfl

end

/-- **Closed tables stay closed.** Take any table of handlers and any module, and let the run be given up or not. If
    every type that an operand mentions has an empty scope, the module's own, or one that is noted among the assemblies,
    then this is so after the run. Every operand that the run has changed is recorded: a field or method with its
    declaring type, a type as such, unless the type is in the module's own scope. And if the tables held nothing twice,
    they hold nothing twice after the run. -/
theorem imports_closed (r : Registry) (m : Module) :
    let left := (r.repair m).module
    left.name = m.name ∧ (m.Closed → left.Closed) ∧
      (∀ p i j, m.instructionAt? p = some i → left.instructionAt? p = some j → j.operand ≠ i.operand →
        left.imports.Records left.name j.operand) ∧
      (m.imports.Nodup → left.imports.Nodup) := by
  intro left
  have hname : left.name = (Run.final r.handlers m).module.name := (repair_final r.handlers m).1
  have himports : left.imports = (Run.final r.handlers m).module.imports := (repair_final r.handlers m).2.1
  refine ⟨?_, fun hclosed j hj t ht => ?_, fun p i j hi hj hchanged => ?_, fun hnodup => ?_⟩
  · rw [hname]
    exact final_keeps (P := fun m' => m'.name = m.name) (fun m' is h => (m'.name_addImports is).trans h) rfl
  · obtain ⟨p, hp⟩ := Module.mem_instructions_iff.mp hj
    obtain ⟨i, hi⟩ := exists_instructionAt?_repair hp
    rw [hname, himports]
    rcases (accounts_at hi hp).reached t ht with ht | ht
    · have hreached := hclosed i (Module.mem_instructions_iff.mpr ⟨p, hi⟩) t ht
      -- The type was mentioned before, and the tables have only grown.
      exact final_keeps (P := fun m => m.imports.Reaches m.name t)
        (fun m is h => by rw [Module.name_addImports]; exact (m.extends_addImports is).reaches h) hreached
    · exact ht
  · rw [hname, himports]
    exact (accounts_at hi hj).recorded hchanged
  · rw [himports]
    exact final_keeps (P := fun m => m.imports.Nodup) (fun _ is h => Module.nodup_addImports h is) hnodup

/-- A load that becomes a call, and a token whose type moves to another assembly, in a module with the assemblies that
    they mention: the getter and the declaring type of the call are entered, and so is the type in the token. -/
theorem imports_closed_sample :
    let target : TypeRef := ⟨ascii "Other", ascii "B"⟩
    let moved : Relocation := ⟨.typeRelocation, ⟨ascii "Host", ascii "C"⟩, [], target, [], none⟩
    let r := Registry.ofProfile .standard (Sample.profileOf [Sample.fieldMoved, moved] [])
    let m := { Sample.moduleOf [Sample.loadF, ⟨.ldtoken, .type ⟨ascii "Host", ascii "C"⟩⟩] with
      imports := ⟨[ascii "Host", ascii "Runtime"], [], [], []⟩ }
    let left := (r.repair m).module
    left.instructions = [Sample.callGetP, ⟨.ldtoken, .type target⟩] ∧
      left.imports = ⟨[ascii "Host", ascii "Runtime", ascii "Other"], [Sample.typeB, target], [],
        [Sample.getP.refOn Sample.typeB]⟩ ∧
        left.Closed ∧ left.imports.Nodup := by
  intro target moved r m left
  obtain ⟨-, hclosed, -, hnodup⟩ := imports_closed r m
  refine ⟨by decide, by decide, hclosed ?_, hnodup ?_⟩
  · unfold Module.Closed ImportTables.Reaches
    decide
  · exact ⟨by decide, by decide, by decide, by decide⟩

end ModRepair
