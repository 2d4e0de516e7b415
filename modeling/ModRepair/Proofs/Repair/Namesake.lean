import ModRepair.Proofs.Repair.Idempotence

/-!
# The heuristic and the rule that spells it out

A profile may say of one field that it is now a property, and of which type. Where it says that the property is the
field's namesake on its own type, it says what the heuristic guesses. The two look at an instruction in different orders
and stop for different reasons, and still they come to the same, for every field that the heuristic looks at.

* `Rule.namesake`, `Rule.namesake_iff` — **the rule that spells out** what the heuristic guesses of a field;
* `Rule.heuristic_eq_bind_namesake` — the heuristic is that rule for the field at hand, if it is watched and gone;
* `heuristic_agrees_with_namesake` — what this means for a run of either.
-/

namespace ModRepair

namespace Rule

/-- The rule that says of a field that it is now the property of its name on its type. -/
def namesake (r : FieldRef) : Rule :=
  .fieldToProperty r.declaringType r.name r.declaringType r.name

section

variable {find : Resolver} {i : Instruction} {r : FieldRef} {rep : Replacement}

/-- The rule replaces a load or store of the field if the property has an accessor for it. -/
theorem namesake_iff (hoperand : i.operand = .field r) :
    (namesake r).replacement? find i = some rep ↔
      ∃ kind s, i.opcode.accessor? = some kind ∧
        find.accessorNamed? r.declaringType r.name kind i.opcode.isStaticAccess = some s ∧
        toCall (s.refOn r.declaringType)
          (simple r.declaringType r.name ++ remark (ascii "field => property")) = rep := by
  have hphrase : propertyPhrase r.declaringType r.name r.declaringType r.name =
      simple r.declaringType r.name ++ remark (ascii "field => property") := by
    rw [propertyPhrase, if_pos ⟨rfl, rfl⟩]
  rw [namesake, replacement?, fieldToProperty_iff, hphrase]
  constructor
  · rintro ⟨_, kind, s, -, -, -, hkind, -, hs, hrep⟩
    exact ⟨kind, s, hkind, hs, hrep⟩
  · rintro ⟨kind, s, hkind, hs, hrep⟩
    -- The target is the type of the field, so a receiver is one of the target.
    exact ⟨r, kind, s, hoperand, rfl, rfl, hkind, .inr rfl, hs, hrep⟩

/-- **The heuristic is this rule** for whatever field an instruction refers to, if the field is watched and gone. -/
theorem heuristic_eq_bind_namesake (scopes : List Bytes) (find : Resolver) (i : Instruction) :
    (heuristic scopes).replacement? find i =
      (i.field?.filter fun r => watched scopes r.declaringType && (find.field? r).isNone).bind
        fun r => (namesake r).replacement? find i := by
  apply Option.ext
  intro rep
  rw [replacement?, heuristic_iff, Option.bind_eq_some_iff]
  simp only [filter_field?_eq_some, Bool.and_eq_true, Option.isNone_iff_eq_none]
  constructor
  · rintro ⟨r, kind, s, hoperand, hwatched, hgone, hkind, hs, hrep⟩
    exact ⟨r, ⟨hoperand, hwatched, hgone⟩, (namesake_iff hoperand).mpr ⟨kind, s, hkind, hs, hrep⟩⟩
  · rintro ⟨r, ⟨hoperand, hwatched, hgone⟩, hrep⟩
    obtain ⟨kind, s, hkind, hs, hrep⟩ := (namesake_iff hoperand).mp hrep
    exact ⟨r, kind, s, hoperand, hwatched, hgone, hkind, hs, hrep⟩

/-- Of a watched field that is gone both say the same. -/
theorem heuristic_eq_namesake {scopes : List Bytes} (hoperand : i.operand = .field r)
    (hwatched : r.declaringType.scope ∈ scopes) (hgone : find.field? r = none) :
    (heuristic scopes).replacement? find i = (namesake r).replacement? find i := by
  have hfield : i.field?.filter (fun r => watched scopes r.declaringType && (find.field? r).isNone) = some r :=
    filter_field?_eq_some.mpr ⟨hoperand, by simp [watched, hwatched, hgone]⟩
  rw [heuristic_eq_bind_namesake, hfield, Option.bind_some]

end

end Rule

/-! ## Runs of one handler -/

section

variable {h : Handler} {m : Module} {i : Instruction} (site : Site)

/-- A single handler that declines leaves an instruction and the module as they are, and has nothing to say. -/
theorem Run.start_visit_of_declined (hdeclined : h.offer m.resolver i = .declined) :
    let after := (start [h] m).visit site i
    after.1 = i ∧ after.2.module = m ∧ after.2.report = ⟨m.name, [], [], 1, 0, 0⟩ := by
  intro after
  have hafter : after = (i, (start [h] m).note site []) := visit_of_declined_only rfl rfl hdeclined
  rw [hafter]
  exact ⟨rfl, rfl, rfl⟩

/-- A single handler that claims puts in what it claims, with the imports, and reports its phrase and category. -/
theorem Run.start_visit_of_claimed {c : Claim} (hc : h.offer m.resolver i = .claimed c) :
    let after := (start [h] m).visit site i
    after.1 = c.instruction ∧ after.2.module = m.addImports c.imports ∧
      after.2.report = ⟨m.name, [c.phrase], [c.category], 1, 1, 0⟩ := by
  intro after
  have hafter : after = (c.instruction, ((start [h] m).note site []).take 0 c) := visit_of_claimed_first rfl rfl hc
  have hcategory : Category.inOrder [c.category] = [c.category] := by cases c.category <;> rfl
  have hreport : (((start [h] m).note site []).take 0 c).report =
      ⟨(m.addImports c.imports).name, [c.phrase], Category.inOrder (Category.inOrder [c.category] ++ []), 1, 1, 0⟩ :=
    rfl
  rw [hafter]
  refine ⟨rfl, rfl, ?_⟩
  rw [hreport, Module.name_addImports, List.append_nil, hcategory, hcategory]

end

/-- **The explicit and the heuristic repair agree.** Take any module, watched scopes and instruction that refers to a
    field of a watched scope, and let the field not resolve. Then the heuristic and the rule that says of the field that
    it is now the property of its name both decline, and either leaves the instruction and the module as they are and
    has nothing to say; or both claim, and either leaves the same instruction, the same tables and the same phrase. So
    runs of the one and of the other leave the same, and report the same. -/
theorem heuristic_agrees_with_namesake (m : Module) (scopes : List Bytes) (i : Instruction) (r : FieldRef) (site : Site)
    (hoperand : i.operand = .field r) (hwatched : r.declaringType.scope ∈ scopes)
    (hgone : m.resolver.field? r = none) :
    let heuristic := Handler.rule (.heuristic scopes)
    let explicit := Handler.rule (.namesake r)
    let guessed := (Run.start [heuristic] m).visit site i
    let told := (Run.start [explicit] m).visit site i
    ((heuristic.offer m.resolver i = .declined ∧ explicit.offer m.resolver i = .declined ∧
        guessed.1 = i ∧ guessed.2.module = m ∧ guessed.2.report.phrases = []) ∨
      ∃ c, heuristic.offer m.resolver i = .claimed c ∧ explicit.offer m.resolver i = .claimed c ∧
        guessed.1 = c.instruction ∧ guessed.2.module = m.addImports c.imports ∧
        guessed.2.report.phrases = [c.phrase]) ∧
      told.1 = guessed.1 ∧ told.2.module = guessed.2.module ∧ told.2.report = guessed.2.report := by
  intro heuristic explicit guessed told
  have hoffer : explicit.offer m.resolver i = heuristic.offer m.resolver i := by
    show Offer.ofClaim? ((Rule.replacement? _ _ _).map _) = Offer.ofClaim? ((Rule.replacement? _ _ _).map _)
    rw [Rule.heuristic_eq_namesake hoperand hwatched hgone]
  rcases heuristic.declined_or_claimed rfl m.resolver i with hdeclined | ⟨c, hc⟩
  · obtain ⟨hput, hmodule, hreport⟩ := Run.start_visit_of_declined site hdeclined
    obtain ⟨hput', hmodule', hreport'⟩ := Run.start_visit_of_declined site (hoffer.trans hdeclined)
    exact ⟨.inl ⟨hdeclined, hoffer.trans hdeclined, hput, hmodule, congrArg Report.phrases hreport⟩,
      hput'.trans hput.symm, hmodule'.trans hmodule.symm, hreport'.trans hreport.symm⟩
  · obtain ⟨hput, hmodule, hreport⟩ := Run.start_visit_of_claimed site hc
    obtain ⟨hput', hmodule', hreport'⟩ := Run.start_visit_of_claimed site (hoffer.trans hc)
    exact ⟨.inr ⟨c, hc, hoffer.trans hc, hput, hmodule, congrArg Report.phrases hreport⟩,
      hput'.trans hput.symm, hmodule'.trans hmodule.symm, hreport'.trans hreport.symm⟩

/-- The type `B` has a static property `p` and no field of the name. A load of the field is repaired by both, and the
    load of its address by neither. -/
theorem heuristic_agrees_with_namesake_sample :
    let m := Sample.moduleOf []
    let r : FieldRef := ⟨Sample.typeB, ascii "p", Sample.int32⟩
    let site : Site := ⟨[], [], 0⟩
    let after := fun (rule : Rule) op => (Run.start [.rule rule] m).visit site ⟨op, .field r⟩
    let guess := Rule.heuristic [ascii "Host"]
    (after guess .ldsfld).1 = Sample.callGetP ∧ (after (.namesake r) .ldsfld).1 = Sample.callGetP ∧
      (after (.namesake r) .ldsfld).2.module = (after guess .ldsfld).2.module ∧
      (after guess .ldsfld).2.report.phrases = [ascii "B.p (field => property)"] ∧
      (after guess .ldsflda).1 = ⟨.ldsflda, .field r⟩ ∧ (after (.namesake r) .ldsflda).1 = ⟨.ldsflda, .field r⟩ := by
  intro m r site after guess
  have hwatched : r.declaringType.scope ∈ [ascii "Host"] := List.mem_singleton.mpr rfl
  have hgone : m.resolver.field? r = none := by decide
  obtain ⟨hload, hsame, hmodule, -⟩ :=
    heuristic_agrees_with_namesake m [ascii "Host"] ⟨.ldsfld, .field r⟩ r site rfl hwatched hgone
  obtain ⟨haddress, hsame', -⟩ :=
    heuristic_agrees_with_namesake m [ascii "Host"] ⟨.ldsflda, .field r⟩ r site rfl hwatched hgone
  have hclaimed : (Handler.rule guess).offer m.resolver ⟨.ldsfld, .field r⟩ =
      .claimed ⟨.repaired, ascii "B.p (field => property)", Sample.callGetP,
        [.method (Sample.getP.refOn Sample.typeB)]⟩ := by
    decide
  have hdeclined : (Handler.rule guess).offer m.resolver ⟨.ldsflda, .field r⟩ = .declined := by decide
  rcases hload with ⟨hno, -⟩ | ⟨c, hc, -, hput, -, hphrase⟩
  · rw [hclaimed] at hno
    cases hno
  rcases haddress with ⟨-, -, hkept, -⟩ | ⟨d, hd, -⟩
  · rw [hclaimed] at hc
    cases hc
    exact ⟨hput, hsame.trans hput, hmodule, hphrase, hkept, hsame'.trans hkept⟩
  · rw [hdeclined] at hd
    cases hd

end ModRepair
