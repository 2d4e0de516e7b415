import ModRepair.Proofs.Repair.Completion
import ModRepair.Proofs.Repair.Restoration
import ModRepair.Proofs.Repair.Table

/-!
# What resolves stays resolved

A run puts other references in the place of those that were there. This file says when a reference that could be
resolved still can be.

* `finds_settle` — for one instruction: rules that look things up refer to what is there, finders change nothing, and
  a rule that moves a type keeps the declaring type of a reference resolved;
* `unresolved_iff_lost` — for whole modules: a reference that resolved before a run and does not resolve after it
  has had types of its signature moved, and is `Lost`: its type is there and declares no such member.

The exception is a real one. A rule that moves a type replaces it in the signatures of members that were never
recompiled, such as those of the module itself: `not_all_preserved` is a call that is lost in this way.
-/

namespace ModRepair

/-! ## What it means to resolve -/

/-- **A lost reference.** Its type is there, but declares no member of that name and signature. -/
def Lost (find : Resolver) : Operand → Prop
  | .none => False
  | .type _ => False
  | .field r => ∃ s, find r.declaringType = some s ∧ ∀ d ∈ s.fields, ¬ (d.name = r.name ∧ d.type = r.fieldType)
  | .method r => ∃ s, find r.declaringType = some s ∧ ∀ d ∈ s.methods,
      ¬ ((d.name = r.name ∧ d.parameters = r.parameters ∧ d.isStatic ≠ r.hasThis) ∧ d.returnType = r.returnType)
  | .property r => ∃ s, find r.declaringType = some s ∧
      ∀ d ∈ s.properties, ¬ (d.name = r.name ∧ d.type = r.propertyType)

section

variable {find : Resolver} {o : Operand} {t target : TypeRef} {fullName : Bytes}

/-- What resolves has a type that resolves. -/
theorem subject_of_finds (h : find.finds o) : ∃ t, o.subject? = some t ∧ (find t).isSome := by
  cases o with
  | none => cases h
  | type r => exact ⟨r, rfl, h⟩
  | field r => exact ⟨_, rfl, Option.isSome_of_isSome_bind h⟩
  | method r => exact ⟨_, rfl, Option.isSome_of_isSome_bind h⟩
  | property r => exact ⟨_, rfl, Option.isSome_of_isSome_bind h⟩

/-- Among the members of a type that resolves, one is not found if none fits. -/
theorem member_gone_iff {α : Type} (ht : (find t).isSome) (members : Surface → List α) (fits : α → Bool) :
    ((find t).bind fun s => (members s).find? fits).isSome = false ↔
      ∃ s, find t = some s ∧ ∀ d ∈ members s, ¬ fits d = true := by
  obtain ⟨s, hs⟩ := Option.isSome_iff_exists.mp ht
  rw [hs, Option.bind_some, Option.isSome_eq_false_iff, Option.isNone_iff_eq_none, List.find?_eq_none]
  constructor
  · intro hgone
    exact ⟨s, rfl, hgone⟩
  · rintro ⟨s', hs', hgone⟩
    rwa [← Option.some.inj hs'] at hgone

/-- **A reference to something of a type that resolves does not resolve exactly if it is lost.** -/
theorem finds_eq_false_iff_lost (ho : o.subject? = some t) (ht : (find t).isSome) :
    find.finds o = false ↔ Lost find o := by
  cases o with
  | none => cases ho
  | type r =>
      cases ho
      refine iff_of_false ?_ id
      rw [Resolver.finds, ht]
      simp
  | field r =>
      -- From here on the subject is the declaring type, and the members of a kind decide.
      cases ho
      have hgone := member_gone_iff ht Surface.fields r.names
      simp only [FieldRef.names_iff] at hgone
      exact hgone
  | method r =>
      cases ho
      have hgone := member_gone_iff ht Surface.methods r.names
      simp only [MethodRef.names_iff] at hgone
      exact hgone
  | property r =>
      cases ho
      have hgone := member_gone_iff ht Surface.properties r.names
      simp only [PropertyRef.names_iff] at hgone
      exact hgone

/-- A lost reference is not found. -/
theorem Lost.finds_eq_false (h : Lost find o) : find.finds o = false := by
  have hsubject : ∃ t, o.subject? = some t ∧ (find t).isSome := by
    cases o with
    | none => cases h
    | type r => cases h
    | field r => exact ⟨_, rfl, Option.isSome_iff_exists.mpr (h.imp fun _ hs => hs.1)⟩
    | method r => exact ⟨_, rfl, Option.isSome_iff_exists.mpr (h.imp fun _ hs => hs.1)⟩
    | property r => exact ⟨_, rfl, Option.isSome_iff_exists.mpr (h.imp fun _ hs => hs.1)⟩
  obtain ⟨t, ho, ht⟩ := hsubject
  exact (finds_eq_false_iff_lost ho ht).mpr h

/-! ## Types that move -/

theorem Operand.subject?_mapTypes (f : TypeRef → TypeRef) (o : Operand) :
    (o.mapTypes f).subject? = o.subject?.map f := by
  cases o <;> rfl

/-- A type that resolves is moved to one that does, if the target does. -/
theorem isSome_moved (htarget : (find target).isSome) (ht : (find t).isSome) :
    (find (Rule.moved fullName target t)).isSome := by
  unfold Rule.moved
  split
  · exact htarget
  · exact ht

/-- Moving types keeps a reference resolved, unless it is lost. -/
theorem finds_mapTypes_moved (htarget : (find target).isSome) (ho : find.finds o) :
    find.finds (o.mapTypes (Rule.moved fullName target)) = false ↔
      Lost find (o.mapTypes (Rule.moved fullName target)) := by
  obtain ⟨t, hsubject, ht⟩ := subject_of_finds ho
  have hmoved : (o.mapTypes (Rule.moved fullName target)).subject? = some (Rule.moved fullName target t) := by
    rw [Operand.subject?_mapTypes, hsubject]
    rfl
  exact finds_eq_false_iff_lost hmoved (isSome_moved htarget ht)

end

/-! ## Whole modules -/

/-- A relocation of types moves types. -/
theorem Relocation.rule_of_typeRelocation {e : Relocation} (h : e.kind = .typeRelocation) :
    e.rule = .typeMove e.type.fullName e.newType := by
  rw [rule, h]

theorem Rule.instruction_of_typeMove {fullName : Bytes} {target : TypeRef} {find : Resolver} {i : Instruction}
    {rep : Replacement} (h : (Rule.typeMove fullName target).replacement? find i = some rep) :
    rep.instruction = ⟨i.opcode, i.operand.mapTypes (moved fullName target)⟩ := by
  obtain ⟨-, rfl⟩ := typeMove_iff.mp h
  rfl

/-- **One instruction.** With the handlers of a profile, what takes the place of an instruction that resolves does
    not resolve exactly if a relocation of types has made it a reference that is lost. -/
theorem finds_settle {options : RepairOptions} {p : Profile} {find : Resolver} {i : Instruction}
    (htargets : ∀ e ∈ p.platformShims ++ p.relocations ++ p.patchEngineShims,
      e.kind = .typeRelocation → (find e.newType).isSome)
    (hfinds : find.finds i.operand) :
    let j := settle find (Registry.ofProfile options p).handlers i
    find.finds j.operand = false ↔
      ∃ e ∈ p.platformShims ++ p.relocations ++ p.patchEngineShims, e.kind = .typeRelocation ∧
        j = ⟨i.opcode, i.operand.mapTypes (Rule.moved e.type.fullName e.newType)⟩ ∧ Lost find j.operand := by
  intro j
  constructor
  · intro hlost
    cases hclaim : claimOf? find (Registry.ofProfile options p).handlers i with
    | none =>
        have hj : j = i := settle_of_unclaimed hclaim
        rw [hj, hfinds] at hlost
        cases hlost
    | some c =>
        have hj : j = c.instruction := settle_of_claim hclaim
        obtain ⟨h, hh, hoffer⟩ := exists_mem_of_claimOf? hclaim
        -- Only a rule changes the reference, and only one that moves types may lose it.
        cases hmut : h.isMutating with
        | false =>
            rw [hj, (Handler.claim_of_not_mutating hmut hoffer).1, hfinds] at hlost
            cases hlost
        | true =>
            cases hmove : h.movesType with
            | false =>
                rw [hj, (Handler.asDeclared_of_claimed hmut hmove hoffer).finds] at hlost
                cases hlost
            | true =>
                obtain ⟨e, he, hkind, rfl⟩ := Registry.exists_relocation_of_movesType hh hmove
                obtain ⟨rep, hrep, rfl⟩ := Handler.rule_offer_eq_claimed.mp hoffer
                rw [Relocation.rule_of_typeRelocation hkind] at hrep
                have hj : j = ⟨i.opcode, i.operand.mapTypes (Rule.moved e.type.fullName e.newType)⟩ :=
                  hj.trans (Rule.instruction_of_typeMove hrep)
                refine ⟨e, he, hkind, hj, ?_⟩
                rw [hj] at hlost ⊢
                exact (finds_mapTypes_moved (htargets e he hkind) hfinds).mp hlost
  · rintro ⟨e, he, hkind, hj, hlost⟩
    exact hlost.finds_eq_false

/-- **What a run leaves unresolved.** Let the targets of all relocations of types resolve. Then at the place of an
    instruction that resolved before a run there is one after it, and it does not resolve exactly if a relocation of
    types has exchanged the types of the old one and the result is lost: the declaring type is there, with no member
    of that name and of the signature with the types exchanged. -/
theorem unresolved_iff_lost (options : RepairOptions) (p : Profile) (m : Module)
    (htargets : ∀ e ∈ p.platformShims ++ p.relocations ++ p.patchEngineShims,
      e.kind = .typeRelocation → (m.resolver e.newType).isSome)
    {q : Position} {i : Instruction} (hat : m.instructionAt? q = some i) (hfinds : m.resolver.finds i.operand) :
    let left := ((Registry.ofProfile options p).repair m).module
    ∃ j, left.instructionAt? q = some j ∧
      (left.resolver.finds j.operand = false ↔
        ∃ e ∈ p.platformShims ++ p.relocations ++ p.patchEngineShims, e.kind = .typeRelocation ∧
          j = ⟨i.opcode, i.operand.mapTypes (Rule.moved e.type.fullName e.newType)⟩ ∧
            Lost left.resolver j.operand) := by
  intro left
  have hleft : left = settled (Registry.ofProfile options p).handlers m :=
    (repair_reports (Registry.not_mayAbort_ofProfile options p) m).1
  have hresolver : left.resolver = m.resolver := by rw [hleft, resolver_settled]
  refine ⟨settle m.resolver (Registry.ofProfile options p).handlers i, ?_, ?_⟩
  · rw [hleft, instructionAt?_settled, hat]
    rfl
  · rw [hresolver]
    exact finds_settle htargets hfinds

/-- A static method that takes an `A` calls itself, and `A` has moved to `B`: after the run the call is lost. -/
theorem unresolved_iff_lost_sample :
    let p := Sample.profileOf [Sample.typeMoved] []
    let left := ((Registry.ofProfile .standard p).repair Sample.recursiveModule).module
    ∃ j, left.instructionAt? ⟨0, 0, 0⟩ = some j ∧ Lost left.resolver j.operand := by
  intro p left
  obtain ⟨j, hat, hiff⟩ := unresolved_iff_lost .standard p Sample.recursiveModule (by decide)
    (q := ⟨0, 0, 0⟩) (i := ⟨.call, .method (Sample.takesA.refOn ⟨ascii "Mod", ascii "T"⟩)⟩) rfl (by decide)
  have hlost : (left.instructionAt? ⟨0, 0, 0⟩).map (fun j => left.resolver.finds j.operand) = some false := by decide
  have hj : left.instructionAt? ⟨0, 0, 0⟩ = some j := hat
  rw [hj] at hlost
  obtain ⟨e, -, -, -, hgone⟩ := hiff.mp (Option.some.inj hlost)
  exact ⟨j, hj, hgone⟩

/-- **A valid call is lost.** The method still takes an `A`, and its caller now passes a `B`: both types resolve, and
    so did the call. -/
theorem not_all_preserved :
    let p := Sample.profileOf [Sample.typeMoved] []
    let m := Sample.recursiveModule
    let left := ((Registry.ofProfile .standard p).repair m).module
    (∀ e ∈ p.platformShims ++ p.relocations ++ p.patchEngineShims, (m.resolver e.newType).isSome) ∧
      (m.instructionAt? ⟨0, 0, 0⟩).map (fun i => m.resolver.finds i.operand) = some true ∧
      (left.instructionAt? ⟨0, 0, 0⟩).map (fun j => left.resolver.finds j.operand) = some false := by
  decide

end ModRepair
