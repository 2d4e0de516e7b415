import ModRepair.Proofs.Repair.Completion
import ModRepair.Proofs.Repair.Selection

/-!
# Types that move

A relocation of types looks over all types that an operand mentions, for one that has the old name and is not yet the
target, and goes over them again to put in the target. This file says that the two agree: what is looked over is what is
replaced, at the same places, and nothing else of the instruction changes.

* `Operand.SameShape`, `Operand.SameShape.eq` — an operand is **its shape and its types**;
* `Operand.mapTypes_eq_self_iff` — types are replaced without effect only if each is replaced by itself;
* `Stale`, `Instruction.relocated` — which types are replaced, and the instruction with the target in their place;
* `typeMove_substitutes` — **what the rule does** to an instruction, and when it claims one;
* `repair_typeMove` — what it does to a module.
-/

namespace ModRepair

/-! ## Shapes of operands -/

namespace Operand

/-- The name of the member that an operand refers to, if it refers to one. -/
def memberName? : Operand → Option Bytes
  | .none | .type _ => Option.none
  | .field r => some r.name
  | .method r => some r.name
  | .property r => some r.name

/-- How many parameters there are, if an operand refers to a method. -/
def parameterCount? : Operand → Option Nat
  | .method r => some r.parameters.length
  | _ => Option.none

/-- Whether there is a receiver, if an operand refers to a method. -/
def hasThis? : Operand → Option Bool
  | .method r => some r.hasThis
  | _ => Option.none

/-- Operands that differ in nothing but the types they mention. -/
structure SameShape (o o' : Operand) : Prop where
  kind : o'.kind = o.kind
  memberName : o'.memberName? = o.memberName?
  parameterCount : o'.parameterCount? = o.parameterCount?
  hasThis : o'.hasThis? = o.hasThis?

theorem sameShape_mapTypes (f : TypeRef → TypeRef) (o : Operand) : o.SameShape (o.mapTypes f) where
  kind := kind_mapTypes f o
  memberName := by cases o <;> rfl
  parameterCount := by cases o <;> simp [mapTypes, parameterCount?]
  hasThis := by cases o <;> rfl

/-- **An operand is its shape and its types.** -/
theorem SameShape.eq {o o' : Operand} (h : o.SameShape o') (htypes : o'.types = o.types) : o' = o := by
  obtain ⟨hkind, hname, -, hthis⟩ := h
  cases o with
  | none =>
      cases o' with
      | none => rfl
      | _ => cases hkind
  | type r =>
      cases o' with
      | type r' => exact congrArg Operand.type (List.singleton_inj.mp htypes)
      | _ => cases hkind
  | field r =>
      cases o' with
      | field r' =>
          obtain ⟨type, name, fieldType⟩ := r
          obtain ⟨type', name', fieldType'⟩ := r'
          simp_all [types, memberName?]
      | _ => cases hkind
  | method r =>
      cases o' with
      | method r' =>
          obtain ⟨type, name, returnType, parameters, hasThis⟩ := r
          obtain ⟨type', name', returnType', parameters', hasThis'⟩ := r'
          simp_all [types, memberName?, hasThis?]
      | _ => cases hkind
  | property r =>
      cases o' with
      | property r' =>
          obtain ⟨type, name, propertyType⟩ := r
          obtain ⟨type', name', propertyType'⟩ := r'
          simp_all [types, memberName?]
      | _ => cases hkind

/-- Types are replaced without effect only if each is replaced by itself. -/
theorem mapTypes_eq_self_iff {f : TypeRef → TypeRef} {o : Operand} : o.mapTypes f = o ↔ ∀ t ∈ o.types, f t = t := by
  constructor
  · intro h
    have htypes : o.types.map f = o.types.map id := by rw [← types_mapTypes, h, List.map_id]
    exact List.map_inj_left.mp htypes
  · intro h
    have htypes : o.types.map f = o.types.map id := List.map_inj_left.mpr h
    refine (sameShape_mapTypes f o).eq ?_
    rw [types_mapTypes, htypes, List.map_id]

end Operand

/-! ## Stale types -/

/-- A type that has moved: it has the old name, and it is not the target. -/
def Stale (fullName : Bytes) (target t : TypeRef) : Prop :=
  t.fullName = fullName ∧ t ≠ target

instance (fullName : Bytes) (target : TypeRef) : DecidablePred (Stale fullName target) :=
  fun _ => inferInstanceAs (Decidable (_ ∧ _))

section

variable {fullName : Bytes} {target t : TypeRef}

theorem isStale_eq_true_iff : Rule.isStale fullName target t = true ↔ Stale fullName target t := by
  simp [Rule.isStale, Stale]

theorem moved_eq : Rule.moved fullName target t = if Stale fullName target t then target else t := by
  simp only [Rule.moved, isStale_eq_true_iff]

/-- A type is replaced by itself only if it is not stale. -/
theorem moved_eq_self_iff : Rule.moved fullName target t = t ↔ ¬ Stale fullName target t := by
  rw [moved_eq]
  by_cases hstale : Stale fullName target t
  · rw [if_pos hstale]
    exact iff_of_false (Ne.symm hstale.2) (not_not_intro hstale)
  · rw [if_neg hstale]
    exact iff_of_true rfl hstale

/-- What has taken the place of a type is not stale. -/
theorem not_stale_moved (fullName : Bytes) (target t : TypeRef) :
    ¬ Stale fullName target (Rule.moved fullName target t) := by
  rw [moved_eq]
  by_cases hstale : Stale fullName target t
  · rw [if_pos hstale]
    exact fun h => h.2 rfl
  · rwa [if_neg hstale]

end

/-! ## One instruction -/

/-- The instruction with the target in the place of every stale type. -/
def Instruction.relocated (fullName : Bytes) (target : TypeRef) (i : Instruction) : Instruction :=
  ⟨i.opcode, i.operand.mapTypes (Rule.moved fullName target)⟩

section

variable {fullName : Bytes} {target : TypeRef} {i : Instruction}

/-- An instruction is relocated without effect if it mentions no stale type. -/
theorem relocated_eq_self (h : ∀ t ∈ i.operand.types, ¬ Stale fullName target t) : i.relocated fullName target = i := by
  have hoperand : i.operand.mapTypes (Rule.moved fullName target) = i.operand :=
    Operand.mapTypes_eq_self_iff.mpr fun t ht => moved_eq_self_iff.mpr (h t ht)
  rw [Instruction.relocated, hoperand]

/-- The rule claims what mentions a stale type. -/
theorem typeMove_claims_iff (find : Resolver) :
    (∃ c, (Handler.rule (.typeMove fullName target)).offer find i = .claimed c) ↔
      ∃ t ∈ i.operand.types, Stale fullName target t := by
  have hany : i.operand.types.any (Rule.isStale fullName target) = true ↔
      ∃ t ∈ i.operand.types, Stale fullName target t := by
    simp only [List.any_eq_true, isStale_eq_true_iff]
  rw [← hany]
  constructor
  · rintro ⟨c, hc⟩
    obtain ⟨rep, hrep, -⟩ := Handler.rule_offer_eq_claimed.mp hc
    exact (Rule.typeMove_iff.mp hrep).1
  · intro hstale
    exact ⟨_, Handler.rule_offer_eq_claimed.mpr ⟨_, Rule.typeMove_iff.mpr ⟨hstale, rfl⟩, rfl⟩⟩

/-- **The rule relocates every instruction**, those that it declines without effect. -/
theorem settle_typeMove (find : Resolver) :
    settle find [.rule (.typeMove fullName target)] i = i.relocated fullName target := by
  cases hclaim : claimOf? find [.rule (.typeMove fullName target)] i with
  | none =>
      rw [settle_of_unclaimed hclaim]
      refine (relocated_eq_self fun t ht hstale => ?_).symm
      obtain ⟨c, hc⟩ := (typeMove_claims_iff find).mpr ⟨t, ht, hstale⟩
      rw [claimOf?_singleton.mpr hc] at hclaim
      cases hclaim
  | some c =>
      obtain ⟨rep, hrep, rfl⟩ := Handler.rule_offer_eq_claimed.mp (claimOf?_singleton.mp hclaim)
      rw [settle_of_claim hclaim]
      obtain ⟨-, rfl⟩ := Rule.typeMove_iff.mp hrep
      rfl

end

/-- **Types are substituted, and nothing else.** Offered any instruction over any module, the rule claims it exactly if
    its operand mentions a stale type. What stands in its place then, or if the rule declines, has the same opcode; its
    operand is of the same kind, with the same name of a member, as many parameters and a receiver exactly if there was
    one; and it mentions the same types at the same places, but for the target in the place of each stale one. So the
    rule claims exactly what it changes, and it leaves no type of the old name but the target. -/
theorem typeMove_substitutes (fullName : Bytes) (target : TypeRef) (m : Module) (site : Site) (i : Instruction) :
    let mover := Handler.rule (.typeMove fullName target)
    let j := ((Run.start [mover] m).visit site i).1
    ((∃ c, mover.offer m.resolver i = .claimed c) ↔ ∃ t ∈ i.operand.types, Stale fullName target t) ∧
      j.opcode = i.opcode ∧ i.operand.SameShape j.operand ∧
      j.operand.types = i.operand.types.map (fun t => if Stale fullName target t then target else t) ∧
      ((∃ c, mover.offer m.resolver i = .claimed c) ↔ j.operand ≠ i.operand) ∧
      ∀ t ∈ j.operand.types, t.fullName = fullName → t = target := by
  intro mover j
  have hj : j = i.relocated fullName target := by
    rw [← settle_typeMove m.resolver]
    exact (Run.visit_settled Run.start_settled fun reason => hear_ne_aborted Handler.not_mayAbort_of_mem_rule reason).1
  have htypes : j.operand.types = i.operand.types.map (Rule.moved fullName target) := by
    rw [hj]
    exact Operand.types_mapTypes _ _
  have hclaims : (∃ c, mover.offer m.resolver i = .claimed c) ↔ ∃ t ∈ i.operand.types, Stale fullName target t :=
    typeMove_claims_iff m.resolver
  refine ⟨hclaims, by rw [hj]; rfl, by rw [hj]; exact Operand.sameShape_mapTypes _ _, ?_, ?_, ?_⟩
  · rw [htypes]
    exact List.map_congr_left fun t _ => moved_eq
  · have hkept : j.operand = i.operand ↔ ∀ t ∈ i.operand.types, Rule.moved fullName target t = t := by
      rw [hj]
      exact Operand.mapTypes_eq_self_iff
    rw [hclaims, Ne, hkept]
    simp only [moved_eq_self_iff, not_forall, not_not, exists_prop]
  · intro t ht hname
    rw [htypes] at ht
    obtain ⟨s, -, rfl⟩ := List.mem_map.mp ht
    exact not_not.mp fun hne => not_stale_moved fullName target s ⟨hname, hne⟩

/-- A type `Batch` has moved to the host and has kept its name. A method that mentions the old one twice and the new one
    between them is claimed, and then mentions the new one three times. -/
theorem typeMove_substitutes_sample :
    let old : TypeRef := ⟨ascii "Lib", ascii "Batch"⟩
    let target : TypeRef := ⟨ascii "Host", ascii "Batch"⟩
    let void : TypeRef := ⟨ascii "Runtime", ascii "Void"⟩
    let m : Module := ⟨ascii "Mod", none, [], .empty⟩
    let i : Instruction := ⟨.callvirt, .method ⟨old, ascii "Join", void, [target, old], true⟩⟩
    let mover := Handler.rule (.typeMove (ascii "Batch") target)
    let j := ((Run.start [mover] m).visit ⟨[], [], 0⟩ i).1
    (∃ c, mover.offer m.resolver i = .claimed c) ∧ j.opcode = .callvirt ∧ j.operand ≠ i.operand ∧
      j.operand.types = [target, void, target, target] ∧
      ∀ t ∈ j.operand.types, t.fullName = ascii "Batch" → t = target := by
  intro old target void m i mover j
  obtain ⟨hclaims, hopcode, -, htypes, hchanged, hnone⟩ :=
    typeMove_substitutes (ascii "Batch") target m ⟨[], [], 0⟩ i
  have hclaimed : ∃ c, mover.offer m.resolver i = .claimed c :=
    hclaims.mpr ⟨old, List.mem_cons_self, by decide⟩
  exact ⟨hclaimed, hopcode, hchanged.mp hclaimed, htypes.trans (by decide), hnone⟩

/-! ## A module -/

/-- **Everywhere.** A run of the rule alone relocates every instruction of a module, and counts those that mention a
    stale type. -/
theorem repair_typeMove (fullName : Bytes) (target : TypeRef) (m : Module) :
    let o := repair [.rule (.typeMove fullName target)] m
    o.module.instructions = m.instructions.map (·.relocated fullName target) ∧
      ∃ report, o.report = .ok report ∧
        report.claimed = m.instructions.countP fun i => decide (∃ t ∈ i.operand.types, Stale fullName target t) := by
  intro o
  obtain ⟨hmodule, hreport⟩ := repair_reports Handler.not_mayAbort_of_mem_rule m
  refine ⟨?_, _, hreport, ?_⟩
  · rw [hmodule, instructions_settled]
    exact List.map_congr_left fun i _ => settle_typeMove m.resolver
  · refine List.countP_congr fun i _ => ?_
    rw [decide_eq_true_iff, ← typeMove_claims_iff m.resolver, Option.isSome_iff_exists]
    simp only [claimOf?_singleton]

end ModRepair
