import ModRepair.Proofs.Repair.Hearing
import ModRepair.Proofs.Repair.Presence
import ModRepair.Proofs.Repair.Selection

/-!
# Repaired references

Every rule but the one for types that have moved looks up the declaration it refers to. `Rule.Answer` says what such
a rule can answer at all, and the rest of this file what follows from that.

* `answer_of_replacement` — **the inversion lemma**: an answer is made from a declaration of the type that the rule
  refers to, with an opcode that takes a reference of the kind;
* `AsDeclared` — the reference in an answer names a declaration that is there;
* `Resolver.method?_refOn`, `Resolver.field?_refOn` — what is chosen among overloads is what resolves;
* `AsDeclared.finds` — a reference as declared resolves;
* `AsDeclared.not_flagged` — the finders that check references have nothing to say about it.
-/

namespace ModRepair

/-! ## Answers of rules -/

namespace Rule

/-- Whether a rule replaces types wherever they are mentioned, without looking anything up. -/
def isTypeMove : Rule → Bool
  | .typeMove _ _ => true
  | _ => false

/-- The type whose members a rule refers to, if it is always the same or that of the instruction's operand. -/
def home? (rule : Rule) (i : Instruction) : Option TypeRef :=
  match rule with
  | .fieldToProperty _ _ target _ => some target
  | .fieldRename type _ _ => some type
  | .propertyToField type _ _ => some type
  | .typeMove _ _ => none
  | .methodParent _ target => some target
  | .methodToStatic _ _ _ target _ => some target
  | .heuristic _ => i.operand.subject?

/-- **What a rule that looks things up can answer**, with members of the type `t`. -/
inductive Answer (find : Resolver) (i : Instruction) (t : TypeRef) : Replacement → Prop
  /-- A call of a method. -/
  | call {surface : Surface} {s : Signature} {phrase : Bytes} (type : find t = some surface)
      (declared : s ∈ surface.methods) : Answer find i t (toCall (s.refOn t) phrase)
  /-- The same use of another method. -/
  | method {surface : Surface} {s : Signature} {phrase : Bytes} (kind : i.operand.kind = .method)
      (type : find t = some surface) (declared : s ∈ surface.methods) :
      Answer find i t ⟨⟨i.opcode, .method (s.refOn t)⟩, [.method (s.refOn t)], phrase⟩
  /-- An access to the first field of its name: of the same kind as before, or with an opcode for fields. -/
  | field {surface : Surface} {d : FieldDecl} {op : Opcode} {phrase : Bytes}
      (kind : op = i.opcode ∧ i.operand.kind = .field ∨ op.accepts .field) (type : find t = some surface)
      (declared : surface.fieldNamed? d.name = some d) (storage : d.isLiteral = false) :
      Answer find i t (toField op (d.refOn t) phrase)

section

variable {find : Resolver} {i : Instruction} {rep : Replacement}

theorem fieldNamed?_name {s : Surface} {name : Bytes} {d : FieldDecl} (h : s.fieldNamed? name = some d) :
    d.name = name := by
  simpa using List.find?_some h

/-- The first field of a name is the first of its own name. -/
theorem fieldNamed?_self {s : Surface} {name : Bytes} {d : FieldDecl} (h : s.fieldNamed? name = some d) :
    s.fieldNamed? d.name = some d := by
  rw [fieldNamed?_name h, h]

/-- An accessor that is found makes an answer. -/
theorem Answer.of_accessorNamed? {t : TypeRef} {property phrase : Bytes} {kind : Accessor} {isStatic : Bool}
    {s : Signature} (h : find.accessorNamed? t property kind isStatic = some s) :
    Answer find i t (toCall (s.refOn t) phrase) := by
  obtain ⟨surface, p, hsurface, -, hs, -⟩ := accessorNamed?_spec h
  exact .call hsurface hs

theorem answer_fieldToProperty {source target : TypeRef} {field property : Bytes}
    (h : fieldToPropertyReplacement source field target property find i = some rep) : Answer find i target rep := by
  obtain ⟨r, kind, s, -, -, -, -, -, hs, rfl⟩ := fieldToProperty_iff.mp h
  exact .of_accessorNamed? hs

theorem answer_fieldRename {type : TypeRef} {old new : Bytes}
    (h : fieldRenameReplacement type old new find i = some rep) : Answer find i type rep := by
  obtain ⟨r, d, hoperand, -, -, hd, hstorage, -, rfl⟩ := fieldRename_iff.mp h
  obtain ⟨surface, hsurface, hd⟩ := fieldNamed?_eq_some.mp hd
  have hkind : i.operand.kind = .field := by rw [hoperand]; rfl
  exact .field (.inl ⟨rfl, hkind⟩) hsurface (fieldNamed?_self hd) hstorage

theorem answer_propertyToField {type : TypeRef} {property field : Bytes}
    (h : propertyToFieldReplacement type property field find i = some rep) : Answer find i type rep := by
  obtain ⟨r, kind, d, -, -, -, -, hd, hstorage, -, rfl⟩ := propertyToField_iff.mp h
  obtain ⟨surface, hsurface, hd⟩ := fieldNamed?_eq_some.mp hd
  have hop : (accessOpcode kind d.isStatic).accepts .field := by
    cases kind <;> cases d.isStatic <;> rfl
  exact .field (.inr hop) hsurface (fieldNamed?_self hd) hstorage

theorem answer_methodParent {source target : TypeRef}
    (h : methodParentReplacement source target find i = some rep) : Answer find i target rep := by
  obtain ⟨r, surface, s, hoperand, hsurface, hs, -, hrep⟩ := methodParent_spec h
  have hkind : i.operand.kind = .method := by rw [hoperand]; rfl
  rw [hrep]
  exact .method hkind hsurface hs

theorem answer_methodToStatic {source target : TypeRef} {method shim : Bytes} {arity : Option Nat}
    (h : methodToStaticReplacement source method arity target shim find i = some rep) : Answer find i target rep := by
  obtain ⟨r, surface, s, -, -, -, hsurface, hs, -, -, -, rfl⟩ := methodToStatic_spec h
  exact .call hsurface hs

theorem answer_heuristic {scopes : List Bytes} (h : heuristicReplacement scopes find i = some rep) :
    ∃ t, i.operand.subject? = some t ∧ Answer find i t rep := by
  obtain ⟨r, kind, s, hoperand, -, -, -, hs, rfl⟩ := heuristic_iff.mp h
  refine ⟨r.declaringType, ?_, .of_accessorNamed? hs⟩
  rw [hoperand]
  rfl

/-- **A rule that looks things up** answers with a member of the type it refers to. -/
theorem answer_of_replacement {rule : Rule} (hrule : rule.isTypeMove = false)
    (h : rule.replacement? find i = some rep) : ∃ t, rule.home? i = some t ∧ Answer find i t rep := by
  cases rule with
  | fieldToProperty source field target property => exact ⟨target, rfl, answer_fieldToProperty h⟩
  | fieldRename type old new => exact ⟨type, rfl, answer_fieldRename h⟩
  | propertyToField type property field => exact ⟨type, rfl, answer_propertyToField h⟩
  | typeMove fullName target => cases hrule
  | methodParent source target => exact ⟨target, rfl, answer_methodParent h⟩
  | methodToStatic source method arity target shim => exact ⟨target, rfl, answer_methodToStatic h⟩
  | heuristic scopes => exact answer_heuristic h

end

end Rule

/-- A reference made from a declaration that is there: a method of the type, or a field that is the first of its
    name and has storage. -/
inductive AsDeclared (find : Resolver) : Operand → Prop
  | method {t : TypeRef} {surface : Surface} {s : Signature} (type : find t = some surface)
      (declared : s ∈ surface.methods) : AsDeclared find (.method (s.refOn t))
  | field {t : TypeRef} {surface : Surface} {d : FieldDecl} (type : find t = some surface)
      (declared : surface.fieldNamed? d.name = some d) (storage : d.isLiteral = false) :
      AsDeclared find (.field (d.refOn t))

/-- Answers refer to what is there. -/
theorem Rule.Answer.asDeclared {find : Resolver} {i : Instruction} {t : TypeRef} {rep : Replacement}
    (h : Answer find i t rep) : AsDeclared find rep.instruction.operand := by
  cases h with
  | call type declared => exact .method type declared
  | method kind type declared => exact .method type declared
  | field kind type declared storage => exact .field type declared storage

/-! ## Opcodes and operands

An answer puts in an opcode and an operand that fit each other, if those before did. -/

/-- Answers are well formed. -/
theorem Rule.Answer.wellFormed {find : Resolver} {i : Instruction} {t : TypeRef} {rep : Replacement}
    (h : Answer find i t rep) (hi : i.isWellFormed = true) : rep.instruction.isWellFormed = true := by
  cases h with
  | call type declared => rfl
  | method kind type declared =>
      show i.opcode.accepts .method = true
      rw [← kind]
      exact hi
  | @field surface d op phrase kind type declared storage =>
      show op.accepts .field = true
      rcases kind with ⟨rfl, hkind⟩ | hop
      · rw [← hkind]
        exact hi
      · exact hop

/-- Moving types keeps the opcode and the kind of the operand. -/
theorem Rule.typeMove_wellFormed {fullName : Bytes} {target : TypeRef} {i : Instruction} {rep : Replacement}
    (h : typeMoveReplacement fullName target i = some rep) (hi : i.isWellFormed = true) :
    rep.instruction.isWellFormed = true := by
  obtain ⟨-, rfl⟩ := typeMove_iff.mp h
  show i.opcode.accepts (i.operand.mapTypes (moved fullName target)).kind = true
  rw [Operand.kind_mapTypes]
  exact hi

/-- **What is claimed stays well formed**, whichever handler claims it. -/
theorem Handler.wellFormed_of_claimed {h : Handler} {find : Resolver} {i : Instruction} {c : Claim}
    (hc : h.offer find i = .claimed c) (hi : i.isWellFormed = true) : c.instruction.isWellFormed = true := by
  cases hmut : h.isMutating with
  | false =>
      rw [(Handler.claim_of_not_mutating hmut hc).1]
      exact hi
  | true =>
      cases h with
      | finder f => cases hmut
      | observer o => cases hmut
      | rule rule =>
          obtain ⟨rep, hrep, rfl⟩ := rule_offer_eq_claimed.mp hc
          cases hmove : rule.isTypeMove with
          | false =>
              obtain ⟨t, -, hanswer⟩ := Rule.answer_of_replacement hmove hrep
              exact hanswer.wellFormed hi
          | true =>
              cases rule with
              | typeMove fullName target => exact Rule.typeMove_wellFormed hrep hi
              | _ => cases hmove

namespace Handler

/-- Whether a handler is a rule for a type that has moved. -/
def movesType : Handler → Bool
  | .rule r => r.isTypeMove
  | _ => false

/-- A rule that moves no type leaves a reference as declared. -/
theorem asDeclared_of_claimed {h : Handler} (hh : h.isMutating) (hmove : h.movesType = false) {find : Resolver}
    {i : Instruction} {c : Claim} (hc : h.offer find i = .claimed c) : AsDeclared find c.instruction.operand := by
  cases h with
  | rule r =>
      obtain ⟨rep, hrep, rfl⟩ := rule_offer_eq_claimed.mp hc
      obtain ⟨t, -, hanswer⟩ := Rule.answer_of_replacement hmove hrep
      exact hanswer.asDeclared
  | finder f => cases hh
  | observer o => cases hh

end Handler

/-! ## What is chosen and what is found

A rule chooses among the declarations of a type by some of what they say; the resolver goes by all that the reference
says. -/

theorem Signature.refOn_names (t : TypeRef) (s : Signature) : (s.refOn t).names s = true := by
  simp [refOn, MethodRef.names, MethodRef.fits]

theorem Signature.refOn_fits (t : TypeRef) (s : Signature) : (s.refOn t).fits s = true := by
  simp [refOn, MethodRef.fits]

/-- A reference tells signatures apart. -/
theorem Signature.refOn_inj {t : TypeRef} {s s' : Signature} : s.refOn t = s'.refOn t ↔ s = s' := by
  refine ⟨fun h => ?_, fun h => by rw [h]⟩
  obtain ⟨name, returnType, parameters, isStatic⟩ := s
  obtain ⟨name', returnType', parameters', isStatic'⟩ := s'
  simp only [refOn, MethodRef.mk.injEq, true_and] at h
  obtain ⟨rfl, rfl, rfl, hstatic⟩ := h
  rw [Bool.not_inj hstatic]

/-- **The first field of a name is found** if it has the type, for none before it has the name. -/
theorem Surface.field?_of_fieldNamed? {s : Surface} {r : FieldRef} {d : FieldDecl} (hd : s.fieldNamed? r.name = some d)
    (htype : d.type = r.fieldType) : s.field? r = some d := by
  obtain ⟨hname, before, after, hfields, hbefore⟩ := List.find?_eq_some_iff_append.mp hd
  refine List.find?_eq_some_iff_append.mpr ⟨?_, before, after, hfields, fun a ha => ?_⟩
  · unfold FieldRef.names
    simpa [htype] using hname
  · have hother : (a.name == r.name) = false := by simpa using hbefore a ha
    simp [FieldRef.names, hother]

namespace Resolver

variable {find : Resolver} {t : TypeRef} {surface : Surface}

/-- **The method that is chosen is the one that is found**: nothing is left out of a reference. -/
theorem method?_refOn (htype : find t = some surface) {s : Signature} (hs : s ∈ surface.methods) :
    find.method? (s.refOn t) = some s := by
  have hnamed : (surface.method? (s.refOn t)).isSome := List.find?_isSome.mpr ⟨s, hs, s.refOn_names t⟩
  obtain ⟨s', hfound⟩ := Option.isSome_iff_exists.mp hnamed
  have hsame : s'.refOn t = s.refOn t := MethodRef.refOn_of_names (r := s.refOn t) (List.find?_some hfound)
  rw [Signature.refOn_inj.mp hsame] at hfound
  exact Option.bind_eq_some_iff.mpr ⟨surface, htype, hfound⟩

/-- The first field of a name is the one that is found. -/
theorem field?_refOn (htype : find t = some surface) {d : FieldDecl} (hd : surface.fieldNamed? d.name = some d) :
    find.field? (d.refOn t) = some d :=
  Option.bind_eq_some_iff.mpr ⟨surface, htype, Surface.field?_of_fieldNamed? (r := d.refOn t) hd rfl⟩

end Resolver

/-! ## References as declared -/

namespace AsDeclared

variable {find : Resolver} {o : Operand}

/-- A reference as declared resolves. -/
theorem finds (h : AsDeclared find o) : find.finds o = true := by
  cases h with
  | @method t surface s htype hs => rw [Resolver.finds, Resolver.method?_refOn htype hs, Option.isSome_some]
  | @field t surface d htype hd _ => rw [Resolver.finds, Resolver.field?_refOn htype hd, Option.isSome_some]

/-- A reference as declared is present, and not mismatched. -/
theorem present (h : AsDeclared find o) : Present find o ∧ ¬ Mismatched find o := by
  cases h with
  | @method t surface s htype hs =>
      refine ⟨⟨surface, htype, s, hs, s.refOn_fits t⟩, ?_⟩
      rintro ⟨surface', htype', -, hnone⟩
      have hsame : surface = surface' := Option.some.inj (htype.symm.trans htype')
      subst hsame
      have hother : (s.refOn t).names s = false := hnone s hs
      rw [s.refOn_names t] at hother
      cases hother
  | @field t surface d htype hd hstorage =>
      refine ⟨⟨surface, d, htype, hd, hstorage⟩, ?_⟩
      rintro ⟨surface', d', htype', hd', -, hother⟩
      have hsame : surface = surface' := Option.some.inj (htype.symm.trans htype')
      subst hsame
      have hfirst : d = d' := Option.some.inj (hd.symm.trans hd')
      subst hfirst
      exact hother rfl

/-- **A reference as declared is neither missing nor of an unexpected type.** -/
theorem not_flagged (h : AsDeclared find o) (scopes : List Bytes) (op : Opcode) : ¬ flagged scopes find ⟨op, o⟩ := by
  obtain ⟨hpresent, hmatched⟩ := h.present
  exact not_flagged_of_present hpresent hmatched

end AsDeclared

end ModRepair
