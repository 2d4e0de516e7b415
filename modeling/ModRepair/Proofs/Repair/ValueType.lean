import ModRepair.Proofs.Repair.Rejection

/-!
# The type of the value

Four rules put a field or an accessor in the place of another. They go by the name of the new member, by the number of
parameters and by being static, and by nothing else: the type of the value that is loaded or stored plays no part. So
the new reference names the type that the member has now, whatever the old one named.

* `Operand.valueType?`, `Operand.withValueType` — the type of the value that an operand names, and another in its place;
* `Selects` — what can be found under a name, and the type of its value;
* `Rule.selects_replacement` — **the four rules refer to what is found** under the name they look for;
* `Rule.replacement_withValueType` — they answer alike whatever type the old operand names;
* `value_type_as_declared` — both for a claim in any module, and how the new type goes with the old one;
* `value_type_not_kept` — each of the four rules changes the type in some module.
-/

namespace ModRepair

/-! ## The type that an operand names -/

/-- The reference to an accessor with another type of the value: a getter returns it, a setter takes it. -/
def MethodRef.withValueType (type : TypeRef) (r : MethodRef) : MethodRef :=
  match r.parameters with
  | [] => { r with returnType := type }
  | [_] => { r with parameters := [type] }
  | _ => r

namespace Operand

/-- The type of the value that is loaded or stored: that of the field, what the getter returns, or what the setter
    takes. -/
def valueType? : Operand → Option TypeRef
  | .field r => some r.fieldType
  | .method r =>
    match r.parameters with
    | [] => some r.returnType
    | [value] => some value
    | _ => Option.none
  | _ => Option.none

/-- The operand with another type of the value. -/
def withValueType (type : TypeRef) : Operand → Operand
  | .field r => .field { r with fieldType := type }
  | .method r => .method (r.withValueType type)
  | o => o

/-- The other type is the one that the operand then names. -/
theorem valueType?_withValueType {o : Operand} (ho : o.valueType?.isSome) (type : TypeRef) :
    (o.withValueType type).valueType? = some type := by
  cases o with
  | none => cases ho
  | type r => cases ho
  | property r => cases ho
  | field r => rfl
  | method r =>
      obtain ⟨declaringType, name, returnType, parameters, hasThis⟩ := r
      rcases parameters with _ | ⟨value, _ | ⟨second, rest⟩⟩
      · rfl
      · rfl
      · cases ho

end Operand

/-- The type of the value does not matter for what passes for an accessor of a property. -/
theorem accessorOf?_withValueType (property : Bytes) (type : TypeRef) (r : MethodRef) :
    Rule.accessorOf? property (r.withValueType type) = Rule.accessorOf? property r := by
  obtain ⟨declaringType, name, returnType, parameters, hasThis⟩ := r
  rcases parameters with _ | ⟨value, _ | ⟨second, rest⟩⟩
  · rfl
  · simp [Rule.accessorOf?, MethodRef.withValueType]
  · rfl

theorem withValueType_frame (type : TypeRef) (r : MethodRef) :
    (r.withValueType type).declaringType = r.declaringType ∧ (r.withValueType type).hasThis = r.hasThis := by
  unfold MethodRef.withValueType
  split
  · exact ⟨rfl, rfl⟩
  · exact ⟨rfl, rfl⟩
  · exact ⟨rfl, rfl⟩

/-! ## What is found under a name -/

/-- The type of the value that goes through an accessor. -/
def Signature.valueType? (kind : Accessor) (s : Signature) : Option TypeRef :=
  match kind with
  | .getter => some s.returnType
  | .setter => s.parameters.head?

/-- Whether an instruction uses a static member: a call does by its reference, an access by its opcode. -/
def Instruction.isStaticUse (i : Instruction) : Bool :=
  match i.operand with
  | .method r => !r.hasThis
  | _ => i.opcode.isStaticAccess

/-- What is found under a name among the members of a type to do what an instruction does, as an operand that refers to
    it, and the type of its value: the first field of the name, or the accessor of the first property of the name that
    does for it what the instruction does for a field. Either is static exactly if the instruction uses a static
    member. -/
inductive Selects (find : Resolver) (t : TypeRef) (name : Bytes) (i : Instruction) : Operand → TypeRef → Prop
  | field {d : FieldDecl} (first : find.fieldNamed? t name = some d) (storage : d.isLiteral = false)
      (static : d.isStatic = i.isStaticUse) : Selects find t name i (.field (d.refOn t)) d.type
  | accessor {kind : Accessor} {s : Signature} {value : TypeRef} (does : i.opcode.accessor? = some kind)
      (first : find.accessorNamed? t name kind i.isStaticUse = some s) (passes : s.valueType? kind = some value) :
      Selects find t name i (.method (s.refOn t)) value

section

variable {find : Resolver} {t : TypeRef} {name : Bytes} {i : Instruction}

/-- An accessor has as many parameters as its kind takes, so a type of its value can be told. -/
theorem selects_of_accessorNamed? {r : FieldRef} {kind : Accessor} {s : Signature} (hoperand : i.operand = .field r)
    (hkind : i.opcode.accessor? = some kind)
    (h : find.accessorNamed? t name kind i.opcode.isStaticAccess = some s) :
    ∃ value, Selects find t name i (.method (s.refOn t)) value := by
  have hstatic : i.opcode.isStaticAccess = i.isStaticUse := by rw [Instruction.isStaticUse, hoperand]
  rw [hstatic] at h
  obtain ⟨surface, p, -, -, -, haccessor⟩ := accessorNamed?_spec h
  obtain ⟨-, harity, -⟩ := isAccessor_iff.mp haccessor
  cases kind with
  | getter => exact ⟨s.returnType, .accessor hkind h rfl⟩
  | setter =>
      obtain ⟨value, hvalue⟩ := List.length_eq_one_iff.mp harity
      exact ⟨value, .accessor hkind h (by rw [Signature.valueType?, hvalue]; rfl)⟩

/-- The operand names the type of the member that it refers to. -/
theorem Selects.valueType? {o : Operand} {value : TypeRef} (h : Selects find t name i o value) :
    o.valueType? = some value := by
  cases h with
  | field first storage static => rfl
  | @accessor kind s value does first passes =>
      obtain ⟨surface, p, -, -, -, haccessor⟩ := accessorNamed?_spec first
      obtain ⟨-, harity, -⟩ := isAccessor_iff.mp haccessor
      -- The number of parameters tells a getter from a setter.
      cases kind with
      | getter =>
          have hnone : s.parameters = [] := List.length_eq_zero_iff.mp harity
          simp only [Operand.valueType?, Signature.refOn, hnone]
          exact passes
      | setter =>
          obtain ⟨taken, htaken⟩ := List.length_eq_one_iff.mp harity
          rw [Signature.valueType?, htaken] at passes
          simp only [Operand.valueType?, Signature.refOn, htaken]
          exact passes

end

/-! ## The four rules -/

namespace Rule

/-- Whether a rule puts a field or an accessor in the place of another. -/
def exchangesMember : Rule → Bool
  | .fieldToProperty _ _ _ _ | .fieldRename _ _ _ | .propertyToField _ _ _ | .heuristic _ => true
  | _ => false

/-- None of these rules is for a type that has moved. -/
theorem movesType_of_exchangesMember {rule : Rule} (hrule : rule.exchangesMember = true) :
    (Handler.rule rule).movesType = false := by
  cases rule with
  | typeMove fullName target => cases hrule
  | _ => rfl

/-- The name under which one of these rules looks for the new member. -/
def soughtName? (rule : Rule) (i : Instruction) : Option Bytes :=
  match rule with
  | .fieldToProperty _ _ _ property => some property
  | .fieldRename _ _ new => some new
  | .propertyToField _ _ field => some field
  | .heuristic _ => i.field?.map (·.name)
  | _ => none

variable {find : Resolver} {i : Instruction} {rep : Replacement} {rule : Rule}

/-- **What the rules refer to** is found under the name they look for, by name, parameters and being static alone. -/
theorem selects_replacement (hrule : rule.exchangesMember = true) (h : rule.replacement? find i = some rep) :
    ∃ t name value, rule.home? i = some t ∧ rule.soughtName? i = some name ∧
      Selects find t name i rep.instruction.operand value := by
  cases rule with
  | fieldToProperty source field target property =>
      obtain ⟨r, kind, s, hoperand, -, -, hkind, -, hs, rfl⟩ := fieldToProperty_iff.mp h
      obtain ⟨value, hvalue⟩ := selects_of_accessorNamed? hoperand hkind hs
      exact ⟨target, property, value, rfl, rfl, hvalue⟩
  | fieldRename type old new =>
      obtain ⟨r, d, hoperand, -, -, hd, hstorage, hsame, rfl⟩ := fieldRename_iff.mp h
      have hstatic : i.isStaticUse = i.opcode.isStaticAccess := by rw [Instruction.isStaticUse, hoperand]
      exact ⟨type, new, d.type, rfl, rfl, .field hd hstorage (hsame.trans hstatic.symm)⟩
  | propertyToField type property field =>
      obtain ⟨r, kind, d, hoperand, -, -, -, hd, hstorage, hsame, rfl⟩ := propertyToField_iff.mp h
      have hstatic : i.isStaticUse = !r.hasThis := by rw [Instruction.isStaticUse, hoperand]
      exact ⟨type, field, d.type, rfl, rfl, .field hd hstorage (hsame.trans hstatic.symm)⟩
  | heuristic scopes =>
      obtain ⟨r, kind, s, hoperand, -, -, hkind, hs, rfl⟩ := heuristic_iff.mp h
      obtain ⟨value, hvalue⟩ := selects_of_accessorNamed? hoperand hkind hs
      refine ⟨r.declaringType, r.name, value, ?_, ?_, hvalue⟩
      · rw [home?, hoperand]
        rfl
      · rw [soughtName?, Instruction.field?, hoperand]
        rfl
  | _ => cases hrule

/-- What is replaced names a type of a value. -/
theorem valueType?_isSome_of_replacement (hrule : rule.exchangesMember = true)
    (h : rule.replacement? find i = some rep) : i.operand.valueType?.isSome := by
  cases rule with
  | fieldToProperty source field target property =>
      obtain ⟨r, kind, s, hoperand, -⟩ := fieldToProperty_iff.mp h
      rw [hoperand]
      rfl
  | fieldRename type old new =>
      obtain ⟨r, d, hoperand, -⟩ := fieldRename_iff.mp h
      rw [hoperand]
      rfl
  | propertyToField type property field =>
      obtain ⟨r, kind, d, hoperand, -, -, hkind, -⟩ := propertyToField_iff.mp h
      have harity := length_of_accessorOf? hkind
      rw [hoperand, Operand.valueType?]
      cases kind with
      | getter =>
          rw [List.length_eq_zero_iff.mp harity]
          rfl
      | setter =>
          obtain ⟨value, hvalue⟩ := List.length_eq_one_iff.mp harity
          rw [hvalue]
          rfl
  | heuristic scopes =>
      obtain ⟨r, kind, s, hoperand, -⟩ := heuristic_iff.mp h
      rw [hoperand]
      rfl
  | _ => cases hrule

/-- **The old type plays no part.** With another type of the value in its operand an instruction is replaced in the same
    way. The heuristic alone looks at the reference as a whole, and only to see that it does not resolve. -/
theorem replacement_withValueType (hrule : rule.exchangesMember = true) {type : TypeRef}
    (hlost : ∀ scopes, rule = .heuristic scopes → find.finds (i.operand.withValueType type) = false)
    (h : rule.replacement? find i = some rep) :
    rule.replacement? find ⟨i.opcode, i.operand.withValueType type⟩ = some rep := by
  -- Each answer is taken apart and put together again with the other reference, which meets the same conditions.
  cases rule with
  | fieldToProperty source field target property =>
      obtain ⟨r, kind, s, hoperand, htype, hname, hanswer⟩ := fieldToProperty_iff.mp h
      rw [hoperand]
      exact fieldToProperty_iff.mpr ⟨{ r with fieldType := type }, kind, s, rfl, htype, hname, hanswer⟩
  | fieldRename type' old new =>
      obtain ⟨r, d, hoperand, htype, hname, hanswer⟩ := fieldRename_iff.mp h
      rw [hoperand]
      exact fieldRename_iff.mpr ⟨{ r with fieldType := type }, d, rfl, htype, hname, hanswer⟩
  | propertyToField type' property field =>
      obtain ⟨r, kind, d, hoperand, htype, hcall, hkind, hd, hstorage, hstatic, hrep⟩ := propertyToField_iff.mp h
      obtain ⟨hsameType, hsameThis⟩ := withValueType_frame type r
      rw [hoperand]
      exact propertyToField_iff.mpr ⟨r.withValueType type, kind, d, rfl, hsameType.trans htype, hcall,
        (accessorOf?_withValueType property type r).trans hkind, hd, hstorage, hsameThis ▸ hstatic, hrep⟩
  | heuristic scopes =>
      obtain ⟨r, kind, s, hoperand, hwatched, -, hanswer⟩ := heuristic_iff.mp h
      have hlost := hlost scopes rfl
      rw [hoperand] at hlost ⊢
      have hgone : find.field? { r with fieldType := type } = none :=
        Option.isNone_iff_eq_none.mp (Option.isSome_eq_false_iff.mp hlost)
      exact heuristic_iff.mpr ⟨{ r with fieldType := type }, kind, s, rfl, hwatched, hgone, hanswer⟩
  | _ => cases hrule

end Rule

/-! ## Claims -/

/-- **The value has the type that is declared.** Let one of the four rules claim an instruction of any module. The new
    operand refers to what is found under the name that the rule looks for, as it is declared; so it resolves, and
    neither finder has anything to say about it. It names the type declared there, which is the old one exactly if the
    old operand names the same. Nor has the old type any influence: with any other in its place the instruction is
    claimed alike, by the heuristic as long as the reference does not resolve. -/
theorem value_type_as_declared (rule : Rule) (hrule : rule.exchangesMember = true) (m : Module) {i : Instruction}
    {c : Claim} (hc : (Handler.rule rule).offer m.resolver i = .claimed c) :
    (∃ t name value, rule.home? i = some t ∧ rule.soughtName? i = some name ∧
        Selects m.resolver t name i c.instruction.operand value ∧
        c.instruction.operand.valueType? = some value ∧
        (c.instruction.operand.valueType? = i.operand.valueType? ↔ i.operand.valueType? = some value)) ∧
      (m.resolver.finds c.instruction.operand = true ∧ ∀ scopes, ¬ flagged scopes m.resolver c.instruction) ∧
      ∀ type, (i.operand.withValueType type).valueType? = some type ∧
        ((∀ scopes, rule = .heuristic scopes → m.resolver.finds (i.operand.withValueType type) = false) →
          (Handler.rule rule).offer m.resolver ⟨i.opcode, i.operand.withValueType type⟩ = .claimed c) := by
  obtain ⟨rep, hrep, rfl⟩ := Handler.rule_offer_eq_claimed.mp hc
  have hdeclared : AsDeclared m.resolver rep.instruction.operand :=
    Handler.asDeclared_of_claimed rfl (Rule.movesType_of_exchangesMember hrule) hc
  refine ⟨?_, ⟨hdeclared.finds, ?_⟩, ?_⟩
  · obtain ⟨t, name, value, hhome, hname, hselects⟩ := Rule.selects_replacement hrule hrep
    have hvalue : rep.instruction.operand.valueType? = some value := hselects.valueType?
    refine ⟨t, name, value, hhome, hname, hselects, hvalue, ?_⟩
    show rep.instruction.operand.valueType? = _ ↔ _
    rw [hvalue]
    exact eq_comm
  · intro scopes
    exact hdeclared.not_flagged scopes rep.instruction.opcode
  · intro type
    refine ⟨Operand.valueType?_withValueType (Rule.valueType?_isSome_of_replacement hrule hrep) type, fun hlost => ?_⟩
    have hsame := Rule.replacement_withValueType hrule hlost hrep
    exact Handler.rule_offer_eq_claimed.mpr ⟨rep, hsame, rfl⟩

namespace Sample

def text : TypeRef := ⟨ascii "Runtime", ascii "String"⟩

/-- The type whose members have changed their form and their type at once. -/
def typeC : TypeRef := ⟨ascii "Host", ascii "C"⟩

/-- A module without instructions; `C` has a static field `q` and a static property `p`, both of strings. -/
def changedModule : Module :=
  let getter : Signature := ⟨ascii "get_p", text, [], true⟩
  ⟨ascii "Mod", some ⟨[⟨ascii "Host", [⟨ascii "C", [⟨ascii "q", text, true, false⟩], [⟨getter, none⟩],
    [⟨ascii "p", text, some (ascii "get_p"), none⟩], []⟩]⟩]⟩, [], .empty⟩

/-- A load of a static field of `C` that was a number. -/
def loadOfC (name : Bytes) : Instruction :=
  ⟨.ldsfld, .field ⟨typeC, name, int32⟩⟩

end Sample

/-- The load of a number becomes a call that returns a string, and the load of an `A` becomes the same call. -/
theorem value_type_as_declared_sample :
    let rule := Rule.heuristic [ascii "Host"]
    let find := Sample.changedModule.resolver
    ∃ c, (Handler.rule rule).offer find (Sample.loadOfC (ascii "p")) = .claimed c ∧
      Selects find Sample.typeC (ascii "p") (Sample.loadOfC (ascii "p")) c.instruction.operand Sample.text ∧
      find.finds c.instruction.operand = true ∧
      (Handler.rule rule).offer find ⟨.ldsfld, .field ⟨Sample.typeC, ascii "p", Sample.typeA⟩⟩ = .claimed c := by
  intro rule find
  obtain ⟨c, hc, hnow⟩ : ∃ c, (Handler.rule rule).offer find (Sample.loadOfC (ascii "p")) = .claimed c ∧
      c.instruction.operand.valueType? = some Sample.text := ⟨_, rfl, rfl⟩
  obtain ⟨⟨t, name, value, hhome, hname, hselects, hvalue, -⟩, ⟨hfinds, -⟩, hother⟩ :=
    value_type_as_declared rule rfl Sample.changedModule hc
  cases hhome
  cases hname
  have htext : value = Sample.text := Option.some.inj (hvalue.symm.trans hnow)
  rw [htext] at hselects
  exact ⟨c, hc, hselects, hfinds, (hother Sample.typeA).2 fun scopes _ => rfl⟩

/-- A rule claims an instruction and exchanges the type of the value, and neither finder has anything to say about it. -/
def Rule.Retypes (rule : Rule) (find : Resolver) (i : Instruction) (type type' : TypeRef) : Prop :=
  ∃ c, (Handler.rule rule).offer find i = .claimed c ∧ i.operand.valueType? = some type ∧
    c.instruction.operand.valueType? = some type' ∧ ∀ scopes, ¬ flagged scopes find c.instruction

theorem Rule.retypes_of_claim {rule : Rule} {find : Resolver} {i : Instruction} {c : Claim} {type type' : TypeRef}
    (hrule : rule.exchangesMember = true) (hc : (Handler.rule rule).offer find i = .claimed c)
    (hold : i.operand.valueType? = some type) (hnew : c.instruction.operand.valueType? = some type') :
    rule.Retypes find i type type' := by
  refine ⟨c, hc, hold, hnew, fun scopes => ?_⟩
  exact (not_flagged_of_rule scopes rfl (movesType_of_exchangesMember hrule) hc).2

/-- **The type is not kept.** Each of the four rules puts something of a string in the place of something of a number. -/
theorem value_type_not_kept :
    let find := Sample.changedModule.resolver
    let callGetR : Instruction := ⟨.call, .method ⟨Sample.typeC, ascii "get_r", Sample.int32, [], false⟩⟩
    (Rule.heuristic [ascii "Host"]).Retypes find (Sample.loadOfC (ascii "p")) Sample.int32 Sample.text ∧
      (Rule.fieldToProperty Sample.typeC (ascii "f") Sample.typeC (ascii "p")).Retypes find
        (Sample.loadOfC (ascii "f")) Sample.int32 Sample.text ∧
      (Rule.fieldRename Sample.typeC (ascii "f") (ascii "q")).Retypes find (Sample.loadOfC (ascii "f"))
        Sample.int32 Sample.text ∧
      (Rule.propertyToField Sample.typeC (ascii "r") (ascii "q")).Retypes find callGetR Sample.int32 Sample.text := by
  intro find callGetR
  refine ⟨?_, ?_, ?_, ?_⟩
  · exact Rule.retypes_of_claim rfl rfl rfl rfl
  · exact Rule.retypes_of_claim rfl rfl rfl rfl
  · exact Rule.retypes_of_claim rfl rfl rfl rfl
  · exact Rule.retypes_of_claim rfl rfl rfl rfl

end ModRepair
