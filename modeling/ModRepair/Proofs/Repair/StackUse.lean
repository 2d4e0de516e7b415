import ModRepair.Proofs.Repair.Completion
import ModRepair.Proofs.Repair.Table

/-!
# What instructions take from the stack

The receiver of a member is the first value below its arguments if there is one: a field that is not static takes it, a
call of an instance method does, and a static method takes it as its first parameter. Rules move it between these
places. This file says that they never lose it or make one up.

* `Instruction.takes` — how many values an instruction takes from the evaluation stack;
* `Rule.takes_replacement` — **every rule keeps that number**, whatever it puts in the place of an instruction;
* `Rule.access_replacement` — a load stays a load or becomes a call of a getter, and so it is with stores and setters;
* `stack_use_kept` — both together, for a claim in any module;
* `Run.takesAlike_visit`, `takesAlike_repair` — a visit keeps the number, and so does a whole run, at every place of a
  module.
-/

namespace ModRepair

/-! ## The evaluation stack -/

/-- The number of values that a call takes: its arguments and, below them, the receiver. -/
def MethodRef.takes (r : MethodRef) : Nat :=
  r.parameters.length + if r.hasThis then 1 else 0

/-- The number of values that an instruction takes from the evaluation stack. What is no access to a field and no call
    takes whatever its opcode is said to take. -/
def Instruction.takes (other : Opcode → Nat) (i : Instruction) : Nat :=
  match i.opcode, i.operand with
  | .ldfld, _ | .ldflda, _ => 1
  | .stfld, _ => 2
  | .ldsfld, _ | .ldsflda, _ => 0
  | .stsfld, _ => 1
  | .call, .method r | .callvirt, .method r => r.takes
  | .newobj, .method r => r.parameters.length
  | op, _ => other op

section

variable {other : Opcode → Nat} {i : Instruction}

/-- A load or store takes what an accessor takes, and the receiver unless the field is static. -/
theorem takes_of_accessor? {kind : Accessor} (h : i.opcode.accessor? = some kind) :
    i.takes other = kind.arity + if i.opcode.isStaticAccess then 0 else 1 := by
  obtain ⟨op, operand⟩ := i
  cases op <;> cases h <;> rfl

theorem takes_accessOpcode (kind : Accessor) (isStatic : Bool) (r : FieldRef) :
    Instruction.takes other ⟨Rule.accessOpcode kind isStatic, .field r⟩ = kind.arity + if isStatic then 0 else 1 := by
  cases kind <;> cases isStatic <;> rfl

theorem takes_of_isCall {r : MethodRef} (hcall : i.opcode.isCall = true) (hoperand : i.operand = .method r) :
    i.takes other = r.takes := by
  obtain ⟨op, operand⟩ := i
  subst hoperand
  have hop : op = .call ∨ op = .callvirt := by simpa [Opcode.isCall] using hcall
  rcases hop with rfl | rfl
  · rfl
  · rfl

/-- Which field it is does not matter. -/
theorem takes_field (op : Opcode) (r r' : FieldRef) :
    Instruction.takes other ⟨op, .field r⟩ = Instruction.takes other ⟨op, .field r'⟩ := by
  cases op <;> rfl

/-- Which types are mentioned does not matter. -/
theorem takes_mapTypes (f : TypeRef → TypeRef) :
    Instruction.takes other ⟨i.opcode, i.operand.mapTypes f⟩ = i.takes other := by
  obtain ⟨op, operand⟩ := i
  -- Only a call looks at its operand at all, and then at the number of parameters and the receiver.
  cases operand with
  | none => rfl
  | type r => cases op <;> rfl
  | field r => exact takes_field op _ _
  | property r => cases op <;> rfl
  | method r =>
      have hlength : (r.parameters.map f).length = r.parameters.length := List.length_map f
      cases op <;> simp [Instruction.takes, Operand.mapTypes, MethodRef.takes, hlength]

end

/-- The reference to a method as declared takes the receiver unless the method is static. -/
theorem takes_refOn (t : TypeRef) (s : Signature) :
    (s.refOn t).takes = s.parameters.length + if s.isStatic then 0 else 1 := by
  unfold MethodRef.takes Signature.refOn
  cases s.isStatic <;> rfl

/-- An accessor that is found by name takes what the access takes that it stands for. -/
theorem takes_of_accessorNamed? {find : Resolver} {t : TypeRef} {property : Bytes} {kind : Accessor} {isStatic : Bool}
    {s : Signature} (h : find.accessorNamed? t property kind isStatic = some s) :
    (s.refOn t).takes = kind.arity + if isStatic then 0 else 1 := by
  obtain ⟨surface, p, -, -, -, haccessor⟩ := accessorNamed?_spec h
  obtain ⟨-, harity, hstatic⟩ := isAccessor_iff.mp haccessor
  rw [takes_refOn, harity, hstatic]

/-! ## Rules -/

namespace Rule

variable {find : Resolver} {i : Instruction} {rep : Replacement} {rule : Rule}

/-- **Every rule keeps what is taken from the stack.** -/
theorem takes_replacement (h : rule.replacement? find i = some rep) (other : Opcode → Nat) :
    rep.instruction.takes other = i.takes other := by
  cases rule with
  | fieldToProperty source field target property =>
      obtain ⟨r, kind, s, -, -, -, hkind, -, hs, rfl⟩ := fieldToProperty_iff.mp h
      calc (s.refOn target).takes
          = kind.arity + if i.opcode.isStaticAccess then 0 else 1 := takes_of_accessorNamed? hs
        _ = i.takes other := (takes_of_accessor? hkind).symm
  | fieldRename type old new =>
      obtain ⟨r, d, hoperand, -, -, -, -, -, rfl⟩ := fieldRename_iff.mp h
      obtain ⟨op, operand⟩ := i
      subst hoperand
      exact takes_field op _ _
  | propertyToField type property field =>
      obtain ⟨r, kind, d, hoperand, -, hcall, hkind, -, -, hstatic, rfl⟩ := propertyToField_iff.mp h
      -- The receiver of the call is that of the field, for one is static exactly if the other is.
      have hreceiver : (if d.isStatic then 0 else 1) = if r.hasThis then 1 else 0 := by
        rw [hstatic]
        cases r.hasThis <;> rfl
      calc Instruction.takes other ⟨accessOpcode kind d.isStatic, .field (d.refOn type)⟩
          = kind.arity + if d.isStatic then 0 else 1 := takes_accessOpcode kind d.isStatic _
        _ = r.takes := by rw [MethodRef.takes, length_of_accessorOf? hkind, hreceiver]
        _ = i.takes other := (takes_of_isCall hcall hoperand).symm
  | typeMove fullName target =>
      obtain ⟨-, rfl⟩ := typeMove_iff.mp h
      exact takes_mapTypes _
  | methodParent source target =>
      obtain ⟨r, surface, s, hoperand, -, -, hsame, rfl⟩ := methodParent_spec h
      obtain ⟨op, operand⟩ := i
      subst hoperand
      show Instruction.takes other ⟨op, .method (s.refOn target)⟩ = _
      -- The references differ in the declaring type alone, and that is taken from no stack.
      rw [hsame]
      cases op <;> rfl
  | methodToStatic source method arity target shim =>
      obtain ⟨r, surface, s, hoperand, hcall, hthis, -, -, hstatic, hparameters, -, rfl⟩ := methodToStatic_spec h
      -- What was the receiver is now the first argument.
      calc (s.refOn target).takes
          = (source :: r.parameters).length + 0 := by rw [takes_refOn, hparameters, hstatic]; rfl
        _ = r.takes := by rw [MethodRef.takes, hthis]; rfl
        _ = i.takes other := (takes_of_isCall hcall hoperand).symm
  | heuristic scopes =>
      obtain ⟨r, kind, s, -, -, -, hkind, hs, rfl⟩ := heuristic_iff.mp h
      calc (s.refOn r.declaringType).takes
          = kind.arity + if i.opcode.isStaticAccess then 0 else 1 := takes_of_accessorNamed? hs
        _ = i.takes other := (takes_of_accessor? hkind).symm

end Rule

/-! ## Loads and stores -/

/-- An access to a field that does what an accessor of the kind does: a load or a store. -/
def Instruction.Accesses (kind : Accessor) (i : Instruction) : Prop :=
  i.opcode.accessor? = some kind ∧ i.operand.kind = .field

/-- A call of an accessor: the type of the method declares it, and a property that it is the accessor of. -/
def Instruction.CallsAccessor (find : Resolver) (kind : Accessor) (i : Instruction) : Prop :=
  ∃ t surface p s, find t = some surface ∧ p ∈ surface.properties ∧ s ∈ surface.methods ∧
    p.isAccessor kind s.isStatic s = true ∧ i = ⟨.call, .method (s.refOn t)⟩

/-- A well-formed load or store is one of a field. -/
theorem accesses_of_isWellFormed {i : Instruction} {kind : Accessor} (hi : i.isWellFormed = true)
    (hkind : i.opcode.accessor? = some kind) : i.Accesses kind := by
  refine ⟨hkind, ?_⟩
  obtain ⟨op, operand⟩ := i
  cases op <;> cases hkind <;> exact (beq_iff_eq.mp hi).symm

namespace Rule

variable {find : Resolver} {i : Instruction} {rep : Replacement} {rule : Rule} {kind : Accessor}

theorem callsAccessor_of_accessorNamed? {t : TypeRef} {property phrase : Bytes} {isStatic : Bool} {s : Signature}
    (h : find.accessorNamed? t property kind isStatic = some s) :
    (toCall (s.refOn t) phrase).instruction.CallsAccessor find kind := by
  obtain ⟨surface, p, hsurface, hp, hs, haccessor⟩ := accessorNamed?_spec h
  obtain ⟨hname, harity, -⟩ := isAccessor_iff.mp haccessor
  exact ⟨t, surface, p, s, hsurface, hp, hs, isAccessor_iff.mpr ⟨hname, harity, rfl⟩, rfl⟩

/-- **What becomes of a load or store**: the same of a field, or a call of the accessor that does it. -/
theorem access_replacement (hi : i.Accesses kind) (h : rule.replacement? find i = some rep) :
    rep.instruction.Accesses kind ∨ rep.instruction.CallsAccessor find kind := by
  obtain ⟨hkind, hfield⟩ := hi
  -- A load or store is no call, so the rules that start from calls do not answer.
  have hnocall : i.opcode.isCall = false := by
    cases hop : i.opcode <;> rw [hop] at hkind <;> first | rfl | cases hkind
  cases rule with
  | fieldToProperty source field target property =>
      obtain ⟨r, kind', s, -, -, -, hkind', -, hs, rfl⟩ := fieldToProperty_iff.mp h
      cases hkind.symm.trans hkind'
      exact .inr (callsAccessor_of_accessorNamed? hs)
  | fieldRename type old new =>
      obtain ⟨r, d, -, -, -, -, -, -, rfl⟩ := fieldRename_iff.mp h
      exact .inl ⟨hkind, rfl⟩
  | propertyToField type property field =>
      obtain ⟨r, kind', d, -, -, hcall, -⟩ := propertyToField_iff.mp h
      rw [hnocall] at hcall
      cases hcall
  | typeMove fullName target =>
      obtain ⟨-, rfl⟩ := typeMove_iff.mp h
      exact .inl ⟨hkind, (Operand.kind_mapTypes _ _).trans hfield⟩
  | methodParent source target =>
      obtain ⟨r, surface, s, hoperand, -⟩ := methodParent_spec h
      rw [hoperand] at hfield
      cases hfield
  | methodToStatic source method arity target shim =>
      obtain ⟨r, surface, s, -, hcall, -⟩ := methodToStatic_spec h
      rw [hnocall] at hcall
      cases hcall
  | heuristic scopes =>
      obtain ⟨r, kind', s, -, -, -, hkind', hs, rfl⟩ := heuristic_iff.mp h
      cases hkind.symm.trans hkind'
      exact .inr (callsAccessor_of_accessorNamed? hs)

/-- Whether a rule puts one method in the place of another. -/
def movesMethod : Rule → Bool
  | .methodParent _ _ | .methodToStatic _ _ _ _ _ => true
  | _ => false

/-- A method in the place of another returns the same. -/
theorem returnType_replacement (hrule : rule.movesMethod = true) (h : rule.replacement? find i = some rep) :
    ∃ r r', i.operand = .method r ∧ rep.instruction.operand = .method r' ∧ r'.returnType = r.returnType := by
  cases rule with
  | methodParent source target =>
      obtain ⟨r, surface, s, hoperand, -, -, hsame, rfl⟩ := methodParent_spec h
      exact ⟨r, s.refOn target, hoperand, rfl, by rw [hsame]⟩
  | methodToStatic source method arity target shim =>
      obtain ⟨r, surface, s, hoperand, -, -, -, -, -, -, hreturn, rfl⟩ := methodToStatic_spec h
      exact ⟨r, s.refOn target, hoperand, rfl, hreturn⟩
  | _ => cases hrule

end Rule

/-! ## Claims -/

/-- **Stack use is kept.** What any rule puts in the place of a well-formed instruction of any module takes as many
    values from the stack. A load of a field becomes a load or a call of a getter, a store a store or a call of a
    setter; and a method that takes the place of another returns the same. -/
theorem stack_use_kept (rule : Rule) (m : Module) {i : Instruction} {c : Claim} (hi : i.isWellFormed = true)
    (hc : (Handler.rule rule).offer m.resolver i = .claimed c) :
    (∀ other, c.instruction.takes other = i.takes other) ∧
      (∀ kind, i.opcode.accessor? = some kind →
        c.instruction.Accesses kind ∨ c.instruction.CallsAccessor m.resolver kind) ∧
      (rule.movesMethod = true →
        ∃ r r', i.operand = .method r ∧ c.instruction.operand = .method r' ∧ r'.returnType = r.returnType) := by
  obtain ⟨rep, hrep, rfl⟩ := Handler.rule_offer_eq_claimed.mp hc
  refine ⟨?_, ?_, ?_⟩
  · intro other
    exact Rule.takes_replacement hrep other
  · intro kind hkind
    exact Rule.access_replacement (accesses_of_isWellFormed hi hkind) hrep
  · intro hrule
    exact Rule.returnType_replacement hrule hrep

/-- A virtual call of `A.g` with one argument becomes a call of a static method of `B` that takes an `A` first. Either
    takes two values. -/
theorem stack_use_kept_sample :
    let rule := Rule.methodToStatic Sample.typeA (ascii "g") none Sample.typeB (ascii "h")
    let shim : Signature := ⟨ascii "h", Sample.int32, [Sample.typeA, Sample.int32], true⟩
    let m : Module := ⟨ascii "Mod", some ⟨[⟨ascii "Host", [⟨ascii "B", [], [⟨shim, none⟩], [], []⟩]⟩]⟩, [], .empty⟩
    let i : Instruction := ⟨.callvirt, .method ⟨Sample.typeA, ascii "g", Sample.int32, [Sample.int32], true⟩⟩
    ∃ c, (Handler.rule rule).offer m.resolver i = .claimed c ∧
      c.instruction = ⟨.call, .method (shim.refOn Sample.typeB)⟩ ∧
      i.takes (fun _ => 0) = 2 ∧ c.instruction.takes (fun _ => 0) = 2 ∧
      ∃ r', c.instruction.operand = .method r' ∧ r'.returnType = Sample.int32 := by
  intro rule shim m i
  obtain ⟨c, hc, hinstruction⟩ : ∃ c, (Handler.rule rule).offer m.resolver i = .claimed c ∧
      c.instruction = ⟨.call, .method (shim.refOn Sample.typeB)⟩ := ⟨_, rfl, rfl⟩
  obtain ⟨htakes, -, hreturns⟩ := stack_use_kept rule m rfl hc
  obtain ⟨r, r', hoperand, hoperand', hreturn⟩ := hreturns rfl
  have htwo : i.takes (fun _ => 0) = 2 := rfl
  refine ⟨c, hc, hinstruction, htwo, (htakes _).trans htwo, r', hoperand', ?_⟩
  cases hoperand
  exact hreturn

/-! ## Runs -/

/-- Whoever claims an instruction, what is put in its place takes what it takes. -/
theorem Handler.takes_of_claimed {h : Handler} {find : Resolver} {i : Instruction} {c : Claim}
    (hc : h.offer find i = .claimed c) (other : Opcode → Nat) : c.instruction.takes other = i.takes other := by
  cases hmutating : h.isMutating with
  | false => rw [(Handler.claim_of_not_mutating hmutating hc).1]
  | true =>
      cases h with
      | rule rule =>
          obtain ⟨rep, hrep, rfl⟩ := Handler.rule_offer_eq_claimed.mp hc
          exact Rule.takes_replacement hrep other
      | finder f => cases hmutating
      | observer o => cases hmutating

/-- Two instructions take the same from the stack, whatever other opcodes are said to take. -/
def Instruction.TakesAlike (i j : Instruction) : Prop :=
  ∀ other, j.takes other = i.takes other

/-- **The step lemma.** What a visit returns takes what the instruction takes. -/
theorem Run.takesAlike_visit (site : Site) (i : Instruction) (run : Run) : i.TakesAlike (visit site i run).1 := by
  intro other
  rcases visit_cases site i run with ⟨hi, -⟩ | ⟨t, -, c, hc, hi, -⟩
  · rw [hi]
  · rw [hi]
    exact Handler.takes_of_claimed hc other

/-- **A whole run** leaves at every place an instruction that takes what was taken there, whatever the handlers are and
    even if it is given up. -/
theorem takesAlike_repair (hs : List Handler) (m : Module) :
    List.Forall₂ (TypeDecl.Aligned Instruction.TakesAlike) m.types (repair hs m).module.types := by
  rw [types_repair]
  exact (Traversal.types_aligned Run.visit Instruction.TakesAlike (fun _ _ => True)
    (fun i _ site _ run _ => ⟨Run.takesAlike_visit site i run, trivial⟩) trivial).1

end ModRepair
