import ModRepair.Repair.Rule

/-!
# What rules select

A rule looks for the member that it puts in the place of another by names: the first field of a name, or the method
that serves as an accessor of the first property of a name. This file inverts the rules once, so that nobody else has
to open them.

* `FieldRef.names_iff`, `MethodRef.names_iff`, `PropertyRef.names_iff` — the resolver, for comparison, goes by the whole
  reference;
* `Resolver.fieldNamed?`, `Resolver.accessorNamed?` — the two searches by name;
* `accessorNamed?_spec` — what is known of an accessor that is found;
* `fieldToProperty_iff`, `fieldRename_iff`, `propertyToField_iff`, `heuristic_iff` — **when the rules for fields and
  properties answer**, and with what;
* `typeMove_iff`, `methodParent_iff` — when the rules for types and for methods of another type answer;
* `methodParent_spec`, `methodToStatic_spec` — what the answers of the rules for methods have kept.
-/

namespace ModRepair

/-! ## What a reference names -/

theorem FieldRef.names_iff {r : FieldRef} {d : FieldDecl} :
    r.names d = true ↔ d.name = r.name ∧ d.type = r.fieldType := by
  simp [names]

theorem MethodRef.names_iff {r : MethodRef} {s : Signature} :
    r.names s = true ↔
      (s.name = r.name ∧ s.parameters = r.parameters ∧ s.isStatic ≠ r.hasThis) ∧ s.returnType = r.returnType := by
  simp [names, fits, and_assoc]

/-- The reference to a field that is named, as declared, is the same reference. -/
theorem FieldRef.refOn_of_names {r : FieldRef} {d : FieldDecl} (h : r.names d = true) :
    d.refOn r.declaringType = r := by
  obtain ⟨hname, htype⟩ := names_iff.mp h
  rw [FieldDecl.refOn, hname, htype]

/-- The reference to a method that is named, as declared, is the same reference. -/
theorem MethodRef.refOn_of_names {r : MethodRef} {s : Signature} (h : r.names s = true) :
    s.refOn r.declaringType = r := by
  obtain ⟨⟨hname, hparameters, hstatic⟩, hreturn⟩ := names_iff.mp h
  -- A static method is one without a receiver.
  have hthis : (!s.isStatic) = r.hasThis := Bool.not_eq.mpr hstatic
  rw [Signature.refOn, hname, hreturn, hparameters, hthis]

theorem PropertyRef.names_iff {r : PropertyRef} {d : PropertyDecl} :
    r.names d = true ↔ d.name = r.name ∧ d.type = r.propertyType := by
  simp [names]

/-! ## Searches by name -/

namespace Resolver

/-- The first field of a name that a type declares. -/
def fieldNamed? (find : Resolver) (t : TypeRef) (name : Bytes) : Option FieldDecl :=
  (find t).bind (·.fieldNamed? name)

/-- The accessor of the first property of a name that a type declares. -/
def accessorNamed? (find : Resolver) (t : TypeRef) (property : Bytes) (kind : Accessor) (isStatic : Bool) :
    Option Signature :=
  (find t).bind fun surface => (surface.propertyNamed? property).bind (surface.accessor? · kind isStatic)

end Resolver

section

variable {find : Resolver} {t : TypeRef}

theorem fieldNamed?_eq_some {name : Bytes} {d : FieldDecl} :
    find.fieldNamed? t name = some d ↔ ∃ surface, find t = some surface ∧ surface.fieldNamed? name = some d :=
  Option.bind_eq_some_iff

/-- What serves as an accessor has the name that the property gives, and parameters as its kind takes them. -/
theorem isAccessor_iff {p : PropertyDecl} {kind : Accessor} {isStatic : Bool} {s : Signature} :
    p.isAccessor kind isStatic s = true ↔
      p.accessorName? kind = some s.name ∧ s.parameters.length = kind.arity ∧ s.isStatic = isStatic := by
  simp only [PropertyDecl.isAccessor, Bool.and_eq_true, beq_iff_eq, and_assoc]

/-- An accessor that is found is a method of the type, and a property of the type says that it is its accessor. -/
theorem accessorNamed?_spec {property : Bytes} {kind : Accessor} {isStatic : Bool} {s : Signature}
    (h : find.accessorNamed? t property kind isStatic = some s) :
    ∃ surface p, find t = some surface ∧ p ∈ surface.properties ∧ s ∈ surface.methods ∧
      p.isAccessor kind isStatic s = true := by
  obtain ⟨surface, hsurface, h⟩ := Option.bind_eq_some_iff.mp h
  obtain ⟨p, hp, hs⟩ := Option.bind_eq_some_iff.mp h
  exact ⟨surface, p, hsurface, List.mem_of_find?_eq_some hp, List.mem_of_find?_eq_some hs, List.find?_some hs⟩

end

/-! ## Operands -/

section

variable {i : Instruction}

/-- An operand that passes for a field reference is one. -/
theorem filter_field?_eq_some {p : FieldRef → Bool} {r : FieldRef} :
    i.field?.filter p = some r ↔ i.operand = .field r ∧ p r = true := by
  have hfield : i.field? = some r ↔ i.operand = .field r := by
    unfold Instruction.field?
    cases i.operand <;> simp
  rw [Option.filter_eq_some_iff, hfield]

/-- An operand that passes for a method reference is one. -/
theorem filter_method?_eq_some {p : MethodRef → Bool} {r : MethodRef} :
    i.method?.filter p = some r ↔ i.operand = .method r ∧ p r = true := by
  have hmethod : i.method? = some r ↔ i.operand = .method r := by
    unfold Instruction.method?
    cases i.operand <;> simp
  rw [Option.filter_eq_some_iff, hmethod]

end

/-! ## Rules for fields and properties -/

namespace Rule

variable {find : Resolver} {i : Instruction} {rep : Replacement}

/-- What is taken for an accessor by its name has as many parameters as one of its kind. -/
theorem length_of_accessorOf? {property : Bytes} {r : MethodRef} {kind : Accessor}
    (h : accessorOf? property r = some kind) : r.parameters.length = kind.arity := by
  unfold accessorOf? at h
  split at h
  · next hgetter =>
      cases h
      rw [hgetter.2]
      rfl
  · split at h
    · next hsetter =>
        cases h
        exact hsetter.2
    · cases h

/-- A field has become a property. -/
theorem fieldToProperty_iff {source target : TypeRef} {field property : Bytes} :
    fieldToPropertyReplacement source field target property find i = some rep ↔
      ∃ r kind s, i.operand = .field r ∧ r.declaringType = source ∧ r.name = field ∧
        i.opcode.accessor? = some kind ∧ (i.opcode.isStaticAccess = true ∨ target = source) ∧
        find.accessorNamed? target property kind i.opcode.isStaticAccess = some s ∧
        toCall (s.refOn target) (propertyPhrase source field target property) = rep := by
  simp only [fieldToPropertyReplacement, Option.bind_eq_bind, Option.bind_eq_some_iff, filter_field?_eq_some,
    Resolver.accessorNamed?, Bool.and_eq_true, beq_iff_eq]
  constructor
  -- The rule finds the property before it looks at the receiver; the two searches together are `accessorNamed?`.
  · rintro ⟨r, ⟨hoperand, htype, hname⟩, kind, hkind, surface, hsurface, p, hp, h⟩
    split at h
    · next hfits =>
        obtain ⟨s, hs, h⟩ := Option.bind_eq_some_iff.mp h
        have hfits : i.opcode.isStaticAccess = true ∨ target = source := by simpa using hfits
        exact ⟨r, kind, s, hoperand, htype, hname, hkind, hfits, ⟨surface, hsurface, p, hp, hs⟩, Option.some.inj h⟩
    · cases h
  · rintro ⟨r, kind, s, hoperand, htype, hname, hkind, hfits, ⟨surface, hsurface, p, hp, hs⟩, rfl⟩
    refine ⟨r, ⟨hoperand, htype, hname⟩, kind, hkind, surface, hsurface, p, hp, ?_⟩
    rw [if_pos (by simpa using hfits), hs]
    rfl

/-- A field has another name. -/
theorem fieldRename_iff {type : TypeRef} {old new : Bytes} :
    fieldRenameReplacement type old new find i = some rep ↔
      ∃ r d, i.operand = .field r ∧ r.declaringType = type ∧ r.name = old ∧ find.fieldNamed? type new = some d ∧
        d.isLiteral = false ∧ d.isStatic = i.opcode.isStaticAccess ∧
        toField i.opcode (d.refOn type) (simple type old ++ remark (ascii "field => " ++ new)) = rep := by
  simp only [fieldRenameReplacement, Option.bind_eq_bind, Option.bind_eq_some_iff, filter_field?_eq_some,
    Resolver.fieldNamed?, Bool.and_eq_true, beq_iff_eq]
  constructor
  · rintro ⟨r, ⟨hoperand, htype, hname⟩, surface, hsurface, d, hd, h⟩
    split at h
    · cases h
    · next hfits =>
        have hfits : d.isLiteral = false ∧ d.isStatic = i.opcode.isStaticAccess := by simpa using hfits
        exact ⟨r, d, hoperand, htype, hname, ⟨surface, hsurface, hd⟩, hfits.1, hfits.2, Option.some.inj h⟩
  · rintro ⟨r, d, hoperand, htype, hname, ⟨surface, hsurface, hd⟩, hstorage, hstatic, rfl⟩
    refine ⟨r, ⟨hoperand, htype, hname⟩, surface, hsurface, d, hd, ?_⟩
    rw [if_neg (by simp [hstorage, hstatic])]
    rfl

/-- A property has become a field. -/
theorem propertyToField_iff {type : TypeRef} {property field : Bytes} :
    propertyToFieldReplacement type property field find i = some rep ↔
      ∃ r kind d, i.operand = .method r ∧ r.declaringType = type ∧ i.opcode.isCall = true ∧
        accessorOf? property r = some kind ∧ find.fieldNamed? type field = some d ∧
        d.isLiteral = false ∧ d.isStatic = !r.hasThis ∧
        toField (accessOpcode kind d.isStatic) (d.refOn type)
          (simple type property ++ remark (ascii "property => field")) = rep := by
  simp only [propertyToFieldReplacement, Option.bind_eq_bind, Option.bind_eq_some_iff, filter_method?_eq_some,
    Resolver.fieldNamed?, Bool.and_eq_true, beq_iff_eq]
  constructor
  · rintro ⟨r, ⟨hoperand, htype, hcall⟩, kind, hkind, surface, hsurface, d, hd, h⟩
    split at h
    · cases h
    · next hfits =>
        have hfits : d.isLiteral = false ∧ d.isStatic ≠ r.hasThis := by simpa using hfits
        exact ⟨r, kind, d, hoperand, htype, hcall, hkind, ⟨surface, hsurface, hd⟩, hfits.1, Bool.eq_not.mpr hfits.2,
          Option.some.inj h⟩
  · rintro ⟨r, kind, d, hoperand, htype, hcall, hkind, ⟨surface, hsurface, hd⟩, hstorage, hstatic, rfl⟩
    refine ⟨r, ⟨hoperand, htype, hcall⟩, kind, hkind, surface, hsurface, d, hd, ?_⟩
    rw [if_neg (by simp [hstorage, hstatic])]
    rfl

/-- A field of a watched type cannot be found. -/
theorem heuristic_iff {scopes : List Bytes} :
    heuristicReplacement scopes find i = some rep ↔
      ∃ r kind s, i.operand = .field r ∧ watched scopes r.declaringType = true ∧ find.field? r = none ∧
        i.opcode.accessor? = some kind ∧
        find.accessorNamed? r.declaringType r.name kind i.opcode.isStaticAccess = some s ∧
        toCall (s.refOn r.declaringType)
          (simple r.declaringType r.name ++ remark (ascii "field => property")) = rep := by
  simp only [heuristicReplacement, Option.bind_eq_bind, Option.bind_eq_some_iff, filter_field?_eq_some,
    Resolver.accessorNamed?, Bool.and_eq_true, Option.isNone_iff_eq_none]
  constructor
  · rintro ⟨r, ⟨hoperand, hwatched, hlost⟩, surface, hsurface, p, hp, kind, hkind, s, hs, h⟩
    exact ⟨r, kind, s, hoperand, hwatched, hlost, hkind, ⟨surface, hsurface, p, hp, hs⟩, Option.some.inj h⟩
  · rintro ⟨r, kind, s, hoperand, hwatched, hlost, hkind, ⟨surface, hsurface, p, hp, hs⟩, rfl⟩
    exact ⟨r, ⟨hoperand, hwatched, hlost⟩, surface, hsurface, p, hp, kind, hkind, s, hs, rfl⟩

/-! ## The rule for types -/

/-- Some type that is mentioned has moved, and the target takes the place of every such type. -/
theorem typeMove_iff {fullName : Bytes} {target : TypeRef} :
    typeMoveReplacement fullName target i = some rep ↔
      i.operand.types.any (isStale fullName target) = true ∧
        ⟨⟨i.opcode, i.operand.mapTypes (moved fullName target)⟩,
          .type target :: operandImports (i.operand.mapTypes (moved fullName target)),
          fullName ++ ascii " type" ++ remark (ascii "=> " ++ target.fullName)⟩ = rep := by
  unfold typeMoveReplacement
  by_cases hstale : i.operand.types.any (isStale fullName target) = true
  · rw [if_pos hstale, Option.some.injEq]
    exact (and_iff_right hstale).symm
  · rw [if_neg hstale]
    exact iff_of_false nofun fun h => hstale h.1

/-! ## Rules for methods -/

/-- A method has moved, and the target declares one that the same reference names. -/
theorem methodParent_iff {source target : TypeRef} :
    methodParentReplacement source target find i = some rep ↔
      ∃ r s, i.operand = .method r ∧ r.declaringType = source ∧
        find.method? { r with declaringType := target } = some s ∧
        ⟨⟨i.opcode, .method (s.refOn target)⟩, [.method (s.refOn target)],
          simple source r.name ++ remark (ascii "=> " ++ target.name)⟩ = rep := by
  simp only [methodParentReplacement, Option.bind_eq_bind, Option.bind_eq_some_iff, filter_method?_eq_some, beq_iff_eq]
  constructor
  · rintro ⟨r, ⟨hoperand, htype⟩, s, hs, h⟩
    exact ⟨r, s, hoperand, htype, hs, Option.some.inj h⟩
  · rintro ⟨r, s, hoperand, htype, hs, rfl⟩
    exact ⟨r, ⟨hoperand, htype⟩, s, hs, rfl⟩

/-- A method has moved: name, parameters, receiver and return type stay. -/
theorem methodParent_spec {source target : TypeRef} (h : methodParentReplacement source target find i = some rep) :
    ∃ r surface s, i.operand = .method r ∧ find target = some surface ∧ s ∈ surface.methods ∧
      s.refOn target = { r with declaringType := target } ∧
      rep = ⟨⟨i.opcode, .method (s.refOn target)⟩, [.method (s.refOn target)],
        simple source r.name ++ remark (ascii "=> " ++ target.name)⟩ := by
  obtain ⟨r, s, hoperand, -, hs, hrep⟩ := methodParent_iff.mp h
  obtain ⟨surface, hsurface, hs⟩ := Option.bind_eq_some_iff.mp hs
  have hnames : MethodRef.names { r with declaringType := target } s = true := List.find?_some hs
  have hsame : s.refOn target = { r with declaringType := target } := MethodRef.refOn_of_names hnames
  exact ⟨r, surface, s, hoperand, hsurface, List.mem_of_find?_eq_some hs, hsame, hrep.symm⟩

/-- An instance method has become a static one, which takes the receiver first. -/
theorem methodToStatic_spec {source target : TypeRef} {method shim : Bytes} {arity : Option Nat}
    (h : methodToStaticReplacement source method arity target shim find i = some rep) :
    ∃ r surface s, i.operand = .method r ∧ i.opcode.isCall = true ∧ r.hasThis = true ∧ find target = some surface ∧
      s ∈ surface.methods ∧ s.isStatic = true ∧ s.parameters = source :: r.parameters ∧ s.returnType = r.returnType ∧
      rep = toCall (s.refOn target) (simple source method ++ remark (ascii "=> " ++ simple target shim)) := by
  simp only [methodToStaticReplacement, Option.bind_eq_bind, Option.bind_eq_some_iff, filter_method?_eq_some,
    Bool.and_eq_true] at h
  obtain ⟨r, ⟨hoperand, ⟨⟨⟨hcall, hthis⟩, -⟩, -⟩, -⟩, surface, hsurface, s, hs, h⟩ := h
  have hshim : isShim source shim r s = true := List.find?_some hs
  simp only [isShim, Bool.and_eq_true, beq_iff_eq] at hshim
  obtain ⟨⟨⟨-, hstatic⟩, hparameters⟩, hreturn⟩ := hshim
  exact ⟨r, surface, s, hoperand, hcall, hthis, hsurface, List.mem_of_find?_eq_some hs, hstatic, hparameters, hreturn,
    (Option.some.inj h).symm⟩

end Rule

end ModRepair
