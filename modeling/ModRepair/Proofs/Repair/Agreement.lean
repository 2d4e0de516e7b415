import ModRepair.Proofs.Repair.Table

/-!
# Finders and the resolver

The two finders that check references search the declarations of a type by name alone, or by name, parameters and
receiver; the resolver searches the same declarations by the whole reference. This file says how what they flag goes
with what resolves.

* `finds_type_iff`, `finds_method_iff`, `Present.field?`, `Present.of_property?` — what is present and not mismatched
  against what resolves, kind by kind;
* `finders_agree` — both finders together, for an instruction of any module.
-/

namespace ModRepair

/-! ## What resolves

A type or a method is found exactly if it is present and not mismatched. For a field one direction is left, since
the first of its name may hide one that would be found; for a property the other, since only the name is looked at. -/

section

variable {find : Resolver}

/-- A type is found if it is present. -/
theorem finds_type_iff {r : TypeRef} :
    (find r).isSome ↔ Present find (.type r) ∧ ¬ Mismatched find (.type r) := by
  simp only [Present, Mismatched, Option.isSome_iff_exists, not_false_eq_true, and_true]

/-- A method is named by what fits it and returns its type. -/
theorem MethodRef.fits_of_names {r : MethodRef} {d : Signature} (h : r.names d = true) : r.fits d = true := by
  unfold MethodRef.names at h
  rw [Bool.and_eq_true] at h
  exact h.1

/-- A method is found if one of its parameters and receiver is there, and one of those has its return type. -/
theorem finds_method_iff {r : MethodRef} :
    (find.method? r).isSome ↔ Present find (.method r) ∧ ¬ Mismatched find (.method r) := by
  have hfound : (find.method? r).isSome ↔ ∃ s, find r.declaringType = some s ∧ ∃ d ∈ s.methods, r.names d = true := by
    unfold Resolver.method?
    cases find r.declaringType with
    | none => simp
    | some s => simp [Surface.method?, List.find?_isSome]
  rw [hfound]
  constructor
  · rintro ⟨s, hs, d, hd, hnames⟩
    refine ⟨⟨s, hs, d, hd, MethodRef.fits_of_names hnames⟩, ?_⟩
    rintro ⟨s', hs', -, hnone⟩
    have heq : s = s' := Option.some.inj (hs.symm.trans hs')
    subst heq
    rw [hnone d hd] at hnames
    cases hnames
  · rintro ⟨⟨s, hs, hfits⟩, hmatched⟩
    by_cases hnamed : ∃ d ∈ s.methods, r.names d = true
    · exact ⟨s, hs, hnamed⟩
    · have hnone : ∀ d ∈ s.methods, r.names d = false := by simpa using hnamed
      exact absurd ⟨s, hs, hfits, hnone⟩ hmatched

/-- A field that is present and not mismatched is found, and has storage. -/
theorem Present.field? {r : FieldRef} (h : Present find (.field r)) (hmatched : ¬ Mismatched find (.field r)) :
    ∃ d, find.field? r = some d ∧ d.isLiteral = false := by
  obtain ⟨s, d, hs, hd, hstorage⟩ := h
  by_cases htype : d.type = r.fieldType
  · refine ⟨d, ?_, hstorage⟩
    unfold Resolver.field?
    rw [hs]
    exact Surface.field?_of_fieldNamed? hd htype
  · exact absurd ⟨s, d, hs, hd, hstorage, htype⟩ hmatched

/-- A property that is found is present: the first of its name need not be the one found. -/
theorem Present.of_property? {r : PropertyRef} (h : (find.property? r).isSome) : Present find (.property r) := by
  obtain ⟨p, hp⟩ := Option.isSome_iff_exists.mp h
  obtain ⟨s, hs, hp⟩ := Option.bind_eq_some_iff.mp hp
  have hnamed : (s.propertyNamed? r.name).isSome := by
    have hnames : r.names p = true := List.find?_some hp
    unfold PropertyRef.names at hnames
    rw [Bool.and_eq_true] at hnames
    exact List.find?_isSome.mpr ⟨p, List.mem_of_find?_eq_some hp, hnames.1⟩
  obtain ⟨d, hd⟩ := Option.isSome_iff_exists.mp hnamed
  exact ⟨s, d, hs, hd⟩

end

/-- **The finders agree with the resolver.** For an instruction of any module and any watched scopes: not both finders
    flag it; neither does if the type it refers to is not watched. Of a watched type, a type and a method are left alone
    exactly if they resolve; a field that is left alone resolves, to one with storage; and a property that resolves is
    left alone. -/
theorem finders_agree (m : Module) (scopes : List Bytes) (i : Instruction) :
    ¬ (((Finder.missingMember scopes).finding? m.resolver i).isSome ∧
        ((Finder.unexpectedType scopes).finding? m.resolver i).isSome) ∧
      ∀ t, i.operand.subject? = some t →
        (watched scopes t = false → ¬ flagged scopes m.resolver i) ∧
          (watched scopes t = true →
            (∀ r, i.operand = .type r → (¬ flagged scopes m.resolver i ↔ (m.type? r).isSome)) ∧
              (∀ r, i.operand = .method r → (¬ flagged scopes m.resolver i ↔ (m.resolver.method? r).isSome)) ∧
                (∀ r, i.operand = .field r → ¬ flagged scopes m.resolver i →
                  ∃ d, m.resolver.field? r = some d ∧ d.isLiteral = false) ∧
                  ∀ r, i.operand = .property r → (m.resolver.property? r).isSome → ¬ flagged scopes m.resolver i) := by
  constructor
  · rintro ⟨hmissing, hunexpected⟩
    obtain ⟨t, -, -, habsent⟩ := missingMember_isSome_iff.mp hmissing
    obtain ⟨-, -, -, hmismatched⟩ := unexpectedType_isSome_iff.mp hunexpected
    exact habsent hmismatched.present
  · intro t ht
    constructor
    · intro hwatched
      rw [not_flagged_iff]
      exact findings_of_unwatched ht hwatched
    · intro hwatched
      rw [not_flagged_iff_of_watched ht hwatched]
      refine ⟨?_, ?_, ?_, ?_⟩
      · intro r hr
        have hresolved : (m.type? r).isSome ↔ (m.resolver r).isSome := by simp [Module.resolver]
        rw [hr, hresolved, finds_type_iff]
      · intro r hr
        rw [hr, finds_method_iff]
      · rintro r hr ⟨hpresent, hmatched⟩
        rw [hr] at hpresent hmatched
        exact hpresent.field? hmatched
      · intro r hr hfound
        rw [hr]
        exact ⟨Present.of_property? hfound, fun h => h⟩

/-- The call of a getter that is there resolves and is left alone; the load of a field that has gone is flagged, and
    only by the first finder. -/
theorem finders_agree_sample :
    let m := Sample.moduleOf [Sample.callGetP, Sample.loadF]
    ¬ flagged [ascii "Host"] m.resolver Sample.callGetP ∧ flagged [ascii "Host"] m.resolver Sample.loadF ∧
      ¬ ((Finder.unexpectedType [ascii "Host"]).finding? m.resolver Sample.loadF).isSome := by
  intro m
  have hcall := ((finders_agree m [ascii "Host"] Sample.callGetP).2 Sample.typeB rfl).2 rfl
  have hflagged : ((Finder.missingMember [ascii "Host"]).finding? m.resolver Sample.loadF).isSome := rfl
  refine ⟨(hcall.2.1 _ rfl).mpr rfl, .inl hflagged, fun hunexpected => ?_⟩
  exact (finders_agree m [ascii "Host"] Sample.loadF).1 ⟨hflagged, hunexpected⟩

end ModRepair
