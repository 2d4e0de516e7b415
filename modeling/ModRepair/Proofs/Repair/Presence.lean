import ModRepair.Repair.Finder

/-!
# What the finders look for

The two finders that check references search the declarations of a type by themselves: by name alone, or by name,
parameters and receiver. This file says without finders what each of them flags.

* `Present`, `Mismatched` — what the finders look for, on the declarations that a type has;
* `missingMember_isSome_iff` — the first finder flags what is not `Present`;
* `unexpectedType_isSome_iff` — the second flags what is `Mismatched`, and that is always present;
* `flagged` — both together.
-/

namespace ModRepair

/-! ## What the finders look for -/

/-- The type of a reference is there, and so is its member as far as the first finder looks: the first field of the
    name has storage, a method has the parameters and the receiver, a property has the name. -/
def Present (find : Resolver) : Operand → Prop
  | .none => True
  | .type r => ∃ s, find r = some s
  | .field r => ∃ s d, find r.declaringType = some s ∧ s.fieldNamed? r.name = some d ∧ d.isLiteral = false
  | .method r => ∃ s, find r.declaringType = some s ∧ ∃ d ∈ s.methods, r.fits d = true
  | .property r => ∃ s d, find r.declaringType = some s ∧ s.propertyNamed? r.name = some d

/-- A member is there with another type than the reference says: the first field of the name has storage, of another
    type, or methods have the parameters and the receiver, and none of them the return type. -/
def Mismatched (find : Resolver) : Operand → Prop
  | .field r =>
    ∃ s d, find r.declaringType = some s ∧ s.fieldNamed? r.name = some d ∧ d.isLiteral = false ∧ d.type ≠ r.fieldType
  | .method r =>
    ∃ s, find r.declaringType = some s ∧ (∃ d ∈ s.methods, r.fits d = true) ∧ ∀ d ∈ s.methods, r.names d = false
  | _ => False

section

variable {find : Resolver} {scopes : List Bytes} {i : Instruction} {o : Operand}

/-- **What has another type is there.** -/
theorem Mismatched.present (h : Mismatched find o) : Present find o := by
  cases o with
  | field r =>
      obtain ⟨s, d, hs, hd, hstorage, -⟩ := h
      exact ⟨s, d, hs, hd, hstorage⟩
  | method r =>
      obtain ⟨s, hs, hfits, -⟩ := h
      exact ⟨s, hs, hfits⟩
  | none => cases h
  | type r => cases h
  | property r => cases h

/-! ## The first finder -/

/-- The finder has nothing to say about a member if the type is there and declares it. -/
theorem missingOn_eq_none_iff {t : TypeRef} {name : Bytes} {noun : String} {declares : Surface → Bool} :
    Finder.missingOn find t name noun declares = none ↔ ∃ s, find t = some s ∧ declares s = true := by
  unfold Finder.missingOn
  cases ht : find t with
  | none => simp
  | some s =>
      by_cases hs : declares s = true
      · simp [hs]
      · simp [hs]

/-- The finder has nothing to say about a reference to a watched type if and only if it is present. -/
theorem missingFinding_eq_none_iff {t : TypeRef} (ht : i.operand.subject? = some t)
    (hwatched : watched scopes t = true) :
    Finder.missingFinding scopes find i = none ↔ Present find i.operand := by
  obtain ⟨opcode, o⟩ := i
  cases o with
  | none => cases ht
  | type r =>
      cases ht
      simp only [Finder.missingFinding, Operand.subject?, hwatched, if_true, Present]
      rw [← Option.isSome_iff_exists]
      by_cases hfound : (find t).isSome = true
      · simp [hfound]
      · simp [hfound]
  | field r =>
      cases ht
      simp only [Finder.missingFinding, Operand.subject?, hwatched, if_true, missingOn_eq_none_iff, Present]
      -- The test on the surface asks for a first field of the name, and for its storage.
      refine exists_congr fun s => ?_
      cases hd : s.fieldNamed? r.name with
      | none => simp
      | some d => simp
  | method r =>
      cases ht
      simp only [Finder.missingFinding, Operand.subject?, hwatched, if_true, missingOn_eq_none_iff, Present,
        List.any_eq_true]
  | property r =>
      cases ht
      simp only [Finder.missingFinding, Operand.subject?, hwatched, if_true, missingOn_eq_none_iff, Present,
        Option.isSome_iff_exists, exists_and_left]

/-- Neither finder looks at a reference whose type is not watched. -/
theorem findings_of_unwatched {t : TypeRef} (ht : i.operand.subject? = some t) (hwatched : watched scopes t = false) :
    Finder.missingFinding scopes find i = none ∧ Finder.unexpectedFinding scopes find i = none := by
  have hshut : ¬ watched scopes t = true := by simp [hwatched]
  constructor
  · unfold Finder.missingFinding
    rw [ht]
    exact if_neg hshut
  · obtain ⟨opcode, o⟩ := i
    cases o with
    | none => rfl
    | type r => rfl
    | property r => rfl
    | field r =>
        cases ht
        exact if_neg hshut
    | method r =>
        cases ht
        exact if_neg hshut

/-- Neither finder looks at an instruction without an operand. -/
theorem findings_of_no_subject (ht : i.operand.subject? = none) :
    Finder.missingFinding scopes find i = none ∧ Finder.unexpectedFinding scopes find i = none := by
  obtain ⟨opcode, o⟩ := i
  cases o with
  | none => exact ⟨rfl, rfl⟩
  | type r => cases ht
  | field r => cases ht
  | method r => cases ht
  | property r => cases ht

/-! ## The second finder -/

theorem fieldMismatch_isSome_iff {s : Surface} {r : FieldRef} :
    (Finder.fieldMismatch s r).isSome ↔
      ∃ d, s.fieldNamed? r.name = some d ∧ d.isLiteral = false ∧ d.type ≠ r.fieldType := by
  unfold Finder.fieldMismatch
  cases hd : s.fieldNamed? r.name with
  | none => simp
  | some d =>
      by_cases htype : d.type = r.fieldType
      · simp [htype]
      · cases hliteral : d.isLiteral with
        | true => simp [hliteral]
        | false => simp [hliteral, htype]

theorem methodMismatch_isSome_iff {s : Surface} {r : MethodRef} :
    (Finder.methodMismatch s r).isSome ↔
      (∃ d ∈ s.methods, r.fits d = true) ∧ ∀ d ∈ s.methods, r.names d = false := by
  unfold Finder.methodMismatch
  by_cases hnames : s.methods.any r.names = true
  · rw [if_pos hnames]
    obtain ⟨d, hd, hnamed⟩ := List.any_eq_true.mp hnames
    refine iff_of_false (by simp) ?_
    rintro ⟨-, hnone⟩
    rw [hnone d hd] at hnamed
    cases hnamed
  · rw [if_neg hnames, Option.isSome_map, List.find?_isSome]
    have hnone : ∀ d ∈ s.methods, r.names d = false := by simpa using hnames
    exact (and_iff_left hnone).symm

theorem unexpectedFinding_isSome_iff {t : TypeRef} (ht : i.operand.subject? = some t)
    (hwatched : watched scopes t = true) :
    (Finder.unexpectedFinding scopes find i).isSome ↔ Mismatched find i.operand := by
  obtain ⟨opcode, o⟩ := i
  cases o with
  | none => cases ht
  | type r => simp [Finder.unexpectedFinding, Mismatched]
  | property r => simp [Finder.unexpectedFinding, Mismatched]
  | field r =>
      cases ht
      simp only [Finder.unexpectedFinding, hwatched, if_true, Mismatched]
      cases hs : find r.declaringType with
      | none => simp
      | some s => simp [fieldMismatch_isSome_iff]
  | method r =>
      cases ht
      simp only [Finder.unexpectedFinding, hwatched, if_true, Mismatched]
      cases hs : find r.declaringType with
      | none => simp
      | some s => simp [methodMismatch_isSome_iff]

/-! ## Both finders -/

/-- **The first finder** flags references to watched types that are not present. -/
theorem missingMember_isSome_iff :
    ((Finder.missingMember scopes).finding? find i).isSome ↔
      ∃ t, i.operand.subject? = some t ∧ watched scopes t = true ∧ ¬ Present find i.operand := by
  show (Finder.missingFinding scopes find i).isSome ↔ _
  cases ht : i.operand.subject? with
  | none =>
      have hnone : Finder.missingFinding scopes find i = none := (findings_of_no_subject ht).1
      simp [hnone]
  | some t =>
      cases hwatched : watched scopes t with
      | false =>
          have hnone : Finder.missingFinding scopes find i = none := (findings_of_unwatched ht hwatched).1
          simp [hnone, hwatched]
      | true =>
          rw [Option.isSome_iff_ne_none, ne_eq, missingFinding_eq_none_iff ht hwatched]
          simp [hwatched]

/-- **The second finder** flags references to watched types that are mismatched. -/
theorem unexpectedType_isSome_iff :
    ((Finder.unexpectedType scopes).finding? find i).isSome ↔
      ∃ t, i.operand.subject? = some t ∧ watched scopes t = true ∧ Mismatched find i.operand := by
  show (Finder.unexpectedFinding scopes find i).isSome ↔ _
  cases ht : i.operand.subject? with
  | none =>
      have hnone : Finder.unexpectedFinding scopes find i = none := (findings_of_no_subject ht).2
      simp [hnone]
  | some t =>
      cases hwatched : watched scopes t with
      | false =>
          have hnone : Finder.unexpectedFinding scopes find i = none := (findings_of_unwatched ht hwatched).2
          simp [hnone, hwatched]
      | true =>
          rw [unexpectedFinding_isSome_iff ht hwatched]
          simp [hwatched]

/-- Whether one of the finders that check references finds something in an instruction. -/
def flagged (scopes : List Bytes) (find : Resolver) (i : Instruction) : Prop :=
  ((Finder.missingMember scopes).finding? find i).isSome ∨ ((Finder.unexpectedType scopes).finding? find i).isSome

/-- An instruction is not flagged if both finders decline it. -/
theorem not_flagged_iff :
    ¬ flagged scopes find i ↔
      (Finder.missingMember scopes).finding? find i = none ∧ (Finder.unexpectedType scopes).finding? find i = none := by
  simp only [flagged, not_or, Option.not_isSome_iff_eq_none]

/-- What is present and not mismatched is not flagged. -/
theorem not_flagged_of_present (hpresent : Present find i.operand) (hmatched : ¬ Mismatched find i.operand) :
    ¬ flagged scopes find i := by
  rw [flagged, missingMember_isSome_iff, unexpectedType_isSome_iff]
  rintro (⟨t, -, -, habsent⟩ | ⟨t, -, -, hmismatched⟩)
  · exact habsent hpresent
  · exact hmatched hmismatched

/-- A reference to a watched type is not flagged exactly if it is present and not mismatched. -/
theorem not_flagged_iff_of_watched {t : TypeRef} (ht : i.operand.subject? = some t)
    (hwatched : watched scopes t = true) :
    ¬ flagged scopes find i ↔ Present find i.operand ∧ ¬ Mismatched find i.operand := by
  rw [flagged, missingMember_isSome_iff, unexpectedType_isSome_iff]
  simp [ht, hwatched]

end

end ModRepair
