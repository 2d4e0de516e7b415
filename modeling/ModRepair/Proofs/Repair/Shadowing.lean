import ModRepair.Proofs.Repair.Agreement
import ModRepair.Proofs.Repair.Rejection

/-!
# Shadowed fields

A type may declare several fields of one name. The resolver looks for a field by name and type and so finds any of them;
the two finders that check references stop at the first field of the name. A field that another of its name stands
before is *shadowed*: references to it resolve, and one of the finders raises a false alarm all the same.

* `missingMember_iff_of_first`, `unexpectedType_iff_of_first` — **what the finders say of a field reference**, by the
  first field of the name;
* `fieldNamed?_eq_or` — the first field of the name, where the resolver finds one: one that stands before, or that;
* `false_alarm_iff_shadowed` — a reference that resolves to a field with storage is flagged exactly if the field is
  shadowed;
* `false_alarms` — both finders do so;
* `rejected_of_shadowed` — **what a false alarm costs**: the module is rejected.
-/

namespace ModRepair

section

variable {find : Resolver} {scopes : List Bytes} {i : Instruction} {r : FieldRef} {s : Surface} {first d : FieldDecl}

/-! ## The finders and the first field of a name -/

/-- The first finder flags a field reference to a watched type if the first field of the name has no storage. -/
theorem missingMember_iff_of_first (hi : i.operand = .field r) (hwatched : watched scopes r.declaringType = true)
    (hs : find r.declaringType = some s) (hfirst : s.fieldNamed? r.name = some first) :
    ((Finder.missingMember scopes).finding? find i).isSome ↔ first.isLiteral = true := by
  have hpresent : Present find (.field r) ↔ first.isLiteral = false := by
    simp [Present, hs, hfirst]
  rw [missingMember_isSome_iff, hi, hpresent]
  simp [Operand.subject?, hwatched]

/-- The second finder flags it if the first field of the name has storage and another type. -/
theorem unexpectedType_iff_of_first (hi : i.operand = .field r) (hwatched : watched scopes r.declaringType = true)
    (hs : find r.declaringType = some s) (hfirst : s.fieldNamed? r.name = some first) :
    ((Finder.unexpectedType scopes).finding? find i).isSome ↔ first.isLiteral = false ∧ first.type ≠ r.fieldType := by
  have hmismatched : Mismatched find (.field r) ↔ first.isLiteral = false ∧ first.type ≠ r.fieldType := by
    simp [Mismatched, hs, hfirst]
  rw [unexpectedType_isSome_iff, hi, hmismatched]
  simp [Operand.subject?, hwatched]

/-- One of the finders flags it if the first field of the name has no storage or another type. -/
theorem flagged_iff_of_first (hi : i.operand = .field r) (hwatched : watched scopes r.declaringType = true)
    (hs : find r.declaringType = some s) (hfirst : s.fieldNamed? r.name = some first) :
    flagged scopes find i ↔ first.isLiteral = true ∨ first.type ≠ r.fieldType := by
  rw [flagged, missingMember_iff_of_first hi hwatched hs hfirst, unexpectedType_iff_of_first hi hwatched hs hfirst]
  cases first.isLiteral with
  | true => simp
  | false => simp

/-! ## The first field of a name and the one that resolves -/

/-- Where the resolver finds a field, the first of its name is one that stands before it, or it itself. -/
theorem fieldNamed?_eq_or {before after : List FieldDecl} (hfields : s.fields = before ++ d :: after)
    (hd : r.names d = true) : s.fieldNamed? r.name = (before.find? (·.name == r.name)).or (some d) := by
  have hname : (d.name == r.name) = true := beq_iff_eq.mpr (FieldRef.names_iff.mp hd).1
  rw [Surface.fieldNamed?, hfields, List.find?_append, List.find?_cons, hname]

/-- **A false alarm is a matter of order.** A field with storage that the resolver finds is flagged exactly if another
    of its name stands before it. -/
theorem flagged_iff_of_split {before after : List FieldDecl} (hi : i.operand = .field r)
    (hwatched : watched scopes r.declaringType = true) (hs : find r.declaringType = some s)
    (hfields : s.fields = before ++ d :: after) (hd : r.names d = true) (hbefore : ∀ e ∈ before, r.names e = false)
    (hstorage : d.isLiteral = false) : flagged scopes find i ↔ ∃ e ∈ before, e.name = r.name := by
  have hnamed := fieldNamed?_eq_or hfields hd
  obtain ⟨-, htype⟩ := FieldRef.names_iff.mp hd
  cases hshadow : before.find? (·.name == r.name) with
  | none =>
      -- Nothing of the name stands before it, so it is what the finders look at.
      rw [hshadow, Option.none_or] at hnamed
      have hnone : ¬ ∃ e ∈ before, e.name = r.name := by simpa using hshadow
      rw [flagged_iff_of_first hi hwatched hs hnamed]
      simp only [hstorage, htype, hnone]
      simp
  | some e =>
      -- What stands before it has the name, so it cannot have the type as well.
      rw [hshadow, Option.some_or] at hnamed
      have he : e ∈ before := List.mem_of_find?_eq_some hshadow
      have hname : e.name = r.name := by simpa using List.find?_some hshadow
      have hother : e.type ≠ r.fieldType := by
        intro hsame
        have hnames : r.names e = true := FieldRef.names_iff.mpr ⟨hname, hsame⟩
        rw [hbefore e he] at hnames
        cases hnames
      rw [flagged_iff_of_first hi hwatched hs hnamed]
      exact iff_of_true (.inr hother) ⟨e, he, hname⟩

end

/-- **When a field that resolves is flagged.** Let a field reference to a watched type resolve, in any module, to a
    field with storage, and let `before` be the fields that stand before that one. A finder flags an instruction with
    this operand exactly if one of those has the same name: the first finder if the first field of the name is a
    literal, the second if it has storage and is another. -/
theorem false_alarm_iff_shadowed (m : Module) (scopes : List Bytes) {i : Instruction} {r : FieldRef} {d : FieldDecl}
    (hi : i.operand = .field r) (hwatched : watched scopes r.declaringType = true)
    (hd : m.resolver.field? r = some d) (hstorage : d.isLiteral = false) :
    ∃ s before after first, m.resolver r.declaringType = some s ∧ s.fields = before ++ d :: after ∧
      (∀ e ∈ before, r.names e = false) ∧ s.fieldNamed? r.name = some first ∧
      (flagged scopes m.resolver i ↔ ∃ e ∈ before, e.name = r.name) ∧
      (((Finder.missingMember scopes).finding? m.resolver i).isSome ↔ first.isLiteral = true) ∧
      (((Finder.unexpectedType scopes).finding? m.resolver i).isSome ↔ first.isLiteral = false ∧ first ≠ d) := by
  obtain ⟨s, hs, hfound⟩ := Option.bind_eq_some_iff.mp hd
  obtain ⟨hnames, before, after, hfields, hbefore⟩ := List.find?_eq_some_iff_append.mp hfound
  have hbefore : ∀ e ∈ before, r.names e = false := by simpa using hbefore
  obtain ⟨first, hfirst⟩ : ∃ first, s.fieldNamed? r.name = some first := by
    rw [fieldNamed?_eq_or hfields hnames]
    cases before.find? (·.name == r.name) with
    | none => exact ⟨d, rfl⟩
    | some e => exact ⟨e, rfl⟩
  refine ⟨s, before, after, first, hs, hfields, hbefore, hfirst, ?_, ?_, ?_⟩
  · exact flagged_iff_of_split hi hwatched hs hfields hnames hbefore hstorage
  · exact missingMember_iff_of_first hi hwatched hs hfirst
  · rw [unexpectedType_iff_of_first hi hwatched hs hfirst]
    -- The first of the name has the type of the reference exactly if it is the one that resolves.
    have hsame : first.type = r.fieldType ↔ first = d := by
      constructor
      · intro htype
        have hfound' : s.field? r = some first := Surface.field?_of_fieldNamed? hfirst htype
        exact Option.some.inj (hfound'.symm.trans hfound)
      · rintro rfl
        exact (FieldRef.names_iff.mp hnames).2
    rw [ne_eq, hsame]

namespace Sample

/-- A reference to a static field of `D` that is a number. -/
def numberOfD (name : Bytes) : FieldRef :=
  ⟨⟨ascii "Host", ascii "D"⟩, name, int32⟩

/-- A module without instructions; `D` has two static fields of each of the names `v` and `k`, of which the second is a
    number. The first of the name `k` is a literal. -/
def shadowingModule : Module :=
  let string : TypeRef := ⟨ascii "Runtime", ascii "String"⟩
  ⟨ascii "Mod", some ⟨[⟨ascii "Host", [⟨ascii "D",
    [⟨ascii "v", string, true, false⟩, ⟨ascii "v", int32, true, false⟩,
      ⟨ascii "k", string, true, true⟩, ⟨ascii "k", int32, true, false⟩], [], [], []⟩]⟩]⟩, [], .empty⟩

end Sample

/-- The first `v` is no number, so it is the second that resolves: the second finder flags a load of it, and a field of
    the name stands before. -/
theorem false_alarm_iff_shadowed_sample :
    let find := Sample.shadowingModule.resolver
    let r := Sample.numberOfD (ascii "v")
    let d : FieldDecl := ⟨ascii "v", Sample.int32, true, false⟩
    find.field? r = some d ∧ ((Finder.unexpectedType [ascii "Host"]).finding? find ⟨.ldsfld, .field r⟩).isSome ∧
      ∃ s before after, find r.declaringType = some s ∧ s.fields = before ++ d :: after ∧
        ∃ e ∈ before, e.name = ascii "v" := by
  intro find r d
  have hd : find.field? r = some d := rfl
  obtain ⟨s, before, after, first, hs, hfields, -, hfirst, hflagged, -, hunexpected⟩ :=
    false_alarm_iff_shadowed Sample.shadowingModule [ascii "Host"] (i := ⟨.ldsfld, .field r⟩) rfl rfl hd rfl
  have halarm : ((Finder.unexpectedType [ascii "Host"]).finding? find ⟨.ldsfld, .field r⟩).isSome := by
    cases hs
    cases hfirst
    exact hunexpected.mpr (by decide)
  exact ⟨hd, halarm, s, before, after, hs, hfields, hflagged.mp (.inr halarm)⟩

/-- **Both finders raise false alarms**: a load of `v` and a load of `k` resolve to fields with storage, and each is
    flagged by one of the finders. -/
theorem false_alarms :
    let find := Sample.shadowingModule.resolver
    (∃ d, find.field? (Sample.numberOfD (ascii "v")) = some d ∧ d.isLiteral = false ∧
        ((Finder.unexpectedType [ascii "Host"]).finding? find
          ⟨.ldsfld, .field (Sample.numberOfD (ascii "v"))⟩).isSome) ∧
      ∃ d, find.field? (Sample.numberOfD (ascii "k")) = some d ∧ d.isLiteral = false ∧
        ((Finder.missingMember [ascii "Host"]).finding? find
          ⟨.ldsfld, .field (Sample.numberOfD (ascii "k"))⟩).isSome :=
  ⟨⟨_, rfl, rfl, rfl⟩, ⟨_, rfl, rfl, rfl⟩⟩

/-! ## What a false alarm costs -/

section

variable {options : RepairOptions} {p : Profile} {m : Module} {i : Instruction}

/-- **A module is rejected for a field that resolves**, if the field is shadowed and no rule of the profile claims the
    access to it. -/
theorem rejected_of_shadowed {r : FieldRef} {d e : FieldDecl} {s : Surface} {before after : List FieldDecl}
    (hmem : i ∈ m.instructions) (hrules : ∀ h ∈ Registry.rules options p, (h.offer m.resolver i).passes)
    (hi : i.operand = .field r) (hwatched : watched p.watchedScopes r.declaringType = true)
    (hs : m.resolver r.declaringType = some s) (hfields : s.fields = before ++ d :: after) (hd : r.names d = true)
    (hbefore : ∀ e ∈ before, r.names e = false) (hstorage : d.isLiteral = false) (he : e ∈ before)
    (hname : e.name = r.name) :
    ∃ report, ((Registry.ofProfile options p).repair m).report = .ok report ∧ report.disposition = .reject := by
  have hflagged : flagged p.watchedScopes m.resolver i :=
    (flagged_iff_of_split hi hwatched hs hfields hd hbefore hstorage).mpr ⟨e, he, hname⟩
  have hadded : ∀ e ∈ ([] : List Registration), ¬ e.handler.MayAbort := nofun
  exact rejected_of_flagged options p hadded hmem hrules hflagged

end

end ModRepair
