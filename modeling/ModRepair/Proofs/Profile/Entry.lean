import ModRepair.Proofs.Profile.Reading

/-!
# Entries of profiles

What a profile may say of a symbol that has moved, member by member, and what the entry then is.

* `Documented` — **the documented entries** of each kind, without a reader;
* `EntryFor` — the relocation that such an entry stands for, with the defaults for what is left out;
* `exists_readRelocation_iff`, `entryFor_of_read` — **the reader accepts these entries and no others**, and makes of them
  what they stand for, from one lemma for each part of an entry.
-/

namespace ModRepair.Profile

/-! ## Members of an entry -/

/-- A string under a key. -/
def TextAt (j : Json) (key : String) (s : Bytes) : Prop :=
  j.get? (ascii key) = some (.string s)

/-- A type reference as it is written. -/
def IsTypeText (s : Bytes) : Prop :=
  ∃ t : TypeRef, t.Written ∧ t.text = s

/-- The name of a type without a scope, which must not look like one with a scope. -/
def IsBareName (s : Bytes) : Prop :=
  s ≠ [] ∧ s.head? ≠ some Bytes.openBracket

/-- **The documented entries** of a kind. -/
structure Documented (kind : RelocationKind) (j : Json) : Prop where
  object : j.kind = .object
  kindName : TextAt j "kind" kind.name
  type : ∃ s, TextAt j "type" s ∧ (IsTypeText s ∨ kind = .typeRelocation ∧ IsBareName s)
  member : kind ∉ [.typeRelocation, .methodParent] → ∃ s, TextAt j "member" s ∧ s ≠ []
  newMember : kind ∈ [.fieldRename, .propertyToField] → ∃ s, TextAt j "to_member" s ∧ s ≠ []
  newType : ∀ v, j.get? (ascii "to_type") = some v → ∃ s, v = .string s ∧ IsTypeText s
  newTypeGiven : kind ∈ [.typeRelocation, .methodParent, .methodToStaticMethod] → j.get? (ascii "to_type") ≠ none
  parameterCount : ∀ v, j.get? (ascii "parameter_count") = some v → ∃ n : Int64, v = .integer n ∧ 0 ≤ n

/-- **The relocation that an entry stands for**: a new member that is not given is the old one, and a new type that is
not given is the old one. -/
structure EntryFor (j : Json) (r : Relocation) : Prop where
  documented : Documented r.kind j
  type : (r.type.Written ∧ TextAt j "type" r.type.text) ∨
    r.type.scope = [] ∧ IsBareName r.type.fullName ∧ TextAt j "type" r.type.fullName
  member : TextAt j "member" r.member ∨ (∀ s, ¬ TextAt j "member" s) ∧ r.member = []
  newMember : (r.newMember ≠ [] ∧ TextAt j "to_member" r.newMember) ∨
    (∀ s, TextAt j "to_member" s → s = []) ∧ r.newMember = r.member
  newType : (r.newType.Written ∧ TextAt j "to_type" r.newType.text) ∨
    j.get? (ascii "to_type") = none ∧ r.newType = r.type
  parameterCount : (∃ n : Int64, 0 ≤ n ∧ j.get? (ascii "parameter_count") = some (.integer n) ∧
      r.parameterCount = some n.toInt.toNat) ∨
    j.get? (ascii "parameter_count") = none ∧ r.parameterCount = none

/-! ## Parts of an entry -/

section

variable {j : Json} {key : String} {s : Bytes} {t type : TypeRef} {kind : RelocationKind}

theorem getString?_eq_some_iff : j.getString? (ascii key) = some s ↔ TextAt j key s := by
  unfold Json.getString? TextAt
  cases j.get? (ascii key) with
  | none => simp
  | some v => cases v <;> simp [Json.string?]

/-- A text that is not empty stands under the key. -/
theorem textAt_eq_iff (hs : s ≠ []) : textAt key j = s ↔ TextAt j key s := by
  rw [← getString?_eq_some_iff, textAt]
  cases j.getString? (ascii key) with
  | none => simp [hs.symm]
  | some u => simp

/-- The text under a key, which is empty if there is none. -/
theorem textAt_cases (j : Json) (key : String) :
    TextAt j key (textAt key j) ∨ (∀ s, ¬ TextAt j key s) ∧ textAt key j = [] := by
  simp only [← getString?_eq_some_iff, textAt]
  cases j.getString? (ascii key) with
  | none => simp
  | some u => simp

theorem exists_textAt_iff : textAt key j ≠ [] ↔ ∃ s, TextAt j key s ∧ s ≠ [] := by
  constructor
  · intro h
    exact ⟨_, (textAt_eq_iff h).mp rfl, h⟩
  · rintro ⟨s, hs, hne⟩
    rwa [(textAt_eq_iff hne).mpr hs]

theorem require_eq_ok_iff {condition : Bool} {fault : Fault} {u : Unit} :
    require condition fault = .ok u ↔ condition = true := by
  cases condition <;> simp [require]

theorem object?_isSome_iff : j.object?.isSome = true ↔ j.kind = .object := by
  cases j with
  | number n => cases n <;> simp [Json.object?, Json.kind]
  | _ => simp [Json.object?, Json.kind]

theorem ofName?_eq_some_iff {name : Bytes} : RelocationKind.ofName? name = some kind ↔ name = kind.name := by
  constructor
  · intro h
    have hfound := List.find?_some h
    simpa using (beq_iff_eq.mp hfound).symm
  · rintro rfl
    cases kind <;> decide

theorem kindAt_eq_ok_iff : kindAt "relocation" RelocationKind.ofName? j = .ok kind ↔ TextAt j "kind" kind.name := by
  have hname : kind.name ≠ [] := by cases kind <;> decide
  rw [← textAt_eq_iff hname, ← ofName?_eq_some_iff, kindAt]
  cases RelocationKind.ofName? (textAt "kind" j) with
  | none => simp
  | some k => simp

/-- A type is read from its written form, or from a bare name where that will do. -/
theorem typeAt_eq_ok_iff {scopeRequired : Bool} :
    typeAt key scopeRequired j = .ok t ↔ (t.Written ∧ TextAt j key t.text) ∨
      scopeRequired = false ∧ t.scope = [] ∧ IsBareName t.fullName ∧ TextAt j key t.fullName := by
  unfold typeAt
  constructor
  · intro h
    split at h
    · cases h
    · cases h
    next c u hu =>
    rw [getString?_eq_some_iff] at hu
    split at h
    · next t' ht' =>
        cases h
        obtain ⟨hwritten, htext⟩ := TypeRef.ofText?_eq_some_iff.mp ht'
        exact .inl ⟨hwritten, by rwa [htext]⟩
    · split at h
      · cases h
      · next hbare =>
          cases h
          obtain ⟨hscope, hbracket⟩ := not_or.mp hbare
          exact .inr ⟨by simpa using hscope, rfl, ⟨List.cons_ne_nil c u, by simpa using hbracket⟩, hu⟩
  · rintro (⟨hwritten, htext⟩ | ⟨hscope, hempty, ⟨hne, hbracket⟩, htext⟩)
    · rw [getString?_eq_some_iff.mpr htext]
      have hread := hwritten.ofText?_text
      simp only [TypeRef.text, List.cons_append] at hread ⊢
      rw [hread]
    · obtain ⟨scope, fullName⟩ := t
      obtain rfl : scope = [] := hempty
      obtain ⟨c, u, rfl⟩ := List.exists_cons_of_ne_nil hne
      have hc : c ≠ Bytes.openBracket := by simpa using hbracket
      have hread : TypeRef.ofText? (c :: u) = none := by rw [TypeRef.ofText?, if_neg hc]
      rw [getString?_eq_some_iff.mpr htext]
      simp only [hread]
      rw [if_neg (by simp [hscope, hc])]

theorem newTypeAt_eq_ok_iff :
    newTypeAt kind type j = .ok t ↔ (t.Written ∧ TextAt j "to_type" t.text) ∨
      j.get? (ascii "to_type") = none ∧ kind.needsNewType = false ∧ t = type := by
  unfold newTypeAt
  cases hget : j.get? (ascii "to_type") with
  | none =>
      have htext : ¬ TextAt j "to_type" t.text := by simp [TextAt, hget]
      cases hneeds : kind.needsNewType <;> simp [htext, eq_comm]
  | some v =>
      rw [Option.isSome_some, if_pos rfl, typeAt_eq_ok_iff]
      simp

theorem integer?_eq_some_iff {v : Json} {i : Int64} : v.integer? = some i ↔ v = .integer i := by
  cases v with
  | number m => cases m <;> simp [Json.integer?]
  | _ => simp [Json.integer?]

theorem parameterCountAt_eq_ok_iff {n : Option Nat} :
    parameterCountAt j = .ok n ↔ (∃ i : Int64, 0 ≤ i ∧ j.get? (ascii "parameter_count") = some (.integer i) ∧
        n = some i.toInt.toNat) ∨
      j.get? (ascii "parameter_count") = none ∧ n = none := by
  unfold parameterCountAt
  cases j.get? (ascii "parameter_count") with
  | none => simp [eq_comm]
  | some v =>
      simp only [Option.some.injEq, ← integer?_eq_some_iff]
      cases v.integer? with
      | none => simp
      | some i =>
          by_cases hi : i < 0
          · simp [hi, Int64.not_le.mpr hi]
          · simp [hi, Int64.not_lt.mp hi, eq_comm]

end

/-! ## Entries -/

section

variable {j : Json} {r : Relocation}

theorem needsMember_iff {kind : RelocationKind} :
    kind.needsMember = true ↔ kind ∉ [.typeRelocation, .methodParent] := by
  cases kind <;> decide

theorem needsNewMember_iff {kind : RelocationKind} :
    kind.needsNewMember = true ↔ kind ∈ [.fieldRename, .propertyToField] := by
  cases kind <;> decide

theorem needsNewType_iff {kind : RelocationKind} :
    kind.needsNewType = true ↔ kind ∈ [.typeRelocation, .methodParent, .methodToStaticMethod] := by
  cases kind <;> decide

/-- What is required of a text is that it is there where the kind needs it. -/
theorem given_iff {needs : Bool} {key : String} :
    (!needs || !(textAt key j).isEmpty) = true ↔ (needs = true → ∃ s, TextAt j key s ∧ s ≠ []) := by
  rw [← exists_textAt_iff]
  cases needs <;> simp

/-- An entry is read part by part. -/
theorem readRelocation_parts : readRelocation j = .ok r ↔
    j.kind = .object ∧ kindAt "relocation" RelocationKind.ofName? j = .ok r.kind ∧
      typeAt "type" (r.kind != .typeRelocation) j = .ok r.type ∧
      (!r.kind.needsMember || !(textAt "member" j).isEmpty) = true ∧
      (!r.kind.needsNewMember || !(textAt "to_member" j).isEmpty) = true ∧
      newTypeAt r.kind r.type j = .ok r.newType ∧ parameterCountAt j = .ok r.parameterCount ∧
      r.member = textAt "member" j ∧
      r.newMember = if (textAt "to_member" j).isEmpty then textAt "member" j else textAt "to_member" j := by
  obtain ⟨kind, type, member, newType, newMember, parameterCount⟩ := r
  unfold readRelocation
  simp only [bind_eq_ok_iff, require_eq_ok_iff, object?_isSome_iff, pure, Except.pure, Except.ok.injEq,
    Relocation.mk.injEq]
  constructor
  · rintro ⟨-, hobject, kind, hkind, type, htype, -, hmember, -, hnewMember, newType, hnewType, count, hcount, rfl, rfl,
      rfl, rfl, rfl, rfl⟩
    exact ⟨hobject, hkind, htype, hmember, hnewMember, hnewType, hcount, rfl, rfl⟩
  · rintro ⟨hobject, hkind, htype, hmember, hnewMember, hnewType, hcount, rfl, rfl⟩
    exact ⟨(), hobject, kind, hkind, type, htype, (), hmember, (), hnewMember, newType, hnewType, parameterCount, hcount,
      rfl, rfl, rfl, rfl, rfl, rfl⟩

/-- The new member is the old one unless one is given. -/
theorem newMember_eq_iff {member newMember : Bytes} :
    newMember = (if (textAt "to_member" j).isEmpty then member else textAt "to_member" j) ↔
      (newMember ≠ [] ∧ TextAt j "to_member" newMember) ∨
        (∀ s, TextAt j "to_member" s → s = []) ∧ newMember = member := by
  by_cases hgiven : textAt "to_member" j = []
  · have hnone : ∀ s, TextAt j "to_member" s → s = [] := by
      intro s hs
      by_contra hne
      exact hne (((textAt_eq_iff hne).mpr hs).symm.trans hgiven)
    rw [if_pos (by rw [hgiven]; rfl)]
    constructor
    · exact fun h => .inr ⟨hnone, h⟩
    · rintro (⟨hne, htext⟩ | ⟨-, h⟩)
      · exact absurd (hnone _ htext) hne
      · exact h
  · have htext := (textAt_eq_iff hgiven).mp rfl
    rw [if_neg (by simpa using hgiven)]
    constructor
    · rintro rfl
      exact .inl ⟨hgiven, htext⟩
    · rintro (⟨hne, h⟩ | ⟨hnone, -⟩)
      · exact ((textAt_eq_iff hne).mpr h).symm
      · exact absurd (hnone _ htext) hgiven

theorem member_eq_iff {member : Bytes} :
    member = textAt "member" j ↔ TextAt j "member" member ∨ (∀ s, ¬ TextAt j "member" s) ∧ member = [] := by
  constructor
  · rintro rfl
    exact textAt_cases j "member"
  · rintro (h | ⟨hnone, rfl⟩)
    · rcases textAt_cases j "member" with h' | ⟨hnone, -⟩
      · exact Json.string.inj (Option.some.inj (h.symm.trans h'))
      · exact absurd h (hnone _)
    · rcases textAt_cases j "member" with h | ⟨-, h⟩
      · exact absurd h (hnone _)
      · exact h.symm

/-- What is accepted is documented. -/
theorem documented_of_read (h : readRelocation j = .ok r) : Documented r.kind j := by
  obtain ⟨hobject, hkind, htype, hmember, hnewMember, hnewType, hcount, -, -⟩ := readRelocation_parts.mp h
  refine ⟨hobject, kindAt_eq_ok_iff.mp hkind, ?_, ?_, ?_, ?_, ?_, ?_⟩
  · rcases typeAt_eq_ok_iff.mp htype with ⟨hwritten, htext⟩ | ⟨hkind, -, hbare, htext⟩
    · exact ⟨_, htext, .inl ⟨_, hwritten, rfl⟩⟩
    · exact ⟨_, htext, .inr ⟨by simpa using hkind, hbare⟩⟩
  · exact fun hkind => given_iff.mp hmember (needsMember_iff.mpr hkind)
  · exact fun hkind => given_iff.mp hnewMember (needsNewMember_iff.mpr hkind)
  · intro v hv
    rcases newTypeAt_eq_ok_iff.mp hnewType with ⟨hwritten, htext⟩ | ⟨hnone, -, -⟩
    · exact ⟨_, Option.some.inj (hv.symm.trans htext), _, hwritten, rfl⟩
    · rw [hnone] at hv
      cases hv
  · intro hkind
    rcases newTypeAt_eq_ok_iff.mp hnewType with ⟨-, htext⟩ | ⟨-, hneeds, -⟩
    · exact Option.ne_none_iff_exists'.mpr ⟨_, htext⟩
    · rw [needsNewType_iff.mpr hkind] at hneeds
      cases hneeds
  · intro v hv
    rcases parameterCountAt_eq_ok_iff.mp hcount with ⟨n, hn, hget, -⟩ | ⟨hnone, -⟩
    · exact ⟨n, Option.some.inj (hv.symm.trans hget), hn⟩
    · rw [hnone] at hv
      cases hv

/-- What is documented is accepted. -/
theorem read_of_documented {kind : RelocationKind} (h : Documented kind j) : ∃ r, readRelocation j = .ok r := by
  have htype : ∃ t, typeAt "type" (kind != .typeRelocation) j = .ok t := by
    obtain ⟨s, htext, ⟨t, hwritten, rfl⟩ | ⟨rfl, hbare⟩⟩ := h.type
    · exact ⟨t, typeAt_eq_ok_iff.mpr (.inl ⟨hwritten, htext⟩)⟩
    · exact ⟨⟨[], s⟩, typeAt_eq_ok_iff.mpr (.inr ⟨rfl, rfl, hbare, htext⟩)⟩
  obtain ⟨type, htype⟩ := htype
  have hnewType : ∃ t, newTypeAt kind type j = .ok t := by
    cases hget : j.get? (ascii "to_type") with
    | none =>
        have hneeds : kind.needsNewType = false := by
          rw [← Bool.not_eq_true, needsNewType_iff]
          exact fun hkind => h.newTypeGiven hkind hget
        exact ⟨type, newTypeAt_eq_ok_iff.mpr (.inr ⟨hget, hneeds, rfl⟩)⟩
    | some v =>
        obtain ⟨s, rfl, t, hwritten, rfl⟩ := h.newType v hget
        exact ⟨t, newTypeAt_eq_ok_iff.mpr (.inl ⟨hwritten, hget⟩)⟩
  obtain ⟨newType, hnewType⟩ := hnewType
  have hcount : ∃ n, parameterCountAt j = .ok n := by
    cases hget : j.get? (ascii "parameter_count") with
    | none => exact ⟨none, parameterCountAt_eq_ok_iff.mpr (.inr ⟨hget, rfl⟩)⟩
    | some v =>
        obtain ⟨n, rfl, hn⟩ := h.parameterCount v hget
        exact ⟨_, parameterCountAt_eq_ok_iff.mpr (.inl ⟨n, hn, hget, rfl⟩)⟩
  obtain ⟨count, hcount⟩ := hcount
  refine ⟨⟨kind, type, _, newType, _, count⟩, readRelocation_parts.mpr ⟨h.object, kindAt_eq_ok_iff.mpr h.kindName, htype,
    ?_, ?_, hnewType, hcount, rfl, rfl⟩⟩
  · exact given_iff.mpr fun hneeds => h.member (needsMember_iff.mp hneeds)
  · exact given_iff.mpr fun hneeds => h.newMember (needsNewMember_iff.mp hneeds)

/-- **What is accepted are the documented entries**, and nothing else. -/
theorem exists_readRelocation_iff : (∃ r, readRelocation j = .ok r) ↔ ∃ kind, Documented kind j := by
  constructor
  · rintro ⟨r, h⟩
    exact ⟨r.kind, documented_of_read h⟩
  · rintro ⟨kind, h⟩
    exact read_of_documented h

/-- **An accepted entry is the relocation that it stands for.** -/
theorem entryFor_of_read (h : readRelocation j = .ok r) : EntryFor j r := by
  have hdocumented := documented_of_read h
  obtain ⟨-, -, htype, -, -, hnewType, hcount, hmember, hnewMember⟩ := readRelocation_parts.mp h
  refine ⟨hdocumented, ?_, member_eq_iff.mp hmember, ?_, ?_, parameterCountAt_eq_ok_iff.mp hcount⟩
  · exact (typeAt_eq_ok_iff.mp htype).imp_right And.right
  · rw [hmember]
    exact newMember_eq_iff.mp hnewMember
  · exact (newTypeAt_eq_ok_iff.mp hnewType).imp_right fun ⟨hnone, _, h⟩ => ⟨hnone, h⟩

end

end ModRepair.Profile
