import ModRepair.Profile.Reader
import ModRepair.Proofs.Interchange.Reading
import ModRepair.Proofs.Repair.Written

/-!
# Rules of profiles

A relocation that the reader of profiles accepts names types that can be written (`readRelocation_types`), but for the
one kind that may do without a scope, and becomes a rule that refers to such a type (`readRelocation_written`): that
kind looks for its type by name only. `read_relocations` carries what holds of relocations over to all tables of a
profile, and `read_written` is the case of the rules.
-/

namespace ModRepair.Profile

/-! ## Types of relocations -/

/-- Where a scope is required, a type that is accepted can be written. -/
theorem typeAt_written {key : String} {j : Json} {t : TypeRef} (h : typeAt key true j = .ok t) : t.Written := by
  unfold typeAt at h
  split at h
  · cases h
  · cases h
  · split at h
    · next htext =>
        cases h
        exact (TypeRef.ofText?_eq_some_iff.mp htext).1
    · rw [if_pos (.inl rfl)] at h
      cases h

/-- The type that a symbol has moved to can be written, and so can that which it stays on, unless one must be
    given. -/
theorem newTypeAt_written {kind : RelocationKind} {type t : TypeRef} {j : Json}
    (htype : kind.needsNewType = false → type.Written) (h : newTypeAt kind type j = .ok t) : t.Written := by
  unfold newTypeAt at h
  split at h
  · exact typeAt_written h
  · split at h
    · cases h
    · next hneeds =>
        cases h
        exact htype (by simpa using hneeds)

/-- **The types of a relocation that is accepted** can be written: only a relocation of types may name its type without
    a scope, and it must say where that has gone. -/
theorem readRelocation_types {j : Json} {e : Relocation} (h : readRelocation j = .ok e) :
    e.newType.Written ∧ (e.kind ≠ .typeRelocation → e.type.Written) := by
  obtain ⟨-, -, h⟩ := ok_of_bind h
  obtain ⟨kind, -, h⟩ := ok_of_bind h
  obtain ⟨type, htype, h⟩ := ok_of_bind h
  obtain ⟨-, -, h⟩ := ok_of_bind h
  obtain ⟨-, -, h⟩ := ok_of_bind h
  obtain ⟨newType, hnew, h⟩ := ok_of_bind h
  obtain ⟨parameterCount, -, h⟩ := ok_of_bind h
  cases h
  have hfrom : kind ≠ .typeRelocation → type.Written := by
    intro hkind
    have hrequired : (kind != .typeRelocation) = true := bne_iff_ne.mpr hkind
    rw [hrequired] at htype
    exact typeAt_written htype
  refine ⟨newTypeAt_written ?_ hnew, hfrom⟩
  intro hneeds
  apply hfrom
  rintro rfl
  cases hneeds

/-- **A relocation that is accepted** refers to a type that can be written. -/
theorem readRelocation_written {j : Json} {e : Relocation} (h : readRelocation j = .ok e) : e.rule.Written := by
  obtain ⟨hto, hfrom⟩ := readRelocation_types h
  obtain ⟨kind, type, member, newType, newMember, parameterCount⟩ := e
  cases kind with
  | fieldToProperty => exact hto
  | fieldRename => exact hfrom nofun
  | propertyToField => exact hfrom nofun
  | typeRelocation => exact hto
  | methodParent => exact hto
  | methodToStaticMethod => exact hto

/-! ## Tables -/

section

variable {α : Type} {read : Json → Result α} {P : α → Prop}

theorem readEntries_all (hread : ∀ j a, read j = .ok a → P a) {key : Bytes} {index : Nat} {js : List Json}
    {as : List α} (h : readEntries key read index js = .ok as) : ∀ a ∈ as, P a := by
  induction js generalizing index as with
  | nil =>
      cases h
      intro a ha
      cases ha
  | cons j js ih =>
      obtain ⟨a, ha, h⟩ := ok_of_bind h
      obtain ⟨as, has, h⟩ := ok_of_bind h
      cases h
      exact List.forall_mem_cons.mpr ⟨hread j a (ok_of_mapError ha), ih has⟩

theorem tableAt_all (hread : ∀ j a, read j = .ok a → P a) {key : String} {j : Json} {as : List α}
    (h : tableAt key read j = .ok as) : ∀ a ∈ as, P a := by
  unfold tableAt at h
  split at h
  · cases h
    intro a ha
    cases ha
  · exact readEntries_all hread h
  · cases h

end

/-- What holds of every relocation that is accepted holds of all tables of a profile. -/
theorem read_relocations {P : Relocation → Prop} (hread : ∀ j e, readRelocation j = .ok e → P e) {j : Json}
    {p : Profile} (h : read j = .ok p) : ∀ e ∈ p.platformShims ++ p.relocations ++ p.patchEngineShims, P e := by
  obtain ⟨-, -, h⟩ := ok_of_bind h
  obtain ⟨watchedScopes, -, h⟩ := ok_of_bind h
  obtain ⟨relocations, hrelocations, h⟩ := ok_of_bind h
  obtain ⟨platformShims, hplatform, h⟩ := ok_of_bind h
  obtain ⟨patchEngineShims, hpatch, h⟩ := ok_of_bind h
  obtain ⟨detectors, -, h⟩ := ok_of_bind h
  obtain ⟨paranoidDetectors, -, h⟩ := ok_of_bind h
  cases h
  intro e he
  rcases List.mem_append.mp he with he | he
  · rcases List.mem_append.mp he with he | he
    · exact tableAt_all hread hplatform e he
    · exact tableAt_all hread hrelocations e he
  · exact tableAt_all hread hpatch e he

/-- **The rules of a profile that is accepted** refer to types that can be written. -/
theorem read_written {j : Json} {p : Profile} (h : read j = .ok p) :
    ∀ e ∈ p.platformShims ++ p.relocations ++ p.patchEngineShims, e.rule.Written :=
  read_relocations (fun _ _ => readRelocation_written) h

/-- The default profile has no rules but the heuristic. -/
theorem watching_written (scopes : List Bytes) :
    ∀ e ∈ (watching scopes).platformShims ++ (watching scopes).relocations ++ (watching scopes).patchEngineShims,
      e.rule.Written := by
  intro e he
  cases he

end ModRepair.Profile
