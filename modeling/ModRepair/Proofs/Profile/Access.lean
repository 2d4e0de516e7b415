import ModRepair.Proofs.Interchange.Access
import ModRepair.Proofs.Interchange.Persistence
import ModRepair.Proofs.Profile.Reading

/-!
# Reading documents is safe and sound

The readers of profiles with accessors in the place of views, each behind the test of the kind that makes it safe, and
what comes of reading any document at all.

* `Profile.ByKind.readRelocation_eq`, `readDetector_eq`, `read_eq` — entries and profiles are read as with views;
* `readers_safe_and_sound` — **all readers of documents**: no accessor is misused, and what is accepted is as later
  steps rely on.
-/

namespace ModRepair

namespace Profile

namespace ByKind

open Trouble

/-! ## Entries -/

/-- The string under a key, or the empty string. -/
def textAt (key : String) (j : Json) : Access Fault Bytes := do
  return (← j.accessString? (ascii key)).getD []

def typeAt (key : String) (scopeRequired : Bool) (j : Json) : Access Fault TypeRef := do
  match ← j.accessString? (ascii key) with
  | none | some [] => .error (.fault (.missingType (ascii key)))
  | some (c :: s) =>
    match TypeRef.ofText? (c :: s) with
    | some t => return t
    | none =>
      if scopeRequired ∨ c = Bytes.openBracket then .error (.fault (.invalidType (c :: s))) else return ⟨[], c :: s⟩

def require (condition : Bool) (fault : Fault) : Access Fault Unit :=
  if condition then return () else .error (.fault fault)

def newTypeAt (kind : RelocationKind) (type : TypeRef) (j : Json) : Access Fault TypeRef :=
  if (j.get? (ascii "to_type")).isSome then typeAt "to_type" true j
  else if kind.needsNewType then .error (.fault (.missingMember kind.name (ascii "to_type")))
  else return type

def kindAt {α : Type} (what : String) (ofName? : Bytes → Option α) (j : Json) : Access Fault α := do
  let name ← textAt "kind" j
  match ofName? name with
  | some kind => return kind
  | none => .error (.fault (.unknownKind (ascii what) name))

/-- The number of parameters is looked at by a view, and there is nothing to access. -/
def readRelocation (j : Json) : Access Fault Relocation := do
  require j.object?.isSome (.notObject (ascii "relocation"))
  let kind ← kindAt "relocation" RelocationKind.ofName? j
  let member ← textAt "member" j
  let newMember ← textAt "to_member" j
  let type ← typeAt "type" (kind != .typeRelocation) j
  require (!kind.needsMember || !member.isEmpty) (.missingMember kind.name (ascii "member"))
  require (!kind.needsNewMember || !newMember.isEmpty) (.missingMember kind.name (ascii "to_member"))
  let newType ← newTypeAt kind type j
  let parameterCount ← lift (parameterCountAt j)
  return { kind, type, member, newType, newMember := if newMember.isEmpty then member else newMember, parameterCount }

def readDetector (j : Json) : Access Fault Detector := do
  require j.object?.isSome (.notObject (ascii "detector"))
  let kind ← kindAt "detector" DetectorKind.ofName? j
  let type ← typeAt "type" false j
  let result ← textAt "result" j
  match Category.ofName? result with
  | none => .error (.fault (.unknownCategory result))
  | some category =>
    let member ← textAt "member" j
    require (kind == .type || !member.isEmpty)
      (.missingMember (kind.name ++ ascii " detector") (ascii "member"))
    return { kind, typeName := type.fullName, member, category }

section

variable {key : String} {j : Json}

theorem textAt_eq : textAt key j = pure (Profile.textAt key j) := by
  unfold textAt Profile.textAt
  rw [Json.accessString?_eq]
  rfl

theorem typeAt_eq {scopeRequired : Bool} : typeAt key scopeRequired j = lift (Profile.typeAt key scopeRequired j) := by
  unfold typeAt Profile.typeAt
  rw [Json.accessString?_eq, pure_bind]
  match j.getString? (ascii key) with
  | none => rfl
  | some [] => rfl
  | some (c :: s) =>
      simp only
      cases TypeRef.ofText? (c :: s) with
      | some t => rfl
      | none =>
          simp only
          split
          · rfl
          · rfl

theorem require_eq {condition : Bool} {fault : Fault} :
    require condition fault = lift (Profile.require condition fault) := by
  cases condition with
  | false => rfl
  | true => rfl

theorem newTypeAt_eq {kind : RelocationKind} {type : TypeRef} :
    newTypeAt kind type j = lift (Profile.newTypeAt kind type j) := by
  unfold newTypeAt Profile.newTypeAt
  split
  · exact typeAt_eq
  · split
    · rfl
    · rfl

theorem kindAt_eq {α : Type} {what : String} {ofName? : Bytes → Option α} :
    kindAt what ofName? j = lift (Profile.kindAt what ofName? j) := by
  unfold kindAt Profile.kindAt
  rw [textAt_eq, pure_bind]
  cases ofName? (Profile.textAt "kind" j) with
  | none => rfl
  | some kind => rfl

end

/-- **Relocations** are read as with views. -/
theorem readRelocation_eq (j : Json) : readRelocation j = lift (Profile.readRelocation j) := by
  unfold readRelocation Profile.readRelocation
  simp only [require_eq, kindAt_eq, textAt_eq, typeAt_eq, newTypeAt_eq, pure_bind, lift_bind, lift_pure]

/-- **Detectors** are read as with views. -/
theorem readDetector_eq (j : Json) : readDetector j = lift (Profile.readDetector j) := by
  unfold readDetector Profile.readDetector
  simp only [require_eq, kindAt_eq, textAt_eq, typeAt_eq, pure_bind, lift_bind]
  refine bind_congr fun _ => bind_congr fun kind => bind_congr fun type => ?_
  cases Category.ofName? (Profile.textAt "result" j) with
  | none => rfl
  | some category => simp only [lift_bind, lift_pure]

/-! ## Documents -/

def readEntries {α : Type} (key : Bytes) (read : Json → Access Fault α) : Nat → List Json → Access Fault (List α)
  | _, [] => return []
  | index, j :: rest => do
    let a ← (read j).mapError (map (.entry key index))
    let as ← readEntries key read (index + 1) rest
    return a :: as

def tableAt {α : Type} (key : String) (read : Json → Access Fault α) (j : Json) : Access Fault (List α) :=
  match j.get? (ascii key) with
  | none => return []
  | some value =>
    if value.kind = Json.Accessor.array.kind then do
      let items ← Json.Accessor.array.get value
      readEntries (ascii key) read 0 items
    else .error (.fault (.notArray (ascii key)))

/-- Strings, each told from other values before it is accessed. -/
def readStrings (key : Bytes) : List Json → Access Fault (List Bytes)
  | [] => return []
  | j :: rest =>
    if j.kind = Json.Accessor.string.kind then do
      let s ← Json.Accessor.string.get j
      let ss ← readStrings key rest
      return s :: ss
    else .error (.fault (.notStrings key))

def watchedScopesAt (j : Json) : Access Fault (List Bytes) :=
  match j.get? (ascii "watched_scopes") with
  | none => return []
  | some value =>
    if value.kind = Json.Accessor.array.kind then do
      let items ← Json.Accessor.array.get value
      readStrings (ascii "watched_scopes") items
    else .error (.fault (.notArray (ascii "watched_scopes")))

def paranoidDetectorsAt (j : Json) : Access Fault (List Detector) :=
  if (j.get? (ascii "paranoid_detectors")).isSome then tableAt "paranoid_detectors" readDetector j
  else return defaultParanoidDetectors

def read (j : Json) : Access Fault Profile := do
  require j.object?.isSome (.notObject (ascii "profile"))
  let watchedScopes ← watchedScopesAt j
  let relocations ← tableAt "relocations" readRelocation j
  let platformShims ← tableAt "platform_shims" readRelocation j
  let patchEngineShims ← tableAt "patch_engine_shims" readRelocation j
  let detectors ← tableAt "detectors" readDetector j
  let paranoidDetectors ← paranoidDetectorsAt j
  return { watchedScopes, relocations, platformShims, patchEngineShims, detectors, paranoidDetectors }

section

variable {α : Type} {read : Json → Access Fault α} {view : Json → Result α} (hread : ∀ j, read j = lift (view j))

include hread

theorem readEntries_eq (key : Bytes) (index : Nat) (js : List Json) :
    readEntries key read index js = lift (Profile.readEntries key view index js) := by
  induction js generalizing index with
  | nil => rfl
  | cons j js ih =>
      unfold readEntries Profile.readEntries
      rw [lift_bind, lift_mapError, hread j]
      refine bind_congr fun a => ?_
      rw [lift_bind, ih (index + 1)]
      rfl

theorem tableAt_eq {key : String} {j : Json} : tableAt key read j = lift (Profile.tableAt key view j) := by
  unfold tableAt Profile.tableAt
  cases j.get? (ascii key) with
  | none => rfl
  | some value =>
      simp only [Json.Accessor.guarded, readEntries_eq hread]
      cases value with
      | array items => rfl
      | _ => rfl

end

theorem readStrings_eq (key : Bytes) (js : List Json) : readStrings key js = lift (Profile.readStrings key js) := by
  induction js with
  | nil => rfl
  | cons j js ih =>
      unfold readStrings
      rw [Json.Accessor.guarded, ih]
      cases j with
      | string s =>
          show lift (Profile.readStrings key js) >>= _ = lift (Profile.readStrings key js >>= _)
          rw [lift_bind]
          rfl
      | _ => rfl

theorem watchedScopesAt_eq (j : Json) : watchedScopesAt j = lift (Profile.watchedScopesAt j) := by
  unfold watchedScopesAt Profile.watchedScopesAt
  simp only
  cases j.get? (ascii "watched_scopes") with
  | none => rfl
  | some value =>
      simp only [Json.Accessor.guarded, readStrings_eq]
      cases value with
      | array items => rfl
      | _ => rfl

theorem paranoidDetectorsAt_eq (j : Json) : paranoidDetectorsAt j = lift (Profile.paranoidDetectorsAt j) := by
  unfold paranoidDetectorsAt Profile.paranoidDetectorsAt
  split
  · exact tableAt_eq readDetector_eq
  · rfl

/-- **Profiles** are read as with views. -/
theorem read_eq (j : Json) : read j = lift (Profile.read j) := by
  unfold read Profile.read
  simp only [require_eq, watchedScopesAt_eq, tableAt_eq readRelocation_eq, tableAt_eq readDetector_eq,
    paranoidDetectorsAt_eq, lift_bind, lift_pure]

end ByKind

end Profile

/-! ## All documents -/

/-- **Readers of documents are safe and sound.** Whatever the JSON value is, values of wrong kinds in any place
    included, reading it as an assembly, a module, a profile, a relocation or a detector ends in a result or in a fault,
    the same with accessors as with views, so no accessor is used on a value of another kind. Of an assembly or a module
    that is accepted, every instruction has an operand that its opcode takes, and every type that is mentioned has a
    scope, without a closing bracket, and a name. So has the type that a relocation of an accepted profile leads to, and
    the type it is about, unless it is a relocation of types. -/
theorem readers_safe_and_sound (host : Option Host) (j : Json) :
    (Trouble.Matches (Interchange.ByKind.readAssembly j) (Interchange.readAssembly j) ∧
        Trouble.Matches (Interchange.ByKind.readModule host j) (Interchange.readModule host j) ∧
        Trouble.Matches (Profile.ByKind.read j) (Profile.read j) ∧
        Trouble.Matches (Profile.ByKind.readRelocation j) (Profile.readRelocation j) ∧
        Trouble.Matches (Profile.ByKind.readDetector j) (Profile.readDetector j)) ∧
      (∀ a, Interchange.readAssembly j = .ok a → ∀ t ∈ a.types, t.Written) ∧
      (∀ m, Interchange.readModule host j = .ok m → m.Written) ∧
      ∀ p, Profile.read j = .ok p → ∀ e ∈ p.platformShims ++ p.relocations ++ p.patchEngineShims,
        e.newType.Written ∧ (e.kind ≠ .typeRelocation → e.type.Written) := by
  refine ⟨⟨?_, ?_, ?_, ?_, ?_⟩, ?_, ?_, ?_⟩
  · rw [Interchange.ByKind.readAssembly_eq]
    exact Trouble.matches_lift _
  · rw [Interchange.ByKind.readModule_eq]
    exact Trouble.matches_lift _
  · rw [Profile.ByKind.read_eq]
    exact Trouble.matches_lift _
  · rw [Profile.ByKind.readRelocation_eq]
    exact Trouble.matches_lift _
  · rw [Profile.ByKind.readDetector_eq]
    exact Trouble.matches_lift _
  · intro a ha
    exact Interchange.readAssembly_written ha
  · intro m hm
    exact (Interchange.readModule_written hm).2
  · intro p hp
    exact Profile.read_relocations (fun _ _ => Profile.readRelocation_types) hp

/-- An assembly, a module and a profile that are accepted, and a module that is not, for a type that is no object. -/
theorem readers_safe_and_sound_sample :
    let bad := Interchange.objectJson [("name", .literal "Mod"), ("types", .array [.null])]
    (∀ t ∈ [Sample.declA, Sample.declB], t.Written) ∧ (Sample.moduleOf [Sample.loadF]).Written ∧
      Sample.typeA.Written ∧ Sample.typeB.Written ∧
        ∃ fault, Interchange.ByKind.readModule none bad = .error (.fault fault) := by
  intro bad
  have hassembly : Interchange.readAssembly Interchange.sampleHostJson =
      .ok ⟨ascii "Host", [Sample.declA, Sample.declB]⟩ := rfl
  have hmodule : Interchange.readModule (some Sample.host) (Interchange.moduleJson (Sample.moduleOf [Sample.loadF])) =
      .ok (Sample.moduleOf [Sample.loadF]) := rfl
  have hprofile : Profile.read Interchange.sampleProfileJson = .ok (Sample.profileOf [Sample.fieldMoved] []) := rfl
  obtain ⟨hto, hfrom⟩ := (readers_safe_and_sound none Interchange.sampleProfileJson).2.2.2 _ hprofile Sample.fieldMoved
    (by decide)
  refine ⟨(readers_safe_and_sound none Interchange.sampleHostJson).2.1 _ hassembly,
    (readers_safe_and_sound (some Sample.host) _).2.2.1 _ hmodule, hfrom (by decide), hto, ?_⟩
  rcases (readers_safe_and_sound none bad).1.2.1 with ⟨m, -, hviews⟩ | ⟨fault, hfault, -⟩
  · cases hviews
  · exact ⟨fault, hfault⟩

end ModRepair
