import Mathlib.Data.List.Forall2
import ModRepair.Proofs.Profile.Entry

/-!
# Tables of profiles

A profile is read table by table and entry by entry, and what is wrong with it is told of the first entry that is
wrong. Which entry that is can be said without the order of reading: all faults of all entries make a list, `refusals`,
and the profile is refused with the first of them.

* `Shaped` — **the profiles of the right kinds**, whatever their entries are;
* `Collected` — the profile that a document stands for, entry by entry;
* `read_eq_ok_iff` — **what is accepted** are the documents of the right kinds all entries of which are accepted;
* `Shaped.refuses` — **what is refused** names the table and the index of the first entry that is not;
* `entries_and_tables` — both together with what is accepted of an entry.
-/

namespace ModRepair.Profile

/-! ## Documents -/

/-- What stands under the key is an array, if anything does. -/
def IsTable (j : Json) (key : String) : Prop :=
  ∀ v, j.get? (ascii key) = some v → v.kind = .array

/-- The entries of the table under a key. -/
def items (j : Json) (key : String) : List Json :=
  ((j.get? (ascii key)).bind Json.array?).getD []

/-- The keys of the tables, in the order in which they are read. -/
def tableKeys : List String :=
  ["relocations", "platform_shims", "patch_engine_shims", "detectors", "paranoid_detectors"]

/-- **A profile of the right kinds**: watched scopes that are strings, and tables. -/
structure Shaped (j : Json) : Prop where
  object : j.kind = .object
  scopes : IsTable j "watched_scopes"
  scopeNames : ∀ v ∈ items j "watched_scopes", v.kind = .string
  tables : ∀ key ∈ tableKeys, IsTable j key

/-- Every entry of a list is accepted, and is what stands at its place in another. -/
def Accepts {α : Type} (read : Json → Result α) : List Json → List α → Prop :=
  List.Forall₂ fun j a => read j = .ok a

/-- The profile that a document stands for. -/
structure Collected (j : Json) (p : Profile) : Prop where
  scopes : items j "watched_scopes" = p.watchedScopes.map .string
  relocations : Accepts readRelocation (items j "relocations") p.relocations
  platformShims : Accepts readRelocation (items j "platform_shims") p.platformShims
  patchEngineShims : Accepts readRelocation (items j "patch_engine_shims") p.patchEngineShims
  detectors : Accepts readDetector (items j "detectors") p.detectors
  paranoidDetectors : if (j.get? (ascii "paranoid_detectors")).isSome
    then Accepts readDetector (items j "paranoid_detectors") p.paranoidDetectors
    else p.paranoidDetectors = defaultParanoidDetectors

/-- What is wrong with an entry, if anything is. -/
def faultOf? {α : Type} (read : Json → Result α) (j : Json) : Option Fault :=
  match read j with
  | .ok _ => none
  | .error fault => some fault

/-- The faults of the entries from an index on, each with its table and its index. -/
def faultsFrom {α : Type} (key : Bytes) (read : Json → Result α) (index : Nat) (js : List Json) : List Fault :=
  (js.zipIdx index).filterMap fun (j, i) => (faultOf? read j).map (.entry key i)

/-- The faults of all entries of a table. -/
def tableFaults {α : Type} (key : String) (read : Json → Result α) (j : Json) : List Fault :=
  faultsFrom (ascii key) read 0 (items j key)

/-- **The faults of all entries** of a profile. -/
def refusals (j : Json) : List Fault :=
  tableFaults "relocations" readRelocation j ++ (tableFaults "platform_shims" readRelocation j ++
    (tableFaults "patch_engine_shims" readRelocation j ++ (tableFaults "detectors" readDetector j ++
      tableFaults "paranoid_detectors" readDetector j)))

/-! ## The first of several faults -/

/-- Fails with the first fault of a list, and does not fail if there is none. -/
def FailsFirst {α : Type} (x : Result α) : List Fault → Prop
  | [] => ∃ a, x = .ok a
  | fault :: _ => x = .error fault

section

variable {α β : Type} {x : Result α} {f : α → Result β} {faults later : List Fault}

/-- The faults of the first step come first. -/
theorem FailsFirst.bind (h : FailsFirst x faults) (hf : ∀ a, x = .ok a → FailsFirst (f a) later) :
    FailsFirst (x >>= f) (faults ++ later) := by
  cases faults with
  | nil =>
      obtain ⟨a, rfl⟩ := h
      exact hf a rfl
  | cons fault faults =>
      obtain rfl : x = .error fault := h
      rfl

theorem FailsFirst.error_iff (h : FailsFirst x faults) {fault : Fault} :
    x = .error fault ↔ faults.head? = some fault := by
  cases faults with
  | nil =>
      obtain ⟨a, rfl⟩ := h
      simp
  | cons first faults =>
      obtain rfl : x = .error first := h
      simp

end

/-! ## Tables -/

section

variable {α : Type} {read : Json → Result α} {j : Json} {key : String}

theorem kind_eq_array_iff {v : Json} : v.kind = .array ↔ ∃ js, v = .array js := by
  cases v with
  | number n => cases n <;> simp [Json.kind]
  | _ => simp [Json.kind]

/-- A table is not there, or it is the array of its entries. -/
theorem isTable_iff : IsTable j key ↔
    (j.get? (ascii key) = none ∧ items j key = []) ∨ j.get? (ascii key) = some (.array (items j key)) := by
  unfold IsTable items
  cases j.get? (ascii key) with
  | none => simp
  | some v =>
      simp only [Option.some.injEq, forall_eq', kind_eq_array_iff]
      constructor
      · rintro ⟨js, rfl⟩
        exact .inr rfl
      · rintro (⟨h, -⟩ | h)
        · cases h
        · exact ⟨_, h⟩

/-- What is not an array is not a table. -/
theorem not_isTable {v : Json} (hsome : j.get? (ascii key) = some v) (hv : ∀ js, v ≠ .array js) : ¬ IsTable j key := by
  intro h
  obtain ⟨js, hjs⟩ := kind_eq_array_iff.mp (h v hsome)
  exact hv js hjs

theorem faultsFrom_cons {key : Bytes} {index : Nat} {js : List Json} :
    faultsFrom key read index (j :: js) =
      ((faultOf? read j).map (.entry key index)).toList ++ faultsFrom key read (index + 1) js := by
  simp only [faultsFrom, List.zipIdx_cons, List.filterMap_cons]
  cases faultOf? read j <;> rfl

/-- Entries are accepted one by one. -/
theorem readEntries_eq_ok_iff {key : Bytes} {index : Nat} {js : List Json} {as : List α} :
    readEntries key read index js = .ok as ↔ Accepts read js as := by
  induction js generalizing index as with
  | nil => simp [readEntries, Accepts, eq_comm]
  | cons j js ih =>
      have hread : ∀ a, (read j).mapError (Fault.entry key index) = .ok a ↔ read j = .ok a := by
        intro a
        cases read j <;> simp [Except.mapError]
      simp only [readEntries, bind_eq_ok_iff, hread, ih, pure, Except.pure, Except.ok.injEq, Accepts,
        List.forall₂_cons_left_iff]
      constructor
      · rintro ⟨a, ha, as, has, rfl⟩
        exact ⟨a, as, ha, has, rfl⟩
      · rintro ⟨a, as, ha, has, rfl⟩
        exact ⟨a, ha, as, has, rfl⟩

/-- **Entries are refused with the first fault.** -/
theorem failsFirst_readEntries {key : Bytes} {index : Nat} {js : List Json} :
    FailsFirst (readEntries key read index js) (faultsFrom key read index js) := by
  induction js generalizing index with
  | nil => exact ⟨[], rfl⟩
  | cons j js ih =>
      rw [faultsFrom_cons, readEntries]
      refine FailsFirst.bind ?_ fun a _ => ?_
      · unfold faultOf?
        cases read j with
        | error fault => rfl
        | ok a => exact ⟨a, rfl⟩
      · rw [← List.append_nil (faultsFrom key read (index + 1) js)]
        exact ih.bind fun as _ => ⟨a :: as, rfl⟩

theorem tableAt_eq_ok_iff {as : List α} :
    tableAt key read j = .ok as ↔ IsTable j key ∧ Accepts read (items j key) as := by
  unfold tableAt
  split
  · next hnone => simp [isTable_iff, hnone, items, Accepts, eq_comm]
  · next js hsome => simp [isTable_iff, hsome, items, Json.array?, readEntries_eq_ok_iff]
  · next v hv hsome => exact iff_of_false (by simp) fun h => not_isTable hsome hv h.1

theorem failsFirst_tableAt (h : IsTable j key) : FailsFirst (tableAt key read j) (tableFaults key read j) := by
  unfold tableAt tableFaults
  rcases isTable_iff.mp h with ⟨hnone, hitems⟩ | hsome
  · rw [hnone, hitems]
    exact ⟨[], rfl⟩
  · rw [hsome]
    exact failsFirst_readEntries

end

/-! ## Watched scopes -/

section

variable {j : Json}

theorem readStrings_eq_ok_iff {key : Bytes} {js : List Json} {ss : List Bytes} :
    readStrings key js = .ok ss ↔ js = ss.map .string := by
  induction js generalizing ss with
  | nil => cases ss <;> simp [readStrings]
  | cons v js ih =>
      cases v with
      | string s =>
          simp only [readStrings, bind_eq_ok_iff, ih, pure, Except.pure, Except.ok.injEq]
          constructor
          · rintro ⟨ss, rfl, rfl⟩
            rfl
          · cases ss with
            | nil => simp
            | cons t ss => simp +contextual
      | _ => cases ss <;> simp [readStrings]

theorem watchedScopesAt_eq_ok_iff {ss : List Bytes} :
    watchedScopesAt j = .ok ss ↔ IsTable j "watched_scopes" ∧ items j "watched_scopes" = ss.map .string := by
  unfold watchedScopesAt
  simp only
  split
  · next hnone => cases ss <;> simp [isTable_iff, hnone, items]
  · next js hsome => simp [isTable_iff, hsome, items, Json.array?, readStrings_eq_ok_iff]
  · next v hv hsome => exact iff_of_false (by simp) fun h => not_isTable hsome hv h.1

theorem all_strings_iff {js : List Json} : (∀ v ∈ js, v.kind = .string) ↔ ∃ ss : List Bytes, js = ss.map .string := by
  constructor
  · intro h
    refine ⟨js.filterMap Json.string?, ?_⟩
    induction js with
    | nil => rfl
    | cons v js ih =>
        obtain ⟨hv, hjs⟩ := List.forall_mem_cons.mp h
        cases v with
        | string s => rw [List.filterMap_cons, Json.string?, List.map_cons, ← ih hjs]
        | number n => cases n <;> cases hv
        | _ => cases hv
  · rintro ⟨ss, rfl⟩ v hv
    obtain ⟨s, -, rfl⟩ := List.mem_map.mp hv
    rfl

end

/-! ## Profiles -/

section

variable {j : Json} {p : Profile}

theorem paranoidDetectorsAt_eq_ok_iff {ds : List Detector} :
    paranoidDetectorsAt j = .ok ds ↔ IsTable j "paranoid_detectors" ∧
      if (j.get? (ascii "paranoid_detectors")).isSome then Accepts readDetector (items j "paranoid_detectors") ds
      else ds = defaultParanoidDetectors := by
  unfold paranoidDetectorsAt
  split
  · exact tableAt_eq_ok_iff
  · next hnone =>
      rw [Option.not_isSome_iff_eq_none] at hnone
      have htable : IsTable j "paranoid_detectors" := fun v hv => absurd (hnone.symm.trans hv) nofun
      simp [htable, eq_comm]

/-- A profile is read table by table. -/
theorem read_parts : read j = .ok p ↔
    j.kind = .object ∧ watchedScopesAt j = .ok p.watchedScopes ∧
      tableAt "relocations" readRelocation j = .ok p.relocations ∧
      tableAt "platform_shims" readRelocation j = .ok p.platformShims ∧
      tableAt "patch_engine_shims" readRelocation j = .ok p.patchEngineShims ∧
      tableAt "detectors" readDetector j = .ok p.detectors ∧ paranoidDetectorsAt j = .ok p.paranoidDetectors := by
  obtain ⟨scopes, relocations, platformShims, patchEngineShims, detectors, paranoidDetectors⟩ := p
  unfold read
  simp only [bind_eq_ok_iff, require_eq_ok_iff, object?_isSome_iff, pure, Except.pure, Except.ok.injEq,
    Profile.mk.injEq]
  constructor
  · rintro ⟨-, hobject, _, h₁, _, h₂, _, h₃, _, h₄, _, h₅, _, h₆, rfl, rfl, rfl, rfl, rfl, rfl⟩
    exact ⟨hobject, h₁, h₂, h₃, h₄, h₅, h₆⟩
  · rintro ⟨hobject, h₁, h₂, h₃, h₄, h₅, h₆⟩
    exact ⟨(), hobject, _, h₁, _, h₂, _, h₃, _, h₄, _, h₅, _, h₆, rfl, rfl, rfl, rfl, rfl, rfl⟩

/-- **What is accepted** are the profiles of the right kinds all entries of which are accepted. -/
theorem read_eq_ok_iff : read j = .ok p ↔ Shaped j ∧ Collected j p := by
  rw [read_parts, watchedScopesAt_eq_ok_iff, paranoidDetectorsAt_eq_ok_iff]
  simp only [tableAt_eq_ok_iff]
  constructor
  · rintro ⟨hobject, ⟨hscopes, hnames⟩, ⟨h₁, hrelocations⟩, ⟨h₂, hplatform⟩, ⟨h₃, hpatch⟩, ⟨h₄, hdetectors⟩,
      h₅, hparanoid⟩
    refine ⟨⟨hobject, hscopes, all_strings_iff.mpr ⟨_, hnames⟩, ?_⟩,
      ⟨hnames, hrelocations, hplatform, hpatch, hdetectors, hparanoid⟩⟩
    simp [tableKeys, h₁, h₂, h₃, h₄, h₅]
  · rintro ⟨hshaped, hcollected⟩
    have htable : ∀ key, key ∈ tableKeys → IsTable j key := hshaped.tables
    exact ⟨hshaped.object, ⟨hshaped.scopes, hcollected.scopes⟩,
      ⟨htable _ (by simp [tableKeys]), hcollected.relocations⟩,
      ⟨htable _ (by simp [tableKeys]), hcollected.platformShims⟩,
      ⟨htable _ (by simp [tableKeys]), hcollected.patchEngineShims⟩,
      ⟨htable _ (by simp [tableKeys]), hcollected.detectors⟩,
      htable _ (by simp [tableKeys]), hcollected.paranoidDetectors⟩

/-- **What is refused**, of a profile of the right kinds, names the first entry that is not accepted. -/
theorem Shaped.refuses (h : Shaped j) {fault : Fault} : read j = .error fault ↔ (refusals j).head? = some fault := by
  obtain ⟨scopes, hscopes⟩ := all_strings_iff.mp h.scopeNames
  have hwatched : watchedScopesAt j = .ok scopes := watchedScopesAt_eq_ok_iff.mpr ⟨h.scopes, hscopes⟩
  have hobject : require j.object?.isSome (.notObject (ascii "profile")) = .ok () :=
    require_eq_ok_iff.mpr (object?_isSome_iff.mpr h.object)
  have htable : ∀ {α : Type} {read : Json → Result α} {key : String}, key ∈ tableKeys →
      FailsFirst (tableAt key read j) (tableFaults key read j) := fun hkey => failsFirst_tableAt (h.tables _ hkey)
  have hparanoid : FailsFirst (paranoidDetectorsAt j) (tableFaults "paranoid_detectors" readDetector j) := by
    unfold paranoidDetectorsAt
    split
    · exact htable (by simp [tableKeys])
    · next hnone =>
        rw [Option.not_isSome_iff_eq_none] at hnone
        have hfaults : tableFaults "paranoid_detectors" readDetector j = [] := by
          simp [tableFaults, items, hnone, faultsFrom]
        rw [hfaults]
        exact ⟨_, rfl⟩
  apply FailsFirst.error_iff
  unfold read
  rw [hobject, hwatched]
  refine (htable (by simp [tableKeys])).bind fun relocations _ => ?_
  refine (htable (by simp [tableKeys])).bind fun platformShims _ => ?_
  refine (htable (by simp [tableKeys])).bind fun patchEngineShims _ => ?_
  refine (htable (by simp [tableKeys])).bind fun detectors _ => ?_
  rw [← List.append_nil (tableFaults "paranoid_detectors" readDetector j)]
  exact hparanoid.bind fun paranoidDetectors _ => ⟨_, rfl⟩

end

/-- **Entries and tables.** An entry is accepted exactly if it is documented for its kind. What it becomes has the
    defaults for what is not given, and its handler changes what it finds. A profile is accepted exactly if it is of
    the right kinds and all its entries are accepted; if it is of the right kinds and is refused, then with the table,
    the index and the fault of the first entry that is not accepted. -/
theorem entries_and_tables (j : Json) :
    ((∃ r, readRelocation j = .ok r) ↔ ∃ kind, Documented kind j) ∧
      (∀ r, readRelocation j = .ok r → EntryFor j r ∧ r.handler.isMutating = true) ∧
      (∀ p, read j = .ok p ↔ Shaped j ∧ Collected j p) ∧
      (Shaped j → ∀ fault, read j = .error fault ↔ (refusals j).head? = some fault) :=
  ⟨exists_readRelocation_iff, fun _ h => ⟨entryFor_of_read h, rfl⟩, fun _ => read_eq_ok_iff, fun h _ => h.refuses⟩

/-- A profile whose second relocation does not say where its type has gone. -/
def sampleProfileRefused : Json :=
  .object
    [(ascii "relocations", .array
      [.object [(ascii "kind", .literal "type_relocation"), (ascii "to_type", .literal "[Host]B"),
          (ascii "type", .literal "A")],
        .object [(ascii "kind", .literal "type_relocation"), (ascii "type", .literal "A")]])]

/-- The profile is of the right kinds, and refused for its second entry. -/
theorem entries_and_tables_sample :
    Shaped sampleProfileRefused ∧
      read sampleProfileRefused = .error (.entry (ascii "relocations") 1
        (.missingMember (ascii "type_relocation") (ascii "to_type"))) := by
  have hshaped : Shaped sampleProfileRefused := by
    refine ⟨rfl, ?_, ?_, ?_⟩
    · intro v hv
      cases hv
    · intro v hv
      cases hv
    · intro key hkey v hv
      simp only [tableKeys, List.mem_cons, List.not_mem_nil, or_false] at hkey
      rcases hkey with rfl | rfl | rfl | rfl | rfl
      · cases hv
        rfl
      all_goals cases hv
  exact ⟨hshaped, ((entries_and_tables sampleProfileRefused).2.2.2 hshaped _).mpr rfl⟩

end ModRepair.Profile
