import ModRepair.Proofs.Repair.Restoration
import ModRepair.Repair.Registry

/-!
# The table of handlers

Which handlers a profile enables, and in which order: `handlers_ofProfile` writes the list out, and `table_extend` and
`handlers_extend` say that later additions come after it.
-/

namespace ModRepair

/-- A relocation of any other kind than that of types becomes a rule that moves no types. -/
theorem Relocation.movesType_handler {r : Relocation} (hr : r.kind ≠ .typeRelocation) :
    r.handler.movesType = false := by
  obtain ⟨kind, type, member, newType, newMember, parameterCount⟩ := r
  cases kind <;> first | rfl | exact absurd rfl hr

namespace Registry

/-- Handlers behind a gate: all of them if the options open it, else none. -/
def gated (options : RepairOptions) (gate : Gate) (hs : List Handler) : List Handler :=
  if gate.isOpen options then hs else []

theorem mem_gated {options : RepairOptions} {gate : Gate} {hs : List Handler} {h : Handler} :
    h ∈ gated options gate hs ↔ gate.isOpen options ∧ h ∈ hs := by
  unfold gated
  split
  · next ho => simp [ho]
  · next ho => simp [ho]

/-- The enabled handlers of lines that are all behind one gate. -/
theorem handlers_behind {α : Type} (options : RepairOptions) (gate : Gate) (label : α → Bytes)
    (handler : α → Handler) (entries : List α) :
    ((entries.map fun a => Registration.mk gate (label a) (handler a)).filter (·.gate.isOpen options)).map
      (·.handler) = gated options gate (entries.map handler) := by
  unfold gated
  split
  · next ho =>
      rw [List.filter_eq_self.mpr (by simp [ho]), List.map_map]
      rfl
  · next ho =>
      rw [List.filter_eq_nil_iff.mpr (by simp [ho])]
      rfl

/-- The rules of a profile that the options enable, the heuristic last. -/
def rules (options : RepairOptions) (p : Profile) : List Handler :=
  gated options .crossPlatform (p.platformShims.map Relocation.handler) ++ p.relocations.map Relocation.handler ++
    gated options .patchEngineMissing (p.patchEngineShims.map Relocation.handler) ++
    [.rule (.heuristic p.watchedScopes)]

/-- The detectors of a profile that the options enable. -/
def detectors (options : RepairOptions) (p : Profile) : List Handler :=
  p.detectors.map Detector.handler ++ gated options .paranoidScan (p.paranoidDetectors.map Detector.handler)

/-- **The order of the table.** Rules, then the two finders that check references, then detectors. -/
theorem handlers_ofProfile (options : RepairOptions) (p : Profile) :
    (ofProfile options p).handlers =
      rules options p ++
        .finder (.missingMember p.watchedScopes) :: .finder (.unexpectedType p.watchedScopes) ::
          detectors options p := by
  have hscopes : ((ofScopes p.watchedScopes).filter (·.gate.isOpen options)).map (·.handler) =
      [.rule (.heuristic p.watchedScopes), .finder (.missingMember p.watchedScopes),
        .finder (.unexpectedType p.watchedScopes)] := rfl
  have halways : ∀ hs, gated options .always hs = hs := fun _ => rfl
  simp only [handlers, enabled, ofProfile, ofRelocations, ofDetectors, List.filter_append, List.map_append,
    handlers_behind, hscopes, halways, rules, detectors, List.append_assoc, List.cons_append,
    List.nil_append]

/-- The table with some more handlers at its end. -/
def extend (r : Registry) (added : List Registration) : Registry :=
  added.foldl add r

/-- The enabled handlers among those added. -/
def additions (options : RepairOptions) (added : List Registration) : List Handler :=
  (added.filter (·.gate.isOpen options)).map (·.handler)

/-- A table with additions is the table and then the additions, in their order. -/
theorem table_extend (r : Registry) (added : List Registration) : (r.extend added).table = r.table ++ added := by
  induction added generalizing r with
  | nil => exact (List.append_nil _).symm
  | cons e added ih =>
      have hrest : ((r.add e).extend added).table = (r.table ++ [e]) ++ added := ih _
      rwa [List.append_assoc] at hrest

theorem options_extend (r : Registry) (added : List Registration) : (r.extend added).options = r.options := by
  induction added generalizing r with
  | nil => rfl
  | cons e added ih => exact ih (r.add e)

/-- **What is added comes last.** -/
theorem handlers_extend (r : Registry) (added : List Registration) :
    (r.extend added).handlers = r.handlers ++ additions r.options added := by
  rw [handlers, enabled, table_extend, options_extend, List.filter_append, List.map_append]
  rfl

/-- The order of the table of a profile with additions. -/
theorem handlers_ofProfile_extend (options : RepairOptions) (p : Profile) (added : List Registration) :
    ((ofProfile options p).extend added).handlers =
      rules options p ++
        .finder (.missingMember p.watchedScopes) :: .finder (.unexpectedType p.watchedScopes) ::
          (detectors options p ++ additions options added) := by
  rw [handlers_extend, handlers_ofProfile, List.append_assoc]
  rfl

/-- Every rule of the table comes from a relocation, unless it is the heuristic. -/
theorem mem_rules {options : RepairOptions} {p : Profile} {h : Handler} (hh : h ∈ rules options p) :
    h = .rule (.heuristic p.watchedScopes) ∨
      ∃ r ∈ p.platformShims ++ p.relocations ++ p.patchEngineShims, h = r.handler := by
  simp only [rules, List.mem_append, mem_gated, List.mem_map, List.mem_singleton] at hh
  rcases hh with ((⟨-, r, hr, rfl⟩ | ⟨r, hr, rfl⟩) | ⟨-, r, hr, rfl⟩) | rfl
  · exact .inr ⟨r, by simp [hr], rfl⟩
  · exact .inr ⟨r, by simp [hr], rfl⟩
  · exact .inr ⟨r, by simp [hr], rfl⟩
  · exact .inl rfl

/-- What stands first in the table are rules. -/
theorem isMutating_of_mem_rules {options : RepairOptions} {p : Profile} {h : Handler} (hh : h ∈ rules options p) :
    h.isMutating := by
  rcases mem_rules hh with rfl | ⟨e, -, rfl⟩
  · rfl
  · rfl

/-- Rules do not make a run give up. -/
theorem not_mayAbort_of_mem_rules {options : RepairOptions} {p : Profile} {h : Handler} (hh : h ∈ rules options p) :
    ¬ h.MayAbort :=
  Handler.not_mayAbort_of_isMutating (isMutating_of_mem_rules hh)

/-- Where no table moves a type, no rule does. -/
theorem movesType_of_mem_rules {options : RepairOptions} {p : Profile}
    (hmoves : ∀ e ∈ p.platformShims ++ p.relocations ++ p.patchEngineShims, e.kind ≠ .typeRelocation)
    {h : Handler} (hh : h ∈ rules options p) : h.movesType = false := by
  rcases mem_rules hh with rfl | ⟨e, he, rfl⟩
  · rfl
  · exact Relocation.movesType_handler (hmoves e he)

/-- Every detector of the table comes from the profile, from the second of its tables only for a paranoid scan. -/
theorem mem_detectors {options : RepairOptions} {p : Profile} {h : Handler} (hh : h ∈ detectors options p) :
    ∃ d, (d ∈ p.detectors ∨ options.paranoid ∧ d ∈ p.paranoidDetectors) ∧ h = d.handler := by
  simp only [detectors, List.mem_append, mem_gated, List.mem_map] at hh
  rcases hh with ⟨d, hd, rfl⟩ | ⟨hopen, d, hd, rfl⟩
  · exact ⟨d, .inl hd, rfl⟩
  · exact ⟨d, .inr ⟨hopen, hd⟩, rfl⟩

/-- Every added handler comes from a line that was added, behind an open gate. -/
theorem mem_additions {options : RepairOptions} {added : List Registration} {h : Handler}
    (hh : h ∈ additions options added) : ∃ e ∈ added, e.gate.isOpen options ∧ h = e.handler := by
  obtain ⟨e, he, rfl⟩ := List.mem_map.mp hh
  obtain ⟨he, hopen⟩ := List.mem_filter.mp he
  exact ⟨e, he, hopen, rfl⟩

/-- No handler of a profile makes a run give up. -/
theorem not_mayAbort_ofProfile (options : RepairOptions) (p : Profile) :
    ∀ h ∈ (ofProfile options p).handlers, ¬ h.MayAbort := by
  intro h hh
  rw [handlers_ofProfile] at hh
  simp only [List.mem_append, List.mem_cons] at hh
  rcases hh with hh | rfl | rfl | hh
  · exact not_mayAbort_of_mem_rules hh
  · exact Handler.not_mayAbort_finder _
  · exact Handler.not_mayAbort_finder _
  · obtain ⟨d, -, rfl⟩ := mem_detectors hh
    exact Handler.not_mayAbort_finder d.finder

/-- Nor does any handler of a profile with additions, if none of those does. -/
theorem not_mayAbort_extend (options : RepairOptions) (p : Profile) {added : List Registration}
    (hadded : ∀ e ∈ added, ¬ e.handler.MayAbort) :
    ∀ h ∈ ((ofProfile options p).extend added).handlers, ¬ h.MayAbort := by
  intro h hh
  rw [handlers_extend] at hh
  rcases List.mem_append.mp hh with hh | hh
  · exact not_mayAbort_ofProfile options p h hh
  · obtain ⟨e, he, -, rfl⟩ := mem_additions hh
    exact hadded e he

/-- Types are moved only by relocations of types. -/
theorem exists_relocation_of_movesType {options : RepairOptions} {p : Profile} {h : Handler}
    (hh : h ∈ (ofProfile options p).handlers) (hmove : h.movesType) :
    ∃ e ∈ p.platformShims ++ p.relocations ++ p.patchEngineShims, e.kind = .typeRelocation ∧ h = e.handler := by
  rw [handlers_ofProfile] at hh
  simp only [List.mem_append, List.mem_cons] at hh
  rcases hh with hh | rfl | rfl | hh
  · rcases mem_rules hh with rfl | ⟨e, he, rfl⟩
    · cases hmove
    · by_cases hkind : e.kind = .typeRelocation
      · exact ⟨e, he, hkind, rfl⟩
      · rw [Relocation.movesType_handler hkind] at hmove
        cases hmove
  · cases hmove
  · cases hmove
  · obtain ⟨d, -, rfl⟩ := mem_detectors hh
    cases hmove

end Registry

/-! ## A small table

One assembly whose type `A` has lost what mods still refer to, modules of a single method that refers to it, and
profiles of one relocation. -/

namespace Sample

def int32 : TypeRef := ⟨ascii "Runtime", ascii "Int32"⟩

/-- The type whose members have gone. -/
def typeA : TypeRef := ⟨ascii "Host", ascii "A"⟩

/-- The type that has a static property `p` with a getter. -/
def typeB : TypeRef := ⟨ascii "Host", ascii "B"⟩

def getP : Signature := ⟨ascii "get_p", int32, [], true⟩

def declA : TypeDecl := ⟨ascii "A", [], [], [], []⟩

def declB : TypeDecl :=
  ⟨ascii "B", [], [⟨getP, none⟩], [⟨ascii "p", int32, some (ascii "get_p"), none⟩], []⟩

def host : Host := ⟨[⟨ascii "Host", [declA, declB]⟩]⟩

/-- A load of the static field `f` that `A` no longer has. -/
def loadF : Instruction := ⟨.ldsfld, .field ⟨typeA, ascii "f", int32⟩⟩

/-- A call of the static method `g` that `A` no longer has. -/
def callG : Instruction := ⟨.call, .method ⟨typeA, ascii "g", int32, [], false⟩⟩

/-- A call of the getter of `p`. -/
def callGetP : Instruction := ⟨.call, .method (getP.refOn typeB)⟩

/-- A module of one method with the given body. -/
def moduleOf (body : List Instruction) : Module :=
  ⟨ascii "Mod", some host, [⟨ascii "T", [], [⟨⟨ascii "Run", int32, [], true⟩, some body⟩], [], []⟩],
    ImportTables.empty⟩

/-- The field `f` of `A` is now the property `p` of `B`. -/
def fieldMoved : Relocation := ⟨.fieldToProperty, typeA, ascii "f", typeB, ascii "p", none⟩

/-- A method of the module itself that takes an `A`. -/
def takesA : Signature := ⟨ascii "Take", int32, [typeA], true⟩

/-- A module whose only method takes an `A` and calls itself. -/
def recursiveModule : Module :=
  ⟨ascii "Mod", some host,
    [⟨ascii "T", [], [⟨takesA, some [⟨.call, .method (takesA.refOn ⟨ascii "Mod", ascii "T"⟩)⟩]⟩], [], []⟩],
    ImportTables.empty⟩

/-- The type `A` is now `B`. -/
def typeMoved : Relocation := ⟨.typeRelocation, typeA, [], typeB, [], none⟩

/-- A profile that watches the host, with one relocation and the given detectors. -/
def profileOf (relocations : List Relocation) (detectors : List Detector) : Profile :=
  ⟨[ascii "Host"], relocations, [], [], detectors, []⟩

end Sample

end ModRepair
