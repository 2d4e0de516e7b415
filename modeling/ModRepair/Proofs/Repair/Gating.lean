import Mathlib.Data.List.Basic
import ModRepair.Proofs.Repair.Table

/-!
# Gates

The table of a profile is drawn up without regard to the options. These only decide which gates are open, and so which
lines are in use: handlers and labels are read off the same lines, in the order of the table.

* `Gate.isOpen_opening` — **gates are independent**;
* `Registry.Lists`, `Registry.lists_places` — **what a table lists**: handlers and labels of the lines at certain places,
  which are those behind open gates;
* `Registry.table_ofProfile_extend`, `Registry.mem_places_opening` — the same table for all options, and the places that
  **opening a gate** adds;
* `Registry.rules_first` — **rules come first**, whatever the profile is;
* `table_ordered_and_gated` — all of this for the table of a profile with additions.
-/

namespace ModRepair

/-! ## Opening a gate -/

/-- The options with a gate opened and the other gates as they are. -/
def RepairOptions.opening (options : RepairOptions) : Gate → RepairOptions
  | .always => options
  | .crossPlatform => { options with crossPlatform := true }
  | .patchEngineMissing => { options with patchEngine := false }
  | .paranoidScan => { options with paranoid := true }

/-- **Gates are independent**: opening one opens no other and shuts none. -/
theorem Gate.isOpen_opening {options : RepairOptions} {g g' : Gate} :
    g'.isOpen (options.opening g) = true ↔ g' = g ∨ g'.isOpen options = true := by
  cases g <;> cases g' <;> simp [isOpen, RepairOptions.opening]

namespace Registry

/-! ## What a table lists -/

/-- A registry lists the lines at some places of its table, in the order of the table: the places of the lines behind
    open gates. The handlers are those of these lines, and so are the labels. -/
structure Lists (r : Registry) (places : List Nat) : Prop where
  ascending : places.Pairwise (· < ·)
  mem_iff : ∀ k, k ∈ places ↔ ∃ e, r.table[k]? = some e ∧ e.gate.isOpen r.options = true
  handlers : r.handlers.map some = places.map fun k => r.table[k]?.map (·.handler)
  labels : r.labels.map some = places.map fun k => r.table[k]?.map (·.label)

/-- The places of the lines behind open gates. -/
def places (r : Registry) : List Nat :=
  r.table.findIdxs (·.gate.isOpen r.options)

theorem mem_places {r : Registry} {k : Nat} :
    k ∈ r.places ↔ ∃ e, r.table[k]? = some e ∧ e.gate.isOpen r.options = true := by
  rw [places, List.mem_findIdxs_iff_exists_getElem_pos]
  constructor
  · rintro ⟨hk, hopen⟩
    exact ⟨r.table[k], List.getElem?_eq_getElem hk, hopen⟩
  · rintro ⟨e, he, hopen⟩
    obtain ⟨hk, rfl⟩ := List.getElem?_eq_some_iff.mp he
    exact ⟨hk, hopen⟩

/-- The lines behind open gates stand at these places. -/
theorem map_enabled (r : Registry) : r.enabled.map some = r.places.map (r.table[·]?) := by
  apply List.ext_getElem
  · rw [List.length_map, List.length_map, places, List.length_findIdxs, List.countP_eq_length_filter, enabled]
  · intro i hi hi'
    rw [List.length_map] at hi hi'
    have hline : r.table[r.places[i]]? = some r.enabled[i] :=
      List.getElem?_eq_some_iff.mpr
        ⟨List.getElem_findIdxs_lt hi', (List.getElem_filter_eq_getElem_getElem_findIdxs hi).symm⟩
    rw [List.getElem_map, List.getElem_map, hline]

/-- Whatever is read off the lines behind open gates is read off these places. -/
theorem map_map_enabled {β : Type} (r : Registry) (f : Registration → β) :
    (r.enabled.map f).map some = r.places.map fun k => r.table[k]?.map f :=
  calc (r.enabled.map f).map some = (r.enabled.map some).map (Option.map f) := by
        rw [List.map_map, List.map_map]
        rfl
    _ = (r.places.map (r.table[·]?)).map (Option.map f) := by rw [map_enabled]
    _ = r.places.map fun k => r.table[k]?.map f := List.map_map

/-- **What a table lists** are the lines behind open gates. -/
theorem lists_places (r : Registry) : r.Lists r.places where
  ascending := List.pairwise_findIdxs
  mem_iff := fun _ => mem_places
  handlers := r.map_map_enabled (·.handler)
  labels := r.map_map_enabled (·.label)

/-- **Opening a gate** adds the places of the lines behind it. -/
theorem mem_places_opening {r r' : Registry} {g : Gate} (htable : r'.table = r.table)
    (hoptions : r'.options = r.options.opening g) {k : Nat} :
    k ∈ r'.places ↔ k ∈ r.places ∨ ∃ e, r.table[k]? = some e ∧ e.gate = g := by
  simp only [mem_places, htable, hoptions, Gate.isOpen_opening, and_or_left, exists_or]
  exact or_comm

/-! ## Tables of profiles -/

/-- The table of a profile with additions is the same for all options. -/
theorem table_ofProfile_extend (options : RepairOptions) (p : Profile) (added : List Registration) :
    ((ofProfile options p).extend added).table =
      ofRelocations .crossPlatform p.platformShims ++ ofRelocations .always p.relocations ++
        ofRelocations .patchEngineMissing p.patchEngineShims ++ ofScopes p.watchedScopes ++
        ofDetectors .always p.detectors ++ ofDetectors .paranoidScan p.paranoidDetectors ++ added :=
  table_extend _ _

/-- Where handlers that may change something stand in front of handlers that may not, whatever precedes one of the
    former is one of them too. -/
theorem pairwise_isMutating {front back : List Handler} (hfront : ∀ h ∈ front, h.isMutating = true)
    (hback : ∀ h ∈ back, h.isMutating = false) :
    (front ++ back).Pairwise fun h h' => h'.isMutating = true → h.isMutating = true := by
  refine List.pairwise_append.mpr ⟨?_, ?_, ?_⟩
  · exact List.pairwise_of_forall_mem_list fun h hh _ _ _ => hfront h hh
  · refine List.pairwise_of_forall_mem_list fun _ _ h' hh' hmutating => ?_
    rw [hback h' hh'] at hmutating
    cases hmutating
  · exact fun h hh _ _ _ => hfront h hh

/-- Behind the rules of a table no handler changes anything, if none of those added does. -/
theorem isMutating_of_mem_back {options : RepairOptions} {p : Profile} {added : List Registration}
    (hadded : ∀ e ∈ added, e.handler.isMutating = false) {h : Handler}
    (hh : h ∈ .finder (.missingMember p.watchedScopes) :: .finder (.unexpectedType p.watchedScopes) ::
      (detectors options p ++ additions options added)) : h.isMutating = false := by
  simp only [List.mem_cons, List.mem_append] at hh
  rcases hh with rfl | rfl | hh | hh
  · rfl
  · rfl
  · obtain ⟨d, -, rfl⟩ := mem_detectors hh
    rfl
  · obtain ⟨e, he, -, rfl⟩ := mem_additions hh
    exact hadded e he

/-- **Rules come first** in the table of a profile, whatever handlers that change nothing are added. -/
theorem rules_first (options : RepairOptions) (p : Profile) {added : List Registration}
    (hadded : ∀ e ∈ added, e.handler.isMutating = false) :
    ((ofProfile options p).extend added).handlers.Pairwise fun h h' => h'.isMutating = true → h.isMutating = true := by
  rw [handlers_ofProfile_extend]
  exact pairwise_isMutating (fun _ => isMutating_of_mem_rules) fun _ => isMutating_of_mem_back hadded

end Registry

/-- **The table of handlers** is in order and gated. Take any profile and options, and add any handlers that change
    nothing. The table has a line for each entry of each table of the profile, in the order of the entries, and then
    the lines that were added. What is listed, handlers and labels alike, are the lines at certain places, in the order
    of the table: those behind open gates. So each table of the profile whose gate is open contributes a handler for
    each entry, in their order. Of two handlers that are listed, the later one may change something only if the earlier
    one may. With one more gate open, the same table is listed at the same places and at those of the lines behind this
    gate. -/
theorem table_ordered_and_gated (options : RepairOptions) (p : Profile) (added : List Registration)
    (hadded : ∀ e ∈ added, e.handler.isMutating = false) :
    let r := (Registry.ofProfile options p).extend added
    r.table =
        Registry.ofRelocations .crossPlatform p.platformShims ++ Registry.ofRelocations .always p.relocations ++
          Registry.ofRelocations .patchEngineMissing p.patchEngineShims ++ Registry.ofScopes p.watchedScopes ++
          Registry.ofDetectors .always p.detectors ++ Registry.ofDetectors .paranoidScan p.paranoidDetectors ++ added ∧
      r.handlers =
        Registry.gated options .crossPlatform (p.platformShims.map Relocation.handler) ++
          p.relocations.map Relocation.handler ++
          Registry.gated options .patchEngineMissing (p.patchEngineShims.map Relocation.handler) ++
          [.rule (.heuristic p.watchedScopes), .finder (.missingMember p.watchedScopes),
            .finder (.unexpectedType p.watchedScopes)] ++
          p.detectors.map Detector.handler ++
          Registry.gated options .paranoidScan (p.paranoidDetectors.map Detector.handler) ++
          Registry.additions options added ∧
      (r.handlers.Pairwise fun h h' => h'.isMutating = true → h.isMutating = true) ∧
      ∃ places, r.Lists places ∧
        ∀ g : Gate, ∃ places',
          let r' := (Registry.ofProfile (options.opening g) p).extend added
          r'.Lists places' ∧ r'.table = r.table ∧
            ∀ k, k ∈ places' ↔ k ∈ places ∨ ∃ e, r.table[k]? = some e ∧ e.gate = g := by
  intro r
  refine ⟨Registry.table_ofProfile_extend options p added, ?_, Registry.rules_first options p hadded, r.places,
    r.lists_places, fun g => ?_⟩
  · show ((Registry.ofProfile options p).extend added).handlers = _
    rw [Registry.handlers_ofProfile_extend, Registry.rules, Registry.detectors]
    simp only [List.append_assoc, List.cons_append, List.nil_append]
  · let r' := (Registry.ofProfile (options.opening g) p).extend added
    have htable : r'.table = r.table := by
      rw [Registry.table_ofProfile_extend, Registry.table_ofProfile_extend]
    have hoptions : r'.options = r.options.opening g := by
      rw [Registry.options_extend, Registry.options_extend]
      rfl
    exact ⟨r'.places, r'.lists_places, htable, fun k => Registry.mem_places_opening htable hoptions⟩

/-- A table of eight lines: a shim for other platforms, a relocation, the three handlers that look after a watched
    assembly, a detector, and behind the gate of a paranoid scan one more detector and an addition. Opening the gate of
    the shim puts it in front and leaves the paranoid lines out. -/
theorem table_ordered_and_gated_sample :
    let p : Profile :=
      { Sample.profileOf [Sample.fieldMoved] [⟨.type, ascii "B", [], .consoleAccess⟩] with
        platformShims := [Sample.typeMoved]
        paranoidDetectors := [⟨.type, ascii "A", [], .dynamic⟩] }
    let added : List Registration := [⟨.paranoidScan, ascii "extra", .probe ⟨.claim, [], .dynamic, []⟩⟩]
    let r := (Registry.ofProfile .standard p).extend added
    let r' := (Registry.ofProfile (RepairOptions.standard.opening .crossPlatform) p).extend added
    (∀ e ∈ added, e.handler.isMutating = false) ∧
      (r'.handlers.Pairwise fun h h' => h'.isMutating = true → h.isMutating = true) ∧
      r.handlers.length = 5 ∧ r'.labels = ascii "type_relocation A" :: r.labels ∧
      ∃ places places', r.Lists places ∧ r'.Lists places' ∧ 0 ∉ places ∧ 0 ∈ places' ∧ 7 ∉ places' := by
  intro p added r r'
  have hadded : ∀ e ∈ added, e.handler.isMutating = false := by decide
  obtain ⟨-, -, -, places, hlists, hopening⟩ := table_ordered_and_gated .standard p added hadded
  obtain ⟨places', hlists', -, hplaces'⟩ := hopening .crossPlatform
  obtain ⟨-, -, hrules, -⟩ :=
    table_ordered_and_gated (RepairOptions.standard.opening .crossPlatform) p added hadded
  have hshut : ∀ k e, r.table[k]? = some e → e.gate.isOpen .standard = false → k ∉ places := by
    intro k e he hshut hk
    obtain ⟨e', he', hopen⟩ := (hlists.mem_iff k).mp hk
    cases he.symm.trans he'
    exact Bool.false_ne_true (hshut.symm.trans hopen)
  refine ⟨hadded, hrules, by decide, by decide, places, places', hlists, hlists', ?_, ?_, ?_⟩
  · exact hshut 0 _ rfl rfl
  · exact (hplaces' 0).mpr (.inr ⟨_, rfl, rfl⟩)
  · rw [hplaces' 7]
    rintro (h | ⟨e, he, hgate⟩)
    · exact hshut 7 _ rfl rfl h
    · cases he
      cases hgate

end ModRepair
