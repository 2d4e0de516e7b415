import ModRepair.Proofs.Repair.Rejection

/-!
# Properties that do not resolve

A reference to a property goes by name and type, so there are four ways in which it can fail: the assembly is not there,
the type is not, nothing on the type has the name, or what has the name is of another type. The first finder that checks
references knows three of them, for it looks for the name alone; the second looks at fields and methods only. The
fourth goes unnoticed, although a field or a method of another type is flagged.

* `Loss`, `PropertyRef.Lost` — the four ways, with `property?_eq_none_iff`: there are no others;
* `Lost.missing`, `Lost.unexpected` — **what each finder says**, way by way;
* `property_loss_flagged_iff` — which losses are flagged, and that a module is rejected for them;
* `retyped_property_escapes` — a module that holds a reference to a property of another type is accepted as it is.
-/

namespace ModRepair

/-! ## Ways of losing a property -/

/-- The declared types of a scope: the module's own for its own name, else those of an assembly of the host. -/
def Module.typesOf? (m : Module) (scope : Bytes) : Option (List TypeDecl) :=
  if scope = m.name then some m.types else (m.host.bind (·.assembly? scope)).map (·.types)

theorem Module.type?_eq_bind (m : Module) (t : TypeRef) :
    m.type? t = (m.typesOf? t.scope).bind fun types => types.find? (·.fullName == t.fullName) := by
  unfold type? typesOf?
  split
  · rfl
  · cases m.host with
    | none => rfl
    | some h =>
        show (h.assembly? t.scope).bind (·.typeNamed? t.fullName) = ((h.assembly? t.scope).map (·.types)).bind _
        rw [Option.bind_map]
        rfl

/-- What is missing where a reference to a property does not resolve. -/
inductive Loss
  | assembly
  | type
  | name
  /-- The property is of another type. -/
  | valueType
  deriving DecidableEq, Repr

/-- **How a reference to a property fails** in a module. -/
inductive PropertyRef.Lost (m : Module) (r : PropertyRef) : Loss → Prop
  | assembly (hscope : m.typesOf? r.declaringType.scope = none) : Lost m r .assembly
  | type {types : List TypeDecl} (hscope : m.typesOf? r.declaringType.scope = some types)
      (hgone : ∀ t ∈ types, t.fullName ≠ r.declaringType.fullName) : Lost m r .type
  | name {t : TypeDecl} (htype : m.type? r.declaringType = some t) (hgone : ∀ p ∈ t.properties, p.name ≠ r.name) :
      Lost m r .name
  | valueType {t : TypeDecl} {p : PropertyDecl} (htype : m.type? r.declaringType = some t) (hp : p ∈ t.properties)
      (hname : p.name = r.name) (hother : ∀ q ∈ t.properties, q.name = r.name → q.type ≠ r.propertyType) :
      Lost m r .valueType

section

variable {m : Module} {r : PropertyRef} {loss : Loss} {scopes : List Bytes} {i : Instruction}

/-- A type is not found if its assembly is not there, or declares none of the name. -/
theorem type?_eq_none_iff {t : TypeRef} :
    m.type? t = none ↔
      m.typesOf? t.scope = none ∨
        ∃ types, m.typesOf? t.scope = some types ∧ ∀ d ∈ types, d.fullName ≠ t.fullName := by
  rw [Module.type?_eq_bind]
  cases m.typesOf? t.scope with
  | none => simp
  | some types => simp

theorem property?_of_type {t : TypeDecl} (htype : m.type? r.declaringType = some t) :
    m.resolver.property? r = t.properties.find? r.names := by
  rw [Resolver.property?, Module.resolver, htype]
  rfl

/-- **There is no other way**: a reference to a property does not resolve exactly if it is lost in one of the four. -/
theorem property?_eq_none_iff : m.resolver.property? r = none ↔ ∃ loss, r.Lost m loss := by
  cases htype : m.type? r.declaringType with
  | none =>
      have hnone : m.resolver.property? r = none := by
        rw [Resolver.property?, Module.resolver, htype]
        rfl
      refine iff_of_true hnone ?_
      rcases type?_eq_none_iff.mp htype with hscope | ⟨types, hscope, hgone⟩
      · exact ⟨.assembly, .assembly hscope⟩
      · exact ⟨.type, .type hscope hgone⟩
  | some t =>
      have hfound : ¬ m.type? r.declaringType = none := by simp [htype]
      rw [property?_of_type htype, List.find?_eq_none]
      constructor
      · intro hnone
        by_cases hname : ∃ p ∈ t.properties, p.name = r.name
        · obtain ⟨p, hp, hname⟩ := hname
          refine ⟨.valueType, .valueType htype hp hname fun q hq hqname hqtype => ?_⟩
          exact hnone q hq (PropertyRef.names_iff.mpr ⟨hqname, hqtype⟩)
        · refine ⟨.name, .name htype fun p hp hpname => hname ⟨p, hp, hpname⟩⟩
      · rintro ⟨loss, hlost⟩ q hq hnames
        obtain ⟨hqname, hqtype⟩ := PropertyRef.names_iff.mp hnames
        cases hlost with
        | assembly hscope => exact hfound (type?_eq_none_iff.mpr (.inl hscope))
        | type hscope hgone => exact hfound (type?_eq_none_iff.mpr (.inr ⟨_, hscope, hgone⟩))
        | name htype' hgone =>
            cases htype.symm.trans htype'
            exact hgone q hq hqname
        | valueType htype' hp hname hother =>
            cases htype.symm.trans htype'
            exact hother q hq hqname hqtype

/-! ## The finders -/

/-- What the first finder says of a loss. -/
def Loss.finding? (r : PropertyRef) : Loss → Option Finding
  | .assembly | .type => some (Finder.missing r.declaringType.fullName "type")
  | .name => some (Finder.missing (Finder.qualified r.declaringType r.name) "property")
  | .valueType => none

/-- The first finder looks at a property of a watched type by its name. -/
theorem missingMember_property (hi : i.operand = .property r) (hwatched : watched scopes r.declaringType = true) :
    (Finder.missingMember scopes).finding? m.resolver i =
      Finder.missingOn m.resolver r.declaringType r.name "property" fun s => (s.propertyNamed? r.name).isSome := by
  obtain ⟨opcode, operand⟩ := i
  cases hi
  exact if_pos hwatched

/-- **The first finder** tells the ways apart, and says nothing of a property that has another type. -/
theorem PropertyRef.Lost.missing (hlost : r.Lost m loss) (hi : i.operand = .property r)
    (hwatched : watched scopes r.declaringType = true) :
    (Finder.missingMember scopes).finding? m.resolver i = loss.finding? r := by
  have habsent : m.type? r.declaringType = none → Finder.missingOn m.resolver r.declaringType r.name "property"
      (fun s => (s.propertyNamed? r.name).isSome) = some (Finder.missing r.declaringType.fullName "type") := by
    intro htype
    rw [Finder.missingOn, Module.resolver, htype]
    rfl
  rw [missingMember_property hi hwatched]
  cases hlost with
  | assembly hscope => exact habsent (type?_eq_none_iff.mpr (.inl hscope))
  | type hscope hgone => exact habsent (type?_eq_none_iff.mpr (.inr ⟨_, hscope, hgone⟩))
  | @name t htype hgone =>
      have hnone : (t.surface.propertyNamed? r.name).isSome = false := by
        rw [Option.isSome_eq_false_iff, Option.isNone_iff_eq_none]
        exact List.find?_eq_none.mpr fun p hp => by simpa using hgone p hp
      rw [Finder.missingOn, Module.resolver, htype, Option.map_some]
      simp only [hnone]
      rfl
  | @valueType t p htype hp hname hother =>
      have hsome : (t.surface.propertyNamed? r.name).isSome = true :=
        List.find?_isSome.mpr ⟨p, hp, beq_iff_eq.mpr hname⟩
      rw [Finder.missingOn, Module.resolver, htype, Option.map_some]
      simp only [hsome]
      rfl

/-- **The second finder** says nothing of any property. -/
theorem unexpectedType_property (hi : i.operand = .property r) :
    (Finder.unexpectedType scopes).finding? m.resolver i = none := by
  obtain ⟨opcode, operand⟩ := i
  cases hi
  rfl

/-- A loss is flagged unless the property has another type. -/
theorem PropertyRef.Lost.flagged_iff (hlost : r.Lost m loss) (hi : i.operand = .property r)
    (hwatched : watched scopes r.declaringType = true) : flagged scopes m.resolver i ↔ loss ≠ .valueType := by
  rw [flagged, hlost.missing hi hwatched, unexpectedType_property hi]
  cases loss <;> simp [Loss.finding?]

end

/-! ## What is rejected -/

/-- **Which properties are missed.** Let an instruction of any module refer to a property of a watched type. The
    reference does not resolve exactly if it is lost in one of four ways, and the finders flag the instruction in all of
    them but one: the type has properties of that name, of other types. Where no rule of a profile claims the
    instruction, the module is rejected for what is flagged; what is not flagged can only be claimed by detectors and by
    handlers that are added. -/
theorem property_loss_flagged_iff (m : Module) (scopes : List Bytes) {i : Instruction} {r : PropertyRef}
    (hi : i.operand = .property r) (hwatched : watched scopes r.declaringType = true) :
    (m.resolver.property? r = none ↔ ∃ loss, r.Lost m loss) ∧
      ∀ loss, r.Lost m loss →
        (flagged scopes m.resolver i ↔ loss ≠ .valueType) ∧
          ∀ (options : RepairOptions) (p : Profile) (added : List Registration), p.watchedScopes = scopes →
            (∀ e ∈ added, ¬ e.handler.MayAbort) → i ∈ m.instructions →
            (∀ h ∈ Registry.rules options p, (h.offer m.resolver i).passes) →
              let registry := (Registry.ofProfile options p).extend added
              (loss ≠ .valueType →
                  ∃ report, (registry.repair m).report = .ok report ∧ report.disposition = .reject) ∧
                (loss = .valueType → ∀ c, claimOf? m.resolver registry.handlers i = some c →
                  ∃ h ∈ Registry.detectors options p ++ Registry.additions options added,
                    h.offer m.resolver i = .claimed c) := by
  refine ⟨property?_eq_none_iff, fun loss hlost => ⟨hlost.flagged_iff hi hwatched, ?_⟩⟩
  intro options p added hscopes hadded hmem hrules registry
  subst hscopes
  have hflagged := hlost.flagged_iff hi hwatched
  constructor
  · intro hloss
    exact rejected_of_flagged options p hadded hmem hrules (hflagged.mpr hloss)
  · intro hloss c hc
    have hclear : ¬ flagged p.watchedScopes m.resolver i := fun h => hflagged.mp h hloss
    -- Rules let it pass and finders are silent, so it is left to those that come later.
    rw [Registry.handlers_ofProfile_extend,
      claimOf?_of_not_flagged (fun h => Registry.not_mayAbort_of_mem_rules) hrules hclear] at hc
    exact exists_mem_of_claimOf? hc

namespace Sample

/-- A token of a property of `B`. -/
def tokenOfB (property : Bytes) (type : TypeRef) : Instruction :=
  ⟨.ldtoken, .property ⟨typeB, property, type⟩⟩

end Sample

/-- `B` has no property `q`, and a module that refers to it is rejected. Its property `p` is a number: a reference to it
    as anything else does not resolve, and is not flagged. -/
theorem property_loss_flagged_iff_sample :
    let q := Sample.tokenOfB (ascii "q") Sample.int32
    let p := Sample.tokenOfB (ascii "p") Sample.typeA
    let m := Sample.moduleOf [q, p]
    (∃ report, ((Registry.ofProfile .standard (Sample.profileOf [] [])).repair m).report = .ok report ∧
        report.disposition = .reject) ∧
      m.resolver.property? ⟨Sample.typeB, ascii "p", Sample.typeA⟩ = none ∧
        ¬ flagged [ascii "Host"] m.resolver p := by
  intro q p m
  have hq := (property_loss_flagged_iff m [ascii "Host"] (i := q) rfl rfl).2 .name (.name rfl (by decide))
  have hrules : ∀ h ∈ Registry.rules .standard (Sample.profileOf [] []), (h.offer m.resolver q).passes := by
    decide
  have hreject := (hq.2 .standard (Sample.profileOf [] []) [] rfl nofun (by decide) hrules).1 nofun
  have hp := property_loss_flagged_iff m [ascii "Host"] (i := p) rfl rfl
  have hlost : PropertyRef.Lost m ⟨Sample.typeB, ascii "p", Sample.typeA⟩ .valueType :=
    .valueType rfl (List.mem_singleton.mpr rfl) rfl (by decide)
  exact ⟨hreject, hp.1.mpr ⟨_, hlost⟩, fun h => (hp.2 _ hlost).1.mp h rfl⟩

/-- **A broken reference escapes**: the module refers to the number `p` as to an `A`. The reference does not resolve,
    neither finder flags it, and the module is accepted as it is. -/
theorem retyped_property_escapes :
    let r : PropertyRef := ⟨Sample.typeB, ascii "p", Sample.typeA⟩
    let i : Instruction := ⟨.ldtoken, .property r⟩
    let m := Sample.moduleOf [i]
    let outcome := (Registry.ofProfile .standard (Sample.profileOf [] [])).repair m
    i.isWellFormed = true ∧ watched [ascii "Host"] r.declaringType = true ∧ m.resolver.property? r = none ∧
      (Finder.missingMember [ascii "Host"]).finding? m.resolver i = none ∧
      (Finder.unexpectedType [ascii "Host"]).finding? m.resolver i = none ∧
      outcome.report.toOption.map (·.disposition) = some .accept ∧ outcome.module = m := by
  decide

end ModRepair
