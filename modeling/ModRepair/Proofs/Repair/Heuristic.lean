import ModRepair.Proofs.Repair.Table

/-!
# What the heuristic does

The heuristic looks for a field, its type, a property and an accessor, and stops at the first that fits each time. This
file says the same of the declarations of a module, without a search: which conditions there are, and which of several
properties and overloads counts.

* `IsFirst` — the first of a list that meets a condition, with `find?_eq_some_iff_isFirst` for the search;
* `Opcode.Uses` — the four opcodes that load or store a field;
* `Superseded`, `MethodDecl.Serves` — **the conditions**, on instruction and type and on the method;
* `accessorNamed?_iff_isFirst` — the search for an accessor of a module's type, at both of its levels;
* `heuristic_claims_iff` — when the heuristic claims an instruction, and with what.
-/

namespace ModRepair

/-! ## The first of a list -/

/-- The first element of a list that meets a condition: no element that stands before it does. -/
def IsFirst {α : Type} (p : α → Prop) (l : List α) (a : α) : Prop :=
  p a ∧ ∃ before after, l = before ++ a :: after ∧ ∀ b ∈ before, ¬ p b

section

variable {α : Type} {l : List α} {a : α}

/-- A search by a test ends at the first element that passes. -/
theorem find?_eq_some_iff_isFirst {test : α → Bool} : l.find? test = some a ↔ IsFirst (test · = true) l a := by
  rw [List.find?_eq_some_iff_append]
  simp only [IsFirst, Bool.not_eq_true', Bool.not_eq_true]

/-- Conditions that are met by the same elements have the same first. -/
theorem isFirst_congr {p q : α → Prop} (h : ∀ b, p b ↔ q b) : IsFirst p l a ↔ IsFirst q l a := by
  simp only [IsFirst, h]

/-- **There is a first** if there is any. -/
theorem exists_isFirst_iff {p : α → Prop} : (∃ a, IsFirst p l a) ↔ ∃ a ∈ l, p a := by
  constructor
  · rintro ⟨a, ha, before, after, rfl, -⟩
    exact ⟨a, by simp, ha⟩
  · rintro ⟨a, hmem, ha⟩
    classical
    have hfound : (l.find? (p ·)).isSome := List.find?_isSome.mpr ⟨a, hmem, by simpa using ha⟩
    obtain ⟨first, hfirst⟩ := Option.isSome_iff_exists.mp hfound
    exact ⟨first, (isFirst_congr fun b => by simp).mp (find?_eq_some_iff_isFirst.mp hfirst)⟩

end

/-! ## The conditions -/

/-- The opcodes that load or store a field, with the accessor that does the same for a property, and whether the field
    is static. -/
inductive Opcode.Uses : Opcode → Accessor → Bool → Prop
  | ldfld : Uses .ldfld .getter false
  | stfld : Uses .stfld .setter false
  | ldsfld : Uses .ldsfld .getter true
  | stsfld : Uses .stsfld .setter true

theorem Opcode.uses_iff {op : Opcode} {kind : Accessor} {isStatic : Bool} :
    op.Uses kind isStatic ↔ op.accessor? = some kind ∧ op.isStaticAccess = isStatic := by
  constructor
  · intro h
    cases h <;> exact ⟨rfl, rfl⟩
  · rintro ⟨hkind, rfl⟩
    cases op with
    | ldfld => cases hkind; exact .ldfld
    | stfld => cases hkind; exact .stfld
    | ldsfld => cases hkind; exact .ldsfld
    | stsfld => cases hkind; exact .stsfld
    | _ => cases hkind

/-- A method of a name that can be called as an accessor of a kind, on a receiver or without one. -/
structure MethodDecl.Serves (name : Bytes) (kind : Accessor) (isStatic : Bool) (d : MethodDecl) : Prop where
  name : d.signature.name = name
  parameters : d.signature.parameters.length = kind.arity
  static : d.signature.isStatic = isStatic

/-- An instruction uses a field `r` of a watched type that has gone, and the type `t` now has a property in its place:
    the first property of the field's name says that its accessor is called `accessor`. -/
structure Superseded (m : Module) (scopes : List Bytes) (i : Instruction) (r : FieldRef) (kind : Accessor)
    (isStatic : Bool) (t : TypeDecl) (accessor : Bytes) : Prop where
  opcode : i.opcode.Uses kind isStatic
  operand : i.operand = .field r
  watched : r.declaringType.scope ∈ scopes
  gone : m.resolver.field? r = none
  type : m.type? r.declaringType = some t
  property : ∃ p, IsFirst (·.name = r.name) t.properties p ∧ p.accessorName? kind = some accessor

/-! ## The search -/

section

variable {m : Module} {t : TypeRef} {property : Bytes} {kind : Accessor} {isStatic : Bool} {s : Signature}

/-- What a property takes for its accessor is a method that serves, under the name that the property gives. -/
theorem isAccessor_signature_iff {p : PropertyDecl} {d : MethodDecl} :
    p.isAccessor kind isStatic d.signature = true ↔
      ∃ name, p.accessorName? kind = some name ∧ d.Serves name kind isStatic := by
  rw [isAccessor_iff]
  constructor
  · rintro ⟨hname, hparameters, hstatic⟩
    exact ⟨d.signature.name, hname, rfl, hparameters, hstatic⟩
  · rintro ⟨name, hname, rfl, hparameters, hstatic⟩
    exact ⟨hname, hparameters, hstatic⟩

/-- The first method of a type that a property takes for its accessor. -/
theorem accessor?_surface_iff {type : TypeDecl} {p : PropertyDecl} :
    type.surface.accessor? p kind isStatic = some s ↔
      ∃ name d, p.accessorName? kind = some name ∧ IsFirst (MethodDecl.Serves name kind isStatic) type.methods d ∧
        d.signature = s := by
  have hsearch : type.surface.accessor? p kind isStatic =
      (type.methods.find? (p.isAccessor kind isStatic ·.signature)).map (·.signature) := List.find?_map
  rw [hsearch, Option.map_eq_some_iff]
  simp only [find?_eq_some_iff_isFirst, isAccessor_signature_iff]
  -- The property gives one name, so the condition on methods is to serve under that one.
  cases hname : p.accessorName? kind with
  | none => simp [IsFirst]
  | some name => simp

/-- **The search for an accessor**: the first property of the name, and the first method that serves it. -/
theorem accessorNamed?_iff_isFirst :
    m.resolver.accessorNamed? t property kind isStatic = some s ↔
      ∃ type p name d, m.type? t = some type ∧ IsFirst (·.name = property) type.properties p ∧
        p.accessorName? kind = some name ∧ IsFirst (MethodDecl.Serves name kind isStatic) type.methods d ∧
        d.signature = s := by
  have hproperty : ∀ (type : TypeDecl) p,
      type.surface.propertyNamed? property = some p ↔ IsFirst (·.name = property) type.properties p := by
    intro type p
    exact find?_eq_some_iff_isFirst.trans (isFirst_congr fun q => beq_iff_eq)
  unfold Resolver.accessorNamed? Module.resolver
  cases m.type? t with
  | none => simp
  | some type => simp [Option.bind_eq_some_iff, hproperty, accessor?_surface_iff]

end

/-! ## The heuristic -/

/-- What the heuristic claims of a field with a method that serves in its place. -/
def propertyClaim (r : FieldRef) (s : Signature) : Claim where
  category := .repaired
  phrase := r.declaringType.name ++ ascii "." ++ r.name ++ ascii " (field => property)"
  instruction := ⟨.call, .method (s.refOn r.declaringType)⟩
  imports := [.method (s.refOn r.declaringType)]

/-- The heuristic claims what is superseded, with the first method that serves. -/
theorem heuristic_offer_eq_claimed {m : Module} {scopes : List Bytes} {i : Instruction} {c : Claim} :
    (Handler.rule (.heuristic scopes)).offer m.resolver i = .claimed c ↔
      ∃ r kind isStatic t accessor, Superseded m scopes i r kind isStatic t accessor ∧
        ∃ d, IsFirst (MethodDecl.Serves accessor kind isStatic) t.methods d ∧ c = propertyClaim r d.signature := by
  have hscopes : ∀ t : TypeRef, watched scopes t = true ↔ t.scope ∈ scopes := by simp [watched]
  rw [Handler.rule_offer_eq_claimed]
  constructor
  · rintro ⟨rep, hrep, rfl⟩
    obtain ⟨r, kind, s, hoperand, hwatched, hgone, hkind, hs, rfl⟩ := Rule.heuristic_iff.mp hrep
    obtain ⟨t, p, accessor, d, ht, hp, hname, hd, rfl⟩ := accessorNamed?_iff_isFirst.mp hs
    have huses : i.opcode.Uses kind i.opcode.isStaticAccess := Opcode.uses_iff.mpr ⟨hkind, rfl⟩
    exact ⟨r, kind, _, t, accessor, ⟨huses, hoperand, (hscopes _).mp hwatched, hgone, ht, p, hp, hname⟩, d, hd, rfl⟩
  · rintro ⟨r, kind, isStatic, t, accessor, h, d, hd, rfl⟩
    obtain ⟨hkind, hstatic⟩ := Opcode.uses_iff.mp h.opcode
    obtain ⟨p, hp, hname⟩ := h.property
    have hs : m.resolver.accessorNamed? r.declaringType r.name kind i.opcode.isStaticAccess = some d.signature := by
      rw [hstatic]
      exact accessorNamed?_iff_isFirst.mpr ⟨t, p, accessor, d, h.type, hp, hname, hd, rfl⟩
    refine ⟨_, Rule.heuristic_iff.mpr ⟨r, kind, d.signature, h.operand, ?_, h.gone, hkind, hs, rfl⟩, rfl⟩
    exact (hscopes _).mpr h.watched

/-- **What the heuristic does.** It claims an instruction of any module exactly if the instruction loads or stores a
    field of a watched type, the field does not resolve and the type does, the first property of the field's name names
    an accessor, and the type declares a method that serves. What it puts in is a call of the first such method on the
    type of the field, and that is all it imports. -/
theorem heuristic_claims_iff (m : Module) (scopes : List Bytes) (i : Instruction) :
    ((∃ c, (Handler.rule (.heuristic scopes)).offer m.resolver i = .claimed c) ↔
        ∃ r kind isStatic t accessor, Superseded m scopes i r kind isStatic t accessor ∧
          ∃ d ∈ t.methods, d.Serves accessor kind isStatic) ∧
      ∀ c, (Handler.rule (.heuristic scopes)).offer m.resolver i = .claimed c ↔
        ∃ r kind isStatic t accessor, Superseded m scopes i r kind isStatic t accessor ∧
          ∃ d, IsFirst (MethodDecl.Serves accessor kind isStatic) t.methods d ∧ c = propertyClaim r d.signature := by
  refine ⟨?_, fun c => heuristic_offer_eq_claimed⟩
  simp only [heuristic_offer_eq_claimed]
  constructor
  · rintro ⟨c, r, kind, isStatic, t, accessor, h, d, hd, -⟩
    exact ⟨r, kind, isStatic, t, accessor, h, exists_isFirst_iff.mp ⟨d, hd⟩⟩
  · rintro ⟨r, kind, isStatic, t, accessor, h, hserves⟩
    obtain ⟨d, hd⟩ := exists_isFirst_iff.mpr hserves
    exact ⟨_, r, kind, isStatic, t, accessor, h, d, hd, rfl⟩

-- Overloads that take a parameter or a receiver stand before the one that serves, and the second property counts for
-- nothing.
example :
    let number : Bytes → List TypeRef → Bool → MethodDecl := fun name parameters isStatic =>
      ⟨⟨name, Sample.int32, parameters, isStatic⟩, none⟩
    let type : TypeDecl := ⟨ascii "N.A", [],
      [number (ascii "read") [Sample.int32] true, number (ascii "read") [] false, number (ascii "read") [] true],
      [⟨ascii "f", Sample.int32, some (ascii "read"), none⟩,
        ⟨ascii "f", Sample.int32, some (ascii "other"), none⟩], []⟩
    let m : Module := ⟨ascii "Mod", some ⟨[⟨ascii "Host", [type]⟩]⟩, [], .empty⟩
    let r : FieldRef := ⟨⟨ascii "Host", ascii "N.A"⟩, ascii "f", Sample.int32⟩
    (Handler.rule (.heuristic [ascii "Host"])).offer m.resolver ⟨.ldsfld, .field r⟩ =
        .claimed (propertyClaim r ⟨ascii "read", Sample.int32, [], true⟩) ∧
      (propertyClaim r ⟨ascii "read", Sample.int32, [], true⟩).phrase = ascii "A.f (field => property)" := by
  decide

end ModRepair
