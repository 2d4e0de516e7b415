import ModRepair.Proofs.Metadata.Alignment
import ModRepair.Proofs.Metadata.Imports
import ModRepair.Proofs.Text.Split

/-!
# Modules that can be written

A type reference is written as text, and not every reference reads back from its text: `TypeRef.Written` says which
do, and `TypeRef.ofText?_eq_some_iff` that the reader of the text accepts those and no others. This file carries the
condition over to everything that mentions types, up to whole modules and hosts, and shows that resolution and
imports keep to it.

* `Module.Written`, `Host.Written` — **the invariant**: each type that is mentioned anywhere can be written, and each
  instruction has an operand that its opcode takes;
* `Module.Written.resolver` — what a reference resolves to mentions such types only;
* `Module.Written.addImports`, `Module.Written.mapInstructions` — the two ways in which a run changes a module.
-/

namespace ModRepair

/-! ## Types as text -/

namespace TypeRef

/-- **The reader of type references** accepts the texts of references that can be written, and gives them back. -/
theorem ofText?_eq_some_iff {s : Bytes} {t : TypeRef} : ofText? s = some t ↔ t.Written ∧ t.text = s := by
  -- A text with a bracket in front is split at the first closing one; no other text is that of a reference.
  obtain ⟨scope, fullName⟩ := t
  cases s with
  | nil => simp [ofText?, text]
  | cons c s =>
      by_cases hc : c = Bytes.openBracket
      · subst hc
        rw [ofText?, if_pos rfl]
        constructor
        · intro h
          split at h
          · next l r hsplit =>
              obtain ⟨hl, rfl⟩ := Bytes.splitFirst?_eq_some_iff.mp hsplit
              split at h
              · cases h
              · next hne =>
                  cases h
                  rw [not_or] at hne
                  exact ⟨⟨hne.1, hl, hne.2⟩, rfl⟩
          · cases h
        · rintro ⟨⟨hscope, hclose, hname⟩, htext⟩
          have hs : s = scope ++ Bytes.closeBracket :: fullName := (List.cons.inj htext).2.symm
          rw [Bytes.splitFirst?_eq_some_iff.mpr ⟨hclose, hs⟩]
          simp only
          rw [if_neg (not_or.mpr ⟨hscope, hname⟩)]
      · rw [ofText?, if_neg hc]
        refine iff_of_false nofun ?_
        rintro ⟨-, htext⟩
        exact hc (List.cons.inj htext).1.symm

/-- A reference that can be written reads back. -/
theorem Written.ofText?_text {t : TypeRef} (h : t.Written) : ofText? t.text = some t :=
  ofText?_eq_some_iff.mpr ⟨h, rfl⟩

end TypeRef

/-! ## The invariant -/

def FieldRef.Written (r : FieldRef) : Prop :=
  r.declaringType.Written ∧ r.fieldType.Written

def MethodRef.Written (r : MethodRef) : Prop :=
  r.declaringType.Written ∧ r.returnType.Written ∧ ∀ t ∈ r.parameters, t.Written

def PropertyRef.Written (r : PropertyRef) : Prop :=
  r.declaringType.Written ∧ r.propertyType.Written

def Operand.Written (o : Operand) : Prop :=
  ∀ t ∈ o.types, t.Written

structure Instruction.Written (i : Instruction) : Prop where
  wellFormed : i.isWellFormed = true
  operand : i.operand.Written

def FieldDecl.Written (d : FieldDecl) : Prop := d.type.Written

def Signature.Written (s : Signature) : Prop :=
  s.returnType.Written ∧ ∀ t ∈ s.parameters, t.Written

def PropertyDecl.Written (d : PropertyDecl) : Prop := d.type.Written

def EventDecl.Written (d : EventDecl) : Prop := d.type.Written

structure MethodDecl.Written (d : MethodDecl) : Prop where
  signature : d.signature.Written
  body : ∀ i ∈ d.instructions, i.Written

structure TypeDecl.Written (t : TypeDecl) : Prop where
  fields : ∀ d ∈ t.fields, d.Written
  methods : ∀ d ∈ t.methods, d.Written
  properties : ∀ d ∈ t.properties, d.Written
  events : ∀ d ∈ t.events, d.Written

structure ImportTables.Written (t : ImportTables) : Prop where
  types : ∀ r ∈ t.types, r.Written
  fields : ∀ r ∈ t.fields, r.Written
  methods : ∀ r ∈ t.methods, r.Written

structure Module.Written (m : Module) : Prop where
  types : ∀ t ∈ m.types, t.Written
  imports : m.imports.Written

def Host.Written (h : Host) : Prop :=
  ∀ a ∈ h.assemblies, ∀ t ∈ a.types, t.Written

theorem Operand.written_field {r : FieldRef} : (Operand.field r).Written ↔ r.Written := by
  simp [Written, types, FieldRef.Written]

theorem Operand.written_method {r : MethodRef} : (Operand.method r).Written ↔ r.Written := by
  simp [Written, types, MethodRef.Written]

theorem Operand.written_property {r : PropertyRef} : (Operand.property r).Written ↔ r.Written := by
  simp [Written, types, PropertyRef.Written]

theorem Operand.written_type {r : TypeRef} : (Operand.type r).Written ↔ r.Written := by
  simp [Written, types]

/-! ## Resolution -/

/-- A surface that mentions only types that can be written. -/
structure Surface.Written (s : Surface) : Prop where
  fields : ∀ d ∈ s.fields, d.Written
  methods : ∀ d ∈ s.methods, d.Written

/-- A resolver all of whose surfaces mention only types that can be written. -/
def Resolver.Written (find : Resolver) : Prop :=
  ∀ t s, find t = some s → s.Written

theorem TypeDecl.Written.surface {t : TypeDecl} (h : t.Written) : t.surface.Written where
  fields := h.fields
  methods := by
    intro s hs
    obtain ⟨d, hd, rfl⟩ := List.mem_map.mp hs
    exact (h.methods d hd).signature

/-- **What a module resolves to can be written**, if the module and its host can. -/
theorem Module.Written.resolver {m : Module} (h : m.Written) (hhost : ∀ a, m.host = some a → a.Written) :
    m.resolver.Written := by
  intro t s hs
  obtain ⟨d, hd, rfl⟩ := Option.map_eq_some_iff.mp hs
  apply TypeDecl.Written.surface
  unfold Module.type? at hd
  split at hd
  · exact h.types d (List.mem_of_find?_eq_some hd)
  · obtain ⟨a, ha, hd⟩ := Option.bind_eq_some_iff.mp hd
    obtain ⟨b, hb, hd⟩ := Option.bind_eq_some_iff.mp hd
    exact hhost a ha b (List.mem_of_find?_eq_some hb) d (List.mem_of_find?_eq_some hd)

/-! ## Hosts -/

theorem Host.mem_of_mem_register {a b : Assembly} {as : List Assembly} (h : b ∈ register a as) : b = a ∨ b ∈ as := by
  induction as with
  | nil => exact .inl (List.mem_singleton.mp h)
  | cons c as ih =>
      unfold register at h
      split at h
      · rcases List.mem_cons.mp h with rfl | h
        · exact .inl rfl
        · exact .inr (List.mem_cons_of_mem _ h)
      · rcases List.mem_cons.mp h with rfl | h
        · exact .inr (List.mem_cons_self ..)
        · exact (ih h).imp id (List.mem_cons_of_mem _)

/-- Registering assemblies one after another gives a host that can be written, if they can. -/
theorem Host.Written.foldl_add {as : List Assembly} {h : Host} (hh : h.Written)
    (has : ∀ a ∈ as, ∀ t ∈ a.types, t.Written) : (as.foldl Host.add h).Written := by
  induction as generalizing h with
  | nil => exact hh
  | cons a as ih =>
      obtain ⟨ha, has⟩ := List.forall_mem_cons.mp has
      refine ih ?_ has
      intro b hb
      rcases mem_of_mem_register hb with rfl | hb
      · exact ha
      · exact hh b hb

/-! ## Changes -/

def Import.Written : Import → Prop
  | .type r => r.Written
  | .field r => r.Written
  | .method r => r.Written

/-- What such an import offers can be written. -/
theorem Import.Written.entries {i : Import} (hi : i.Written) (own : Bytes) : (i.entries own).Written := by
  have hlisted : ∀ {ref : TypeRef}, ref.Written → ∀ s ∈ ImportTables.listed own ref, s.Written := by
    intro ref href s hs
    obtain ⟨-, rfl⟩ := ImportTables.mem_listed.mp hs
    exact href
  cases i with
  | type ref => exact ⟨hlisted hi, nofun, nofun⟩
  | field ref =>
      refine ⟨hlisted hi.1, fun r hr => ?_, nofun⟩
      rwa [List.mem_singleton.mp hr]
  | method ref =>
      refine ⟨hlisted hi.1, nofun, fun r hr => ?_⟩
      rwa [List.mem_singleton.mp hr]

theorem ImportTables.Written.enter {t offered : ImportTables} (h : t.Written) (hoffered : offered.Written) :
    (t.enter offered).Written where
  types := fun r hr => (mem_foldl_appendNew.mp hr).elim (h.types r) (hoffered.types r)
  fields := fun r hr => (mem_foldl_appendNew.mp hr).elim (h.fields r) (hoffered.fields r)
  methods := fun r hr => (mem_foldl_appendNew.mp hr).elim (h.methods r) (hoffered.methods r)

namespace Module.Written

variable {m : Module}

/-- Imports of references that can be written keep the invariant. -/
theorem addImports (h : m.Written) {is : List Import} (his : ∀ i ∈ is, i.Written) : (m.addImports is).Written := by
  have hoffered : (entriesOf m.name is).Written := by
    refine ⟨fun r hr => ?_, fun r hr => ?_, fun r hr => ?_⟩
    · obtain ⟨i, hi, hr⟩ := List.mem_flatMap.mp hr
      exact ((his i hi).entries m.name).types r hr
    · obtain ⟨i, hi, hr⟩ := List.mem_flatMap.mp hr
      exact ((his i hi).entries m.name).fields r hr
    · obtain ⟨i, hi, hr⟩ := List.mem_flatMap.mp hr
      exact ((his i hi).entries m.name).methods r hr
  refine ⟨?_, ?_⟩
  · rw [types_addImports]
    exact h.types
  · rw [imports_addImports]
    exact h.imports.enter hoffered

/-- The instructions of a module that can be written. -/
theorem instructions (h : m.Written) : ∀ i ∈ m.instructions, i.Written := by
  intro i hi
  obtain ⟨t, ht, hi⟩ := List.mem_flatMap.mp hi
  obtain ⟨d, hd, hi⟩ := List.mem_flatMap.mp hi
  exact ((h.types t ht).methods d hd).body i hi

/-- Replacing instructions by such that can be written keeps the invariant. -/
theorem mapInstructions (h : m.Written) {f : Instruction → Instruction} (hf : ∀ i, i.Written → (f i).Written) :
    (m.mapInstructions f).Written := by
  refine ⟨?_, h.imports⟩
  intro t' ht'
  obtain ⟨t, ht, rfl⟩ := List.mem_map.mp ht'
  have ht := h.types t ht
  refine ⟨ht.fields, ?_, ht.properties, ht.events⟩
  intro d' hd'
  obtain ⟨d, hd, rfl⟩ := List.mem_map.mp hd'
  have hd := ht.methods d hd
  refine ⟨hd.signature, ?_⟩
  intro i' hi'
  rw [MethodDecl.instructions_mapInstructions] at hi'
  obtain ⟨i, hi, rfl⟩ := List.mem_map.mp hi'
  exact hf i (hd.body i hi)

end Module.Written

end ModRepair
