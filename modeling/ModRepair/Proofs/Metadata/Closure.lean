import ModRepair.Proofs.Metadata.Imports

/-!
# Closed tables

What the tables of a module say of the operands in its bodies. They reach a type if its assembly is noted or needs no
note; they record an operand if the member and its declaring type are entered, or the type is; and they hold nothing
twice. For the reference of an import this is to say that the tables hold what the import offers. So an import brings it
about, and changes nothing where it is so already.

* `Module.knows_iff` — **the tables know an import** if they hold what it offers;
* `Module.reaches_addImports`, `Module.records_addImports` — **imports reach and record what they enter**;
* `Module.nodup_addImports` — **imports enter nothing twice**;
* `Module.addImports_again` — **repeated imports change nothing**;
* `ImportTables.exists_enter`, `ImportTables.enter_perm`, `ImportTables.enter_mono` — what tables take, in whatever
  order it is offered, and from whatever larger tables they start;
* `imports_close_tables` — imports as a closure operator on the tables of a module.
-/

namespace ModRepair

namespace ImportTables

/-- The tables reach a type: its scope is empty, the module's own name, or the name of an assembly that is noted. -/
def Reaches (own : Bytes) (t : ImportTables) (ref : TypeRef) : Prop :=
  ref.scope = [] ∨ ref.scope = own ∨ ref.scope ∈ t.assemblies

/-- The tables list a type, or it is in the module's own scope. -/
def Lists (own : Bytes) (t : ImportTables) (ref : TypeRef) : Prop :=
  ref.scope = own ∨ ref ∈ t.types

/-- The tables record an operand: a type is listed, and of a field or method the member is and the declaring type. There
    is no table of properties. -/
def Records (own : Bytes) (t : ImportTables) : Operand → Prop
  | .type ref => t.Lists own ref
  | .field ref => ref ∈ t.fields ∧ t.Lists own ref.declaringType
  | .method ref => ref ∈ t.methods ∧ t.Lists own ref.declaringType
  | .property _ | .none => True

/-- No table holds anything twice. -/
structure Nodup (t : ImportTables) : Prop where
  assemblies : t.assemblies.Nodup
  types : t.types.Nodup
  fields : t.fields.Nodup
  methods : t.methods.Nodup

/-- The same tables up to the order of their entries. -/
structure Perm (t t' : ImportTables) : Prop where
  assemblies : t.assemblies.Perm t'.assemblies
  types : t.types.Perm t'.types
  fields : t.fields.Perm t'.fields
  methods : t.methods.Perm t'.methods

/-- Tables whose entries are all found in others, at whatever places. -/
structure Within (t t' : ImportTables) : Prop where
  assemblies : t.assemblies ⊆ t'.assemblies
  types : t.types ⊆ t'.types
  fields : t.fields ⊆ t'.fields
  methods : t.methods ⊆ t'.methods

theorem Within.trans {t t' t'' : ImportTables} (h : t.Within t') (h' : t'.Within t'') : t.Within t'' where
  assemblies := List.Subset.trans h.assemblies h'.assemblies
  types := List.Subset.trans h.types h'.types
  fields := List.Subset.trans h.fields h'.fields
  methods := List.Subset.trans h.methods h'.methods

/-- Entries that can be added to tables: nothing twice, and nothing that is there already; neither the module itself nor
    the empty name among the assemblies, and no type of the module itself. -/
structure Additions (own : Bytes) (t new : ImportTables) : Prop where
  nodup : new.Nodup
  assemblies : ∀ scope ∈ new.assemblies, scope ∉ t.assemblies ∧ scope ≠ [] ∧ scope ≠ own
  types : ∀ ref ∈ new.types, ref ∉ t.types ∧ ref.scope ≠ own
  fields : ∀ ref ∈ new.fields, ref ∉ t.fields
  methods : ∀ ref ∈ new.methods, ref ∉ t.methods

/-! ## Larger tables -/

section

variable {own : Bytes} {t t' : ImportTables} (h : t.Extends t')

include h

theorem Extends.reaches {ref : TypeRef} (href : t.Reaches own ref) : t'.Reaches own ref :=
  href.imp id fun href => href.imp id fun href => h.assemblies.subset href

theorem Extends.lists {ref : TypeRef} (href : t.Lists own ref) : t'.Lists own ref :=
  href.imp id fun href => h.types.subset href

theorem Extends.records {o : Operand} (ho : t.Records own o) : t'.Records own o := by
  cases o with
  | none => trivial
  | type ref => exact h.lists ho
  | field ref => exact ⟨h.fields.subset ho.1, h.lists ho.2⟩
  | method ref => exact ⟨h.methods.subset ho.1, h.lists ho.2⟩
  | property ref => trivial

end

/-! ## Tables that are offered entries -/

section

variable {t t' offered offered' : ImportTables}

/-- Tables take additions, if what they are offered needs a note. -/
theorem exists_enter {own : Bytes} (t : ImportTables)
    (hassemblies : ∀ scope ∈ offered.assemblies, scope ≠ [] ∧ scope ≠ own)
    (htypes : ∀ ref ∈ offered.types, ref.scope ≠ own) :
    ∃ new, t.enter offered = t ++ new ∧ t.Additions own new := by
  obtain ⟨as, has, hasNodup, hasMem⟩ := exists_foldl_appendNew t.assemblies offered.assemblies
  obtain ⟨ts, hts, htsNodup, htsMem⟩ := exists_foldl_appendNew t.types offered.types
  obtain ⟨fs, hfs, hfsNodup, hfsMem⟩ := exists_foldl_appendNew t.fields offered.fields
  obtain ⟨ms, hms, hmsNodup, hmsMem⟩ := exists_foldl_appendNew t.methods offered.methods
  refine ⟨⟨as, ts, fs, ms⟩, ?_, ?_⟩
  · rw [enter, has, hts, hfs, hms]
    rfl
  · exact
      { nodup := ⟨hasNodup, htsNodup, hfsNodup, hmsNodup⟩
        assemblies := fun scope h => ⟨((hasMem scope).mp h).2, hassemblies scope ((hasMem scope).mp h).1⟩
        types := fun ref h => ⟨((htsMem ref).mp h).2, htypes ref ((htsMem ref).mp h).1⟩
        fields := fun ref h => ((hfsMem ref).mp h).2
        methods := fun ref h => ((hmsMem ref).mp h).2 }

/-- **The order of what is offered** shows in the order of the entries only. -/
theorem enter_perm (t : ImportTables) (h : offered.Within offered') (h' : offered'.Within offered) :
    (t.enter offered).Perm (t.enter offered') where
  assemblies := foldl_appendNew_perm fun _ => ⟨fun ha => h.assemblies ha, fun ha => h'.assemblies ha⟩
  types := foldl_appendNew_perm fun _ => ⟨fun ha => h.types ha, fun ha => h'.types ha⟩
  fields := foldl_appendNew_perm fun _ => ⟨fun ha => h.fields ha, fun ha => h'.fields ha⟩
  methods := foldl_appendNew_perm fun _ => ⟨fun ha => h.methods ha, fun ha => h'.methods ha⟩

/-- **Larger tables** that are offered more hold more. -/
theorem enter_mono (h : t.Within t') (hoffered : offered.Within offered') :
    (t.enter offered).Within (t'.enter offered') := by
  have hlist : ∀ {α : Type} [DecidableEq α] {l l' as as' : List α}, l ⊆ l' → as ⊆ as' →
      as.foldl appendNew l ⊆ as'.foldl appendNew l' := by
    intro α _ l l' as as' hl has b hb
    exact mem_foldl_appendNew.mpr ((mem_foldl_appendNew.mp hb).imp (fun hb => hl hb) fun hb => has hb)
  exact
    { assemblies := hlist h.assemblies hoffered.assemblies
      types := hlist h.types hoffered.types
      fields := hlist h.fields hoffered.fields
      methods := hlist h.methods hoffered.methods }

/-- Tables that are offered entries hold them. -/
theorem within_enter (t offered : ImportTables) : offered.Within (t.enter offered) where
  assemblies := fun _ h => mem_foldl_appendNew.mpr (.inr h)
  types := fun _ h => mem_foldl_appendNew.mpr (.inr h)
  fields := fun _ h => mem_foldl_appendNew.mpr (.inr h)
  methods := fun _ h => mem_foldl_appendNew.mpr (.inr h)

/-- Tables that hold all that they are offered stay as they are. -/
theorem enter_eq_self (h : offered.Within t) : t.enter offered = t := by
  rw [enter, foldl_appendNew_eq_self h.assemblies, foldl_appendNew_eq_self h.types, foldl_appendNew_eq_self h.fields,
    foldl_appendNew_eq_self h.methods]

theorem Nodup.enter (h : t.Nodup) (offered : ImportTables) : (t.enter offered).Nodup where
  assemblies := nodup_foldl_appendNew h.assemblies _
  types := nodup_foldl_appendNew h.types _
  fields := nodup_foldl_appendNew h.fields _
  methods := nodup_foldl_appendNew h.methods _

end

/-! ## What an import offers -/

section

variable {own : Bytes} {t : ImportTables}

/-- Types are reached if the table of assemblies holds what they offer to it. -/
theorem reaches_iff {ts : List TypeRef} : (∀ ref ∈ ts, t.Reaches own ref) ↔ scopesOf own ts ⊆ t.assemblies := by
  constructor
  · intro h scope hscope
    obtain ⟨⟨ref, href, rfl⟩, hempty, hown⟩ := mem_scopesOf.mp hscope
    exact ((h ref href).resolve_left hempty).resolve_left hown
  · intro h ref href
    by_cases hempty : ref.scope = []
    · exact .inl hempty
    · by_cases hown : ref.scope = own
      · exact .inr (.inl hown)
      · exact .inr (.inr (h (mem_scopesOf.mpr ⟨⟨ref, href, rfl⟩, hempty, hown⟩)))

/-- A type is listed if the table of types holds what it offers to it. -/
theorem lists_iff {ref : TypeRef} : t.Lists own ref ↔ listed own ref ⊆ t.types := by
  constructor
  · intro h s hs
    obtain ⟨hown, rfl⟩ := mem_listed.mp hs
    exact h.resolve_left hown
  · intro h
    by_cases hown : ref.scope = own
    · exact .inl hown
    · exact .inr (h (mem_listed.mpr ⟨hown, rfl⟩))

end

end ImportTables

namespace Import

variable {own : Bytes} {t : ImportTables}

/-- **Tables that hold what an import offers** reach its types and record its reference. -/
theorem within_entries_iff (i : Import) :
    (i.entries own).Within t ↔ (∀ ref ∈ i.operand.types, t.Reaches own ref) ∧ t.Records own i.operand := by
  rw [ImportTables.reaches_iff]
  have hnone : ∀ {α : Type} (l : List α), [] ⊆ l := fun l => List.nil_subset l
  cases i with
  | type ref =>
      show _ ↔ _ ∧ t.Lists own ref
      rw [ImportTables.lists_iff]
      exact ⟨fun h => ⟨h.assemblies, h.types⟩, fun h => ⟨h.1, h.2, hnone _, hnone _⟩⟩
  | field ref =>
      show _ ↔ _ ∧ ref ∈ t.fields ∧ t.Lists own ref.declaringType
      rw [ImportTables.lists_iff]
      exact ⟨fun h => ⟨h.assemblies, h.fields List.mem_cons_self, h.types⟩,
        fun h => ⟨h.1, h.2.2, List.cons_subset.mpr ⟨h.2.1, hnone _⟩, hnone _⟩⟩
  | method ref =>
      show _ ↔ _ ∧ ref ∈ t.methods ∧ t.Lists own ref.declaringType
      rw [ImportTables.lists_iff]
      exact ⟨fun h => ⟨h.assemblies, h.methods List.mem_cons_self, h.types⟩,
        fun h => ⟨h.1, h.2.2, hnone _, List.cons_subset.mpr ⟨h.2.1, hnone _⟩⟩⟩

/-- Only assemblies that are noted are offered. -/
theorem noted_of_mem_entries {i : Import} {scope : Bytes} (h : scope ∈ (i.entries own).assemblies) :
    scope ≠ [] ∧ scope ≠ own := by
  cases i with
  | type ref => exact (ImportTables.mem_scopesOf.mp h).2
  | field ref => exact (ImportTables.mem_scopesOf.mp h).2
  | method ref => exact (ImportTables.mem_scopesOf.mp h).2

/-- Only types of other modules are offered. -/
theorem foreign_of_mem_entries {i : Import} {s : TypeRef} (h : s ∈ (i.entries own).types) : s.scope ≠ own := by
  have hlisted : ∀ {ref : TypeRef}, s ∈ ImportTables.listed own ref → s.scope ≠ own := by
    intro ref hs
    obtain ⟨hown, rfl⟩ := ImportTables.mem_listed.mp hs
    exact hown
  cases i with
  | type ref => exact hlisted h
  | field ref => exact hlisted h
  | method ref => exact hlisted h

end Import

theorem within_entriesOf {own : Bytes} {is : List Import} {i : Import} (hi : i ∈ is) :
    (i.entries own).Within (entriesOf own is) where
  assemblies := fun _ h => List.mem_flatMap.mpr ⟨i, hi, h⟩
  types := fun _ h => List.mem_flatMap.mpr ⟨i, hi, h⟩
  fields := fun _ h => List.mem_flatMap.mpr ⟨i, hi, h⟩
  methods := fun _ h => List.mem_flatMap.mpr ⟨i, hi, h⟩

/-- More imports offer more. -/
theorem entriesOf_mono {own : Bytes} {is js : List Import} (h : is ⊆ js) :
    (entriesOf own is).Within (entriesOf own js) := by
  have hlist : ∀ {α : Type} (f : Import → List α), is.flatMap f ⊆ js.flatMap f := by
    intro α f a ha
    obtain ⟨i, hi, ha⟩ := List.mem_flatMap.mp ha
    exact List.mem_flatMap.mpr ⟨i, h hi, ha⟩
  exact ⟨hlist _, hlist _, hlist _, hlist _⟩

/-! ## Imports of a module -/

namespace Module

/-- Every type that an operand mentions is reached by the tables. -/
def Closed (m : Module) : Prop :=
  ∀ i ∈ m.instructions, ∀ t ∈ i.operand.types, m.imports.Reaches m.name t

/-- The tables of a module hold all that an import would enter in them. -/
structure Knows (m : Module) (i : Import) : Prop where
  reaches : ∀ t ∈ i.operand.types, m.imports.Reaches m.name t
  records : m.imports.Records m.name i.operand

theorem knows_iff {m : Module} {i : Import} : m.Knows i ↔ (i.entries m.name).Within m.imports :=
  ⟨fun h => i.within_entries_iff.mpr ⟨h.reaches, h.records⟩,
    fun h => ⟨(i.within_entries_iff.mp h).1, (i.within_entries_iff.mp h).2⟩⟩

section

variable (m : Module) {i : Import} {is : List Import}

/-- Imports make known what they enter. -/
theorem knows_addImports (hi : i ∈ is) : (m.addImports is).Knows i := by
  rw [knows_iff, name_addImports, imports_addImports]
  exact (within_entriesOf hi).trans (m.imports.within_enter (entriesOf m.name is))

/-- **Imports reach** the types of what they enter. -/
theorem reaches_addImports (hi : i ∈ is) : ∀ t ∈ i.operand.types, (m.addImports is).imports.Reaches m.name t := by
  have hreaches := (m.knows_addImports hi).reaches
  rwa [name_addImports] at hreaches

/-- **Imports record** what they enter. -/
theorem records_addImports (hi : i ∈ is) : (m.addImports is).imports.Records m.name i.operand := by
  have hrecords := (m.knows_addImports hi).records
  rwa [name_addImports] at hrecords

end

section

variable {m : Module} {i : Import} {is : List Import}

/-- **Imports enter nothing twice.** -/
theorem nodup_addImports (h : m.imports.Nodup) (is : List Import) : (m.addImports is).imports.Nodup := by
  rw [imports_addImports]
  exact h.enter _

/-- An import that is known changes nothing. -/
theorem addImport_eq_self (h : m.Knows i) : m.addImport i = m := by
  have htables : (m.addImport i).imports = m.imports := by
    rw [imports_addImport, ImportTables.enter_eq_self (knows_iff.mp h)]
  show { m with imports := (m.addImport i).imports } = m
  rw [htables]

/-- Imports that are known change nothing. -/
theorem addImports_eq_self (h : ∀ i ∈ is, m.Knows i) : m.addImports is = m := by
  induction is with
  | nil => rfl
  | cons i is ih =>
      obtain ⟨hi, his⟩ := List.forall_mem_cons.mp h
      show (m.addImport i).addImports is = m
      rw [addImport_eq_self hi]
      exact ih his

/-- **Repeated imports change nothing.** -/
theorem addImports_again (m : Module) (is : List Import) : (m.addImports is).addImports is = m.addImports is :=
  addImports_eq_self fun _ hi => m.knows_addImports hi

/-- An import that has been made before changes nothing. -/
theorem addImports_repeated (m : Module) {before : List Import} (hi : i ∈ before) (after : List Import) :
    m.addImports (before ++ i :: after) = m.addImports (before ++ after) := by
  rw [addImports_append, addImports_append]
  show ((m.addImports before).addImport i).addImports after = _
  rw [addImport_eq_self (m.knows_addImports hi)]

end

@[simp] theorem type?_addImports (m : Module) (is : List Import) (ref : TypeRef) :
    (m.addImports is).type? ref = m.type? ref := by
  rw [addImports_eq]
  rfl

end Module

/-- **Imports close the tables.** Take any module, whatever its tables hold, and any sequence of imports. The tables are
    those of before with additions behind them: nothing that was there or has been added already, neither the module
    itself nor the empty name among the assemblies, and no type of the module itself. An import that is repeated later
    changes nothing; another order gives the same tables up to their order; more imports into larger tables give larger
    tables. Every import is recorded, and every assembly that it refers to, unless it is the module itself or has no
    name, is noted. And every reference resolves as before. -/
theorem imports_close_tables (m : Module) (is : List Import) :
    let left := m.addImports is
    (∃ new, left.imports = m.imports ++ new ∧ m.imports.Additions m.name new) ∧
      (∀ before i after, i ∈ before → m.addImports (before ++ i :: after) = m.addImports (before ++ after)) ∧
      (∀ js, is.Perm js → left.imports.Perm (m.addImports js).imports) ∧
      (∀ (m' : Module) js, m'.name = m.name → m.imports.Within m'.imports → is ⊆ js →
        left.imports.Within (m'.addImports js).imports) ∧
      (∀ i ∈ is, left.imports.Records m.name i.operand ∧
        ∀ t ∈ i.operand.types, t.scope ≠ [] → t.scope ≠ m.name → t.scope ∈ left.imports.assemblies) ∧
      (∀ t, left.type? t = m.type? t) ∧ (∀ r, left.resolver.field? r = m.resolver.field? r) ∧
      (∀ r, left.resolver.method? r = m.resolver.method? r) ∧
      ∀ r, left.resolver.property? r = m.resolver.property? r := by
  intro left
  have hentered : left.imports = m.imports.enter (entriesOf m.name is) := m.imports_addImports is
  have hresolver : left.resolver = m.resolver := m.resolver_addImports is
  refine ⟨?_, fun before i after hi => m.addImports_repeated hi after, fun js hperm => ?_,
    fun m' js hname htables hmore => ?_, fun i hi => ⟨m.records_addImports hi, fun t ht hempty hown => ?_⟩,
    fun t => m.type?_addImports is t, ?_⟩
  · rw [hentered]
    refine ImportTables.exists_enter m.imports (fun scope h => ?_) fun s h => ?_
    · obtain ⟨i, -, h⟩ := List.mem_flatMap.mp h
      exact Import.noted_of_mem_entries h
    · obtain ⟨i, -, h⟩ := List.mem_flatMap.mp h
      exact Import.foreign_of_mem_entries h
  · rw [hentered, m.imports_addImports js]
    exact ImportTables.enter_perm m.imports (entriesOf_mono hperm.subset) (entriesOf_mono hperm.symm.subset)
  · rw [hentered, m'.imports_addImports js, hname]
    exact ImportTables.enter_mono htables (entriesOf_mono hmore)
  · rcases m.reaches_addImports hi t ht with h | h | h
    · exact absurd h hempty
    · exact absurd h hown
    · exact h
  · rw [hresolver]
    exact ⟨fun _ => rfl, fun _ => rfl, fun _ => rfl⟩

/-- The table of assemblies holds the module itself, and another one twice, and both stay. A field and a method of the
    module add one type and the two assemblies that are new, in either order, and nothing when they are imported
    again. -/
theorem imports_close_tables_sample :
    let int32 : TypeRef := ⟨ascii "Runtime", ascii "Int32"⟩
    let m : Module := ⟨ascii "Mod", none, [], ⟨[ascii "Mod", ascii "Host", ascii "Host"], [], [], []⟩⟩
    let field : Import := .field ⟨⟨ascii "Host", ascii "A"⟩, ascii "f", int32⟩
    let method : Import := .method ⟨⟨ascii "Mod", ascii "T"⟩, ascii "g", ⟨ascii "Lib", ascii "B"⟩, [int32], true⟩
    let left := m.addImports [field, method]
    left.imports.assemblies = [ascii "Mod", ascii "Host", ascii "Host", ascii "Runtime", ascii "Lib"] ∧
      left.imports.types = [⟨ascii "Host", ascii "A"⟩] ∧
      (∃ new, left.imports = m.imports ++ new ∧ m.imports.Additions m.name new) ∧
      m.addImports [field, method, field] = left ∧ left.imports.Perm (m.addImports [method, field]).imports ∧
      (m.addImports [field]).imports.Within left.imports ∧ ascii "Lib" ∈ left.imports.assemblies := by
  intro int32 m field method left
  obtain ⟨hnew, hrepeated, hperm, -, hnoted, -⟩ := imports_close_tables m [field, method]
  obtain ⟨-, -, -, hmono, -⟩ := imports_close_tables m [field]
  have hsame : m.imports.Within m.imports :=
    ⟨List.Subset.refl _, List.Subset.refl _, List.Subset.refl _, List.Subset.refl _⟩
  have hmethod : method ∈ [field, method] := List.mem_cons_of_mem _ List.mem_cons_self
  refine ⟨by decide, by decide, hnew, hrepeated [field, method] field [] List.mem_cons_self,
    hperm [method, field] (List.Perm.swap _ _ _), hmono m [field, method] rfl hsame (by simp), ?_⟩
  exact (hnoted method hmethod).2 ⟨ascii "Lib", ascii "B"⟩ (by decide) (by decide) (by decide)

end ModRepair
