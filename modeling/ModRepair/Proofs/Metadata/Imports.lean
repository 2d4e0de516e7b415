import ModRepair.Metadata.Module

/-!
# What imports enter

An import offers entries to the four tables of a module: the assemblies of the types that it mentions, unless they need
no note, the type that it is about, and the field or method itself. Each table takes what it does not hold yet, at its
end and once. So the tables after any number of imports are those before with the offers of all imports entered, and
what is true of a list that takes what is new is true of each of them.

* `exists_foldl_appendNew` — **a list that takes what is new**, taken apart into what it held and what it lacked;
* `ImportTables.enter` — the same for tables; `addType_eq`, `addField_eq`, `addMethod_eq` say it of one reference;
* `Module.imports_addImports` — **any number of imports**, as entries that are offered;
* `ImportTables.Extends`, `Module.extends_addImports` — tables **only grow**: each of the four lists begins with what it
  held before;
* `Module.addImports_eq` — imports change nothing but the tables.
-/

namespace ModRepair

/-! ## Lists that take what is new -/

section

variable {α : Type} [DecidableEq α]

theorem prefix_appendNew (l : List α) (a : α) : l <+: appendNew l a := by
  unfold appendNew
  split
  · exact List.prefix_refl l
  · exact List.prefix_append l [a]

theorem appendNew_of_mem {l : List α} {a : α} (h : a ∈ l) : appendNew l a = l :=
  if_pos h

/-- **A list that takes what is new** keeps what it held, and has behind it what it lacked of what was offered, each
    once. -/
theorem exists_foldl_appendNew (l as : List α) :
    ∃ new, as.foldl appendNew l = l ++ new ∧ new.Nodup ∧ ∀ b, b ∈ new ↔ b ∈ as ∧ b ∉ l := by
  induction as generalizing l with
  | nil => exact ⟨[], by simp, List.nodup_nil, by simp⟩
  | cons a as ih =>
      rw [List.foldl_cons]
      by_cases ha : a ∈ l
      · obtain ⟨new, heq, hnodup, hmem⟩ := ih l
        refine ⟨new, by rw [appendNew_of_mem ha, heq], hnodup, fun b => ?_⟩
        rw [hmem, List.mem_cons]
        exact ⟨fun h => ⟨.inr h.1, h.2⟩, fun h => ⟨h.1.resolve_left fun hb => h.2 (hb ▸ ha), h.2⟩⟩
      · obtain ⟨new, heq, hnodup, hmem⟩ := ih (l ++ [a])
        have hfresh : a ∉ new := fun h => ((hmem a).mp h).2 (by simp)
        refine ⟨a :: new, ?_, List.nodup_cons.mpr ⟨hfresh, hnodup⟩, fun b => ?_⟩
        · rw [appendNew, if_neg ha, heq, List.append_assoc, List.singleton_append]
        · rw [List.mem_cons, hmem, List.mem_cons, List.mem_append, List.mem_singleton]
          by_cases hb : b = a
          · subst hb
            simp [ha]
          · simp [hb]

theorem mem_foldl_appendNew {l as : List α} {b : α} : b ∈ as.foldl appendNew l ↔ b ∈ l ∨ b ∈ as := by
  obtain ⟨new, heq, -, hmem⟩ := exists_foldl_appendNew l as
  rw [heq, List.mem_append, hmem]
  by_cases hb : b ∈ l <;> simp [hb]

/-- In whatever order, and however often, the same is offered: the same is taken, up to the order. -/
theorem foldl_appendNew_perm {l as as' : List α} (h : ∀ b, b ∈ as ↔ b ∈ as') :
    (as.foldl appendNew l).Perm (as'.foldl appendNew l) := by
  obtain ⟨new, heq, hnodup, hmem⟩ := exists_foldl_appendNew l as
  obtain ⟨new', heq', hnodup', hmem'⟩ := exists_foldl_appendNew l as'
  have hsame : new.Perm new' := (List.perm_ext_iff_of_nodup hnodup hnodup').mpr fun b => by rw [hmem, hmem', h]
  rw [heq, heq']
  exact hsame.append_left l

theorem prefix_foldl_appendNew (l as : List α) : l <+: as.foldl appendNew l := by
  obtain ⟨new, heq, -⟩ := exists_foldl_appendNew l as
  exact ⟨new, heq.symm⟩

theorem nodup_foldl_appendNew {l : List α} (h : l.Nodup) (as : List α) : (as.foldl appendNew l).Nodup := by
  obtain ⟨new, heq, hnodup, hmem⟩ := exists_foldl_appendNew l as
  rw [heq]
  exact List.nodup_append.mpr ⟨h, hnodup, fun a ha b hb => ne_of_mem_of_not_mem ha ((hmem b).mp hb).2⟩

theorem foldl_appendNew_eq_self {l as : List α} (h : as ⊆ l) : as.foldl appendNew l = l := by
  obtain ⟨new, heq, -, hmem⟩ := exists_foldl_appendNew l as
  have hnone : new = [] := List.eq_nil_iff_forall_not_mem.mpr fun b hb =>
    ((hmem b).mp hb).2 (h ((hmem b).mp hb).1)
  rw [heq, hnone, List.append_nil]

end

/-! ## Tables that take what is new -/

namespace ImportTables

/-- The entries of the second tables behind those of the first. -/
instance : Append ImportTables where
  append t t' :=
    ⟨t.assemblies ++ t'.assemblies, t.types ++ t'.types, t.fields ++ t'.fields, t.methods ++ t'.methods⟩

@[simp] theorem mk_append_mk (as as' : List Bytes) (ts ts' : List TypeRef) (fs fs' : List FieldRef)
    (ms ms' : List MethodRef) :
    mk as ts fs ms ++ mk as' ts' fs' ms' = mk (as ++ as') (ts ++ ts') (fs ++ fs') (ms ++ ms') := rfl

/-- The tables with the entries that are offered, those that are there already left out. -/
def enter (t offered : ImportTables) : ImportTables where
  assemblies := offered.assemblies.foldl appendNew t.assemblies
  types := offered.types.foldl appendNew t.types
  fields := offered.fields.foldl appendNew t.fields
  methods := offered.methods.foldl appendNew t.methods

/-- What is offered in two parts is taken as if it were offered at once. -/
theorem enter_enter (t e e' : ImportTables) : (t.enter e).enter e' = t.enter (e ++ e') := by
  show enter (enter t e) e' = enter t ⟨_, _, _, _⟩
  simp only [enter, List.foldl_append]

/-- Tables that hold what others hold, at the same places, and perhaps more behind it. -/
structure Extends (t t' : ImportTables) : Prop where
  assemblies : t.assemblies <+: t'.assemblies
  types : t.types <+: t'.types
  fields : t.fields <+: t'.fields
  methods : t.methods <+: t'.methods

theorem Extends.refl (t : ImportTables) : t.Extends t :=
  ⟨List.prefix_refl _, List.prefix_refl _, List.prefix_refl _, List.prefix_refl _⟩

theorem Extends.trans {t t' t'' : ImportTables} (h : t.Extends t') (h' : t'.Extends t'') : t.Extends t'' where
  assemblies := h.assemblies.trans h'.assemblies
  types := h.types.trans h'.types
  fields := h.fields.trans h'.fields
  methods := h.methods.trans h'.methods

theorem extends_enter (t offered : ImportTables) : t.Extends (t.enter offered) where
  assemblies := prefix_foldl_appendNew _ _
  types := prefix_foldl_appendNew _ _
  fields := prefix_foldl_appendNew _ _
  methods := prefix_foldl_appendNew _ _

/-! ## One reference -/

section

variable (own : Bytes) (t : ImportTables)

/-- Whether an assembly is noted when a module refers to it. -/
def isNoted (scope : Bytes) : Bool :=
  scope != [] && scope != own

theorem isNoted_iff {own scope : Bytes} : isNoted own scope = true ↔ scope ≠ [] ∧ scope ≠ own := by
  simp [isNoted]

/-- What types offer to the table of assemblies: their scopes, if these are noted. -/
def scopesOf (ts : List TypeRef) : List Bytes :=
  (ts.map (·.scope)).filter (isNoted own)

theorem mem_scopesOf {own : Bytes} {ts : List TypeRef} {scope : Bytes} :
    scope ∈ scopesOf own ts ↔ (∃ ref ∈ ts, ref.scope = scope) ∧ scope ≠ [] ∧ scope ≠ own := by
  rw [scopesOf, List.mem_filter, List.mem_map, isNoted_iff]

theorem scopesOf_append (ts ts' : List TypeRef) : scopesOf own (ts ++ ts') = scopesOf own ts ++ scopesOf own ts' := by
  rw [scopesOf, List.map_append, List.filter_append]
  rfl

/-- What a type offers to the table of types: itself, unless it is in the module's own scope. -/
def listed (ref : TypeRef) : List TypeRef :=
  if ref.scope = own then [] else [ref]

theorem mem_listed {own : Bytes} {ref s : TypeRef} : s ∈ listed own ref ↔ ref.scope ≠ own ∧ s = ref := by
  unfold listed
  by_cases hown : ref.scope = own
  · simp [hown]
  · simp [hown]

theorem addAssembly_eq (ref : TypeRef) :
    t.addAssembly own ref.scope = t.enter ⟨scopesOf own [ref], [], [], []⟩ := by
  unfold addAssembly
  split
  · next h =>
      have hno : isNoted own ref.scope = false := by rcases h with h | h <;> simp [isNoted, h]
      simp [scopesOf, hno, enter]
  · next h =>
      have hyes : isNoted own ref.scope = true := isNoted_iff.mpr (not_or.mp h)
      simp [scopesOf, hyes, enter]

theorem foldl_addAssembly_eq (ps : List TypeRef) :
    ps.foldl (fun t p => t.addAssembly own p.scope) t = t.enter ⟨scopesOf own ps, [], [], []⟩ := by
  induction ps generalizing t with
  | nil => rfl
  | cons p ps ih =>
      have hcons : scopesOf own (p :: ps) = scopesOf own [p] ++ scopesOf own ps := scopesOf_append own [p] ps
      rw [List.foldl_cons, ih, addAssembly_eq, enter_enter, hcons]
      rfl

theorem addType_eq (ref : TypeRef) :
    t.addType own ref = t.enter ⟨scopesOf own [ref], listed own ref, [], []⟩ := by
  unfold addType
  rw [addAssembly_eq]
  by_cases hown : ref.scope = own
  · simp [hown, listed, enter]
  · simp [hown, listed, enter]

theorem addField_eq (ref : FieldRef) :
    t.addField own ref =
      t.enter ⟨scopesOf own (Operand.field ref).types, listed own ref.declaringType, [ref], []⟩ := by
  have htypes : scopesOf own (Operand.field ref).types =
      scopesOf own [ref.declaringType] ++ scopesOf own [ref.fieldType] :=
    scopesOf_append own [ref.declaringType] [ref.fieldType]
  have hentered : ∀ t : ImportTables, { t with fields := appendNew t.fields ref } = t.enter ⟨[], [], [ref], []⟩ :=
    fun _ => rfl
  simp only [addField, addType_eq, addAssembly_eq, hentered, enter_enter, mk_append_mk, htypes, List.append_nil,
    List.nil_append]

theorem addMethod_eq (ref : MethodRef) :
    t.addMethod own ref =
      t.enter ⟨scopesOf own (Operand.method ref).types, listed own ref.declaringType, [], [ref]⟩ := by
  have htypes : scopesOf own (Operand.method ref).types =
      scopesOf own [ref.declaringType] ++ scopesOf own [ref.returnType] ++ scopesOf own ref.parameters := by
    rw [← scopesOf_append, ← scopesOf_append]
    rfl
  have hentered : ∀ t : ImportTables, { t with methods := appendNew t.methods ref } = t.enter ⟨[], [], [], [ref]⟩ :=
    fun _ => rfl
  simp only [addMethod, foldl_addAssembly_eq]
  simp only [addType_eq, addAssembly_eq, hentered, enter_enter, mk_append_mk, htypes, List.append_nil,
    List.nil_append]

end

end ImportTables

/-! ## Any number of imports -/

namespace Import

/-- The reference that is entered, as an operand. -/
def operand : Import → Operand
  | .type ref => .type ref
  | .field ref => .field ref
  | .method ref => .method ref

/-- What an import offers to the tables of a module of the given name. -/
def entries (own : Bytes) : Import → ImportTables
  | .type ref => ⟨ImportTables.scopesOf own [ref], ImportTables.listed own ref, [], []⟩
  | .field ref =>
    ⟨ImportTables.scopesOf own (Operand.field ref).types, ImportTables.listed own ref.declaringType, [ref], []⟩
  | .method ref =>
    ⟨ImportTables.scopesOf own (Operand.method ref).types, ImportTables.listed own ref.declaringType, [], [ref]⟩

end Import

/-- What some imports offer, one after another. -/
def entriesOf (own : Bytes) (is : List Import) : ImportTables where
  assemblies := is.flatMap fun i => (i.entries own).assemblies
  types := is.flatMap fun i => (i.entries own).types
  fields := is.flatMap fun i => (i.entries own).fields
  methods := is.flatMap fun i => (i.entries own).methods

namespace Module

section

variable (m : Module)

/-- **One import** enters what it offers. -/
theorem imports_addImport (i : Import) : (m.addImport i).imports = m.imports.enter (i.entries m.name) := by
  cases i with
  | type ref => exact m.imports.addType_eq m.name ref
  | field ref => exact m.imports.addField_eq m.name ref
  | method ref => exact m.imports.addMethod_eq m.name ref

/-- **Any number of imports** enter what they offer. -/
theorem imports_addImports (is : List Import) :
    (m.addImports is).imports = m.imports.enter (entriesOf m.name is) := by
  induction is generalizing m with
  | nil => rfl
  | cons i is ih =>
      calc (m.addImports (i :: is)).imports
          = (m.addImport i).imports.enter (entriesOf m.name is) := ih (m.addImport i)
        _ = (m.imports.enter (i.entries m.name)).enter (entriesOf m.name is) := by rw [imports_addImport]
        _ = m.imports.enter (entriesOf m.name (i :: is)) := ImportTables.enter_enter _ _ _

/-- **Tables only grow.** -/
theorem extends_addImports (is : List Import) : m.imports.Extends (m.addImports is).imports := by
  rw [imports_addImports]
  exact m.imports.extends_enter _

theorem addImports_append (is js : List Import) :
    m.addImports (is ++ js) = (m.addImports is).addImports js := by
  rw [addImports, addImports, addImports, List.foldl_append]

/-- Imports change nothing but the tables. -/
theorem addImports_eq (is : List Import) :
    m.addImports is = { m with imports := (m.addImports is).imports } := by
  induction is generalizing m with
  | nil => rfl
  | cons i is ih => exact ih (m.addImport i)

@[simp] theorem name_addImports (is : List Import) : (m.addImports is).name = m.name := by
  rw [addImports_eq]

@[simp] theorem host_addImports (is : List Import) : (m.addImports is).host = m.host := by
  rw [addImports_eq]

@[simp] theorem types_addImports (is : List Import) : (m.addImports is).types = m.types := by
  rw [addImports_eq]

@[simp] theorem resolver_addImports (is : List Import) : (m.addImports is).resolver = m.resolver := by
  induction is generalizing m with
  | nil => rfl
  | cons i is ih => exact (ih (m.addImport i)).trans (m.resolver_addImport i)

end

end Module

end ModRepair
