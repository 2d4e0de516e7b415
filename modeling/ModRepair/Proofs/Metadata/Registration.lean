import ModRepair.Proofs.Metadata.Imports

/-!
# Hosts by content

A host is built by registering assemblies one after another. What references resolve to in it is decided, scope by
scope, by the assembly that was registered last under the name, wherever that one stands. So hosts whose assemblies were
registered in another order answer alike, as long as assemblies of one name have kept their order.

* `names_ofAssemblies`, `nodup_names` — the names of a host, among which **none occurs twice**;
* `IsLastNamed`, `assembly?_eq_some_iff`, `assembly?_eq_none_iff` — **the last assembly of a name** is the one that is
  found;
* `Host.AnswersFrom`, `answersFrom_assembly?` — what references of all four kinds resolve to in one scope;
* `SameOrder`, `sameOrder_swap`, `type?_of_sameOrder` — another order of registration gives the same answers.
-/

namespace ModRepair

/-- An assembly that comes last among those of its name. -/
def IsLastNamed (as : List Assembly) (name : Bytes) (a : Assembly) : Prop :=
  a.name = name ∧ ∃ before after, as = before ++ a :: after ∧ ∀ b ∈ after, b.name ≠ name

theorem getLast?_filter_eq_some_iff {as : List Assembly} {name : Bytes} {a : Assembly} :
    (as.filter (·.name == name)).getLast? = some a ↔ IsLastNamed as name a := by
  constructor
  · intro h
    obtain ⟨others, h⟩ := List.getLast?_eq_some_iff.mp h
    obtain ⟨front, back, rfl, -, hback⟩ := List.filter_eq_append_iff.mp h
    obtain ⟨before, after, rfl, -, ha, hafter⟩ := List.filter_eq_cons_iff.mp hback
    refine ⟨beq_iff_eq.mp ha, front ++ before, after, (List.append_assoc ..).symm, fun b hb => ?_⟩
    simpa using List.filter_eq_nil_iff.mp hafter b hb
  · rintro ⟨ha, before, after, rfl, hafter⟩
    have hnone : after.filter (·.name == name) = [] := List.filter_eq_nil_iff.mpr (by simpa using hafter)
    rw [List.filter_append, List.filter_cons_of_pos (by simpa using ha), hnone, List.getLast?_concat]

namespace Host

/-- The host in which some assemblies have been registered, one after another. -/
def ofAssemblies (as : List Assembly) : Host :=
  as.foldl add empty

/-! ## Names -/

/-- Registration enters a name that is new at the end, and leaves the names alone otherwise. -/
theorem names_register (a : Assembly) (as : List Assembly) :
    (register a as).map (·.name) = appendNew (as.map (·.name)) a.name := by
  induction as with
  | nil => rfl
  | cons b rest ih =>
      unfold register
      by_cases hb : b.name = a.name
      · rw [if_pos hb, List.map_cons, List.map_cons, hb, appendNew_of_mem List.mem_cons_self]
      · rw [if_neg hb, List.map_cons, ih, List.map_cons]
        have hmem : a.name ∈ b.name :: rest.map (·.name) ↔ a.name ∈ rest.map (·.name) := by
          rw [List.mem_cons, or_iff_right (Ne.symm hb)]
        by_cases hrest : a.name ∈ rest.map (·.name)
        · rw [appendNew_of_mem hrest, appendNew_of_mem (hmem.mpr hrest)]
        · rw [appendNew, if_neg hrest, appendNew, if_neg fun h => hrest (hmem.mp h), List.cons_append]

/-- The names of a host are those of the assemblies that were registered, each once, where it first occurs. -/
theorem names_ofAssemblies (as : List Assembly) :
    (ofAssemblies as).assemblies.map (·.name) = (as.map (·.name)).foldl appendNew [] := by
  have hfold : ∀ h : Host, (as.foldl add h).assemblies.map (·.name) =
      (as.map (·.name)).foldl appendNew (h.assemblies.map (·.name)) := by
    induction as with
    | nil => exact fun h => rfl
    | cons a as ih =>
        intro h
        rw [List.foldl_cons, ih, List.map_cons, List.foldl_cons, ← names_register]
        rfl
  exact hfold empty

theorem nodup_names (as : List Assembly) : ((ofAssemblies as).assemblies.map (·.name)).Nodup := by
  obtain ⟨new, heq, hnodup, -⟩ := exists_foldl_appendNew [] (as.map (·.name))
  rwa [names_ofAssemblies, heq]

/-! ## Look-up by name -/

theorem assembly?_ofAssemblies (as : List Assembly) (name : Bytes) :
    (ofAssemblies as).assembly? name = (as.filter (·.name == name)).getLast? := by
  have hfold : ∀ h : Host, (as.foldl add h).assembly? name =
      (as.filter (·.name == name)).getLast?.or (h.assembly? name) := by
    induction as with
    | nil => exact fun h => rfl
    | cons a as ih =>
        intro h
        rw [List.foldl_cons, ih, assembly?_add, List.filter_cons]
        by_cases ha : a.name = name
        · simp [ha, List.getLast?_cons]
        · simp [ha]
  exact (hfold empty).trans Option.or_none

/-- **The last assembly of a name** is the one that is found. -/
theorem assembly?_eq_some_iff {as : List Assembly} {name : Bytes} {a : Assembly} :
    (ofAssemblies as).assembly? name = some a ↔ IsLastNamed as name a := by
  rw [assembly?_ofAssemblies, getLast?_filter_eq_some_iff]

theorem assembly?_eq_none_iff {as : List Assembly} {name : Bytes} :
    (ofAssemblies as).assembly? name = none ↔ ∀ a ∈ as, a.name ≠ name := by
  rw [assembly?_ofAssemblies, List.getLast?_eq_none_iff, List.filter_eq_nil_iff]
  simp only [beq_iff_eq, ne_eq]

/-! ## References -/

/-- In a scope a host answers as one assembly does, or knows nothing if there is none: a type is looked up in it by its
    full name, and a member among those of the type that is found. -/
structure AnswersFrom (h : Host) (scope : Bytes) (a : Option Assembly) : Prop where
  type : ∀ t : TypeRef, t.scope = scope → h.type? t = a.bind (·.typeNamed? t.fullName)
  field : ∀ r : FieldRef, r.declaringType.scope = scope →
    h.resolver.field? r = (a.bind (·.typeNamed? r.declaringType.fullName)).bind (·.surface.field? r)
  method : ∀ r : MethodRef, r.declaringType.scope = scope →
    h.resolver.method? r = (a.bind (·.typeNamed? r.declaringType.fullName)).bind (·.surface.method? r)
  property : ∀ r : PropertyRef, r.declaringType.scope = scope →
    h.resolver.property? r = (a.bind (·.typeNamed? r.declaringType.fullName)).bind (·.surface.property? r)

/-- **A scope is answered for** by the assembly that is found under its name. -/
theorem answersFrom_assembly? (h : Host) (scope : Bytes) : h.AnswersFrom scope (h.assembly? scope) := by
  have htype : ∀ t : TypeRef, t.scope = scope → h.type? t = (h.assembly? scope).bind (·.typeNamed? t.fullName) := by
    rintro t rfl
    rfl
  -- A member is looked for on the surface of its declaring type.
  have hsurface : ∀ t : TypeRef, t.scope = scope →
      h.resolver t = ((h.assembly? scope).bind (·.typeNamed? t.fullName)).map TypeDecl.surface :=
    fun t ht => congrArg (Option.map TypeDecl.surface) (htype t ht)
  exact
    { type := htype
      field := fun r hr => by rw [Resolver.field?, hsurface _ hr, Option.bind_map]; rfl
      method := fun r hr => by rw [Resolver.method?, hsurface _ hr, Option.bind_map]; rfl
      property := fun r hr => by rw [Resolver.property?, hsurface _ hr, Option.bind_map]; rfl }

/-! ## Other orders -/

/-- The same assemblies in an order in which those of one name have kept theirs. -/
def SameOrder (as bs : List Assembly) : Prop :=
  ∀ name, as.filter (·.name == name) = bs.filter (·.name == name)

/-- Assemblies of different names that stand next to each other may change places. -/
theorem sameOrder_swap (before after : List Assembly) {a b : Assembly} (h : a.name ≠ b.name) :
    SameOrder (before ++ a :: b :: after) (before ++ b :: a :: after) := by
  intro name
  rw [List.filter_append, List.filter_append]
  congr 1
  by_cases ha : a.name = name
  · have hb : b.name ≠ name := fun hb => h (ha.trans hb.symm)
    simp [ha, hb]
  · simp [ha, List.filter_cons]

/-- **Another order of registration** gives the same answers. -/
theorem type?_of_sameOrder {as bs : List Assembly} (h : SameOrder as bs) :
    (ofAssemblies as).type? = (ofAssemblies bs).type? := by
  funext t
  rw [type?, type?, assembly?_ofAssemblies, assembly?_ofAssemblies, h]

end Host

end ModRepair
