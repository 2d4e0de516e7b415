import ModRepair.Metadata.Declaration

/-!
# The host

The assemblies of the program that modules are loaded into, at most one of each name. A later assembly takes the
place of an earlier one of its name.
-/

namespace ModRepair

structure Assembly where
  name : Bytes
  types : List TypeDecl
  deriving DecidableEq, Repr

/-- The first type of a full name. -/
def Assembly.typeNamed? (a : Assembly) (fullName : Bytes) : Option TypeDecl :=
  a.types.find? (·.fullName == fullName)

structure Host where
  assemblies : List Assembly
  deriving DecidableEq, Repr

namespace Host

def empty : Host := ⟨[]⟩

/-- The assemblies with another registered: in place of the one of its name, or else at the end. -/
def register (a : Assembly) : List Assembly → List Assembly
  | [] => [a]
  | b :: rest => if b.name = a.name then a :: rest else b :: register a rest

def add (h : Host) (a : Assembly) : Host :=
  ⟨register a h.assemblies⟩

def assembly? (h : Host) (name : Bytes) : Option Assembly :=
  h.assemblies.find? (·.name == name)

/-- The type that a reference names, in the assembly its scope names. -/
def type? (h : Host) (r : TypeRef) : Option TypeDecl :=
  (h.assembly? r.scope).bind (·.typeNamed? r.fullName)

/-- The assembly found under a name is the last one registered under it. -/
theorem assembly?_add (h : Host) (a : Assembly) (name : Bytes) :
    (h.add a).assembly? name = if a.name = name then some a else h.assembly? name := by
  obtain ⟨assemblies⟩ := h
  simp only [add, assembly?]
  induction assemblies with
  | nil => by_cases h : a.name = name <;> simp [register, h]
  | cons b rest ih =>
    unfold register
    by_cases hb : b.name = a.name
    · rw [if_pos hb]
      by_cases h : a.name = name <;> simp_all
    · rw [if_neg hb]
      simp only [List.find?_cons]
      by_cases hbn : b.name = name
      · subst hbn
        simp [Ne.symm hb]
      · have : (b.name == name) = false := by simpa using hbn
        rw [this]
        exact ih

end Host

end ModRepair
