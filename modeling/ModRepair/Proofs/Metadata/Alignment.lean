import Mathlib.Data.List.Forall2
import ModRepair.Metadata.Traversal

/-!
# Instructions replaced in place

A traversal visits the instructions of a module and puts each back where it was. This file says what that means:
`Aligned R` relates two lists of types that differ in nothing but their instructions, with the instructions at one
place related by `R`, and `mapInstructions f` is the case in which a function decides.

* `Traversal.types_aligned` — **the traversal law**: a step lemma for the visit lifts to the whole traversal, both for
  the relation between old and new instructions and for the state that is handed along;
* `Traversal.types_lockstep` — two traversals whose visits go in step return the same types;
* `eq_map_of_aligned` — an alignment by a function is `mapInstructions`;
* `Module.resolver_mapInstructions` — no reference resolves differently when instructions are replaced.

Places are given by `Position`, and `Module.instructionAt?` looks an instruction up.
-/

namespace ModRepair

/-! ## Alignment -/

/-- Two methods that differ at most in their instructions, those at one place being related by `R`. -/
structure MethodDecl.Aligned (R : Instruction → Instruction → Prop) (d d' : MethodDecl) : Prop where
  signature : d'.signature = d.signature
  body : Option.Rel (List.Forall₂ R) d.body d'.body

/-- Two types that differ at most in the instructions of their methods. -/
structure TypeDecl.Aligned (R : Instruction → Instruction → Prop) (t t' : TypeDecl) : Prop where
  fullName : t'.fullName = t.fullName
  fields : t'.fields = t.fields
  methods : List.Forall₂ (MethodDecl.Aligned R) t.methods t'.methods
  properties : t'.properties = t.properties
  events : t'.events = t.events

def MethodDecl.mapInstructions (f : Instruction → Instruction) (d : MethodDecl) : MethodDecl :=
  { d with body := d.body.map (List.map f) }

def TypeDecl.mapInstructions (f : Instruction → Instruction) (t : TypeDecl) : TypeDecl :=
  { t with methods := t.methods.map (·.mapInstructions f) }

/-- Relations of lists element by element compose. -/
theorem forall₂_comp {α β γ : Type} {R : α → β → Prop} {S : β → γ → Prop} {T : α → γ → Prop}
    (hcomp : ∀ a b c, R a b → S b c → T a c) {l : List α} {l' : List β} {l'' : List γ}
    (h : List.Forall₂ R l l') (h' : List.Forall₂ S l' l'') : List.Forall₂ T l l'' := by
  induction h generalizing l'' with
  | nil =>
      cases h'
      exact .nil
  | cons hab _ ih =>
      cases h' with
      | cons hbc h' => exact .cons (hcomp _ _ _ hab hbc) (ih h')

section

variable {R S T : Instruction → Instruction → Prop} (hcomp : ∀ i j k, R i j → S j k → T i k)

include hcomp

theorem MethodDecl.Aligned.comp {d d' d'' : MethodDecl} (h : d.Aligned R d') (h' : d'.Aligned S d'') :
    d.Aligned T d'' := by
  refine ⟨h'.signature.trans h.signature, ?_⟩
  obtain ⟨-, body⟩ := h
  obtain ⟨-, body'⟩ := h'
  -- Both bodies are missing, or both are there.
  generalize d.body = b, d'.body = b', d''.body = b'' at body body'
  cases body with
  | none =>
      cases body'
      exact .none
  | some hb =>
      cases body' with
      | some hb' => exact .some (forall₂_comp hcomp hb hb')

/-- **Alignments compose** as the relations between their instructions do. -/
theorem TypeDecl.Aligned.comp {t t' t'' : TypeDecl} (h : t.Aligned R t') (h' : t'.Aligned S t'') :
    t.Aligned T t'' where
  fullName := h'.fullName.trans h.fullName
  fields := h'.fields.trans h.fields
  methods := forall₂_comp (fun _ _ _ hd hd' => hd.comp hcomp hd') h.methods h'.methods
  properties := h'.properties.trans h.properties
  events := h'.events.trans h.events

end

section

variable {R : Instruction → Instruction → Prop}

theorem MethodDecl.aligned_mapInstructions {f : Instruction → Instruction} (hf : ∀ i, R i (f i)) (d : MethodDecl) :
    d.Aligned R (d.mapInstructions f) := by
  refine ⟨rfl, ?_⟩
  obtain ⟨signature, body⟩ := d
  cases body with
  | none => exact .none
  | some is => exact .some (List.forall₂_map_right_iff.mpr (List.forall₂_same.mpr fun i _ => hf i))

/-- A type is aligned with its image under a function. -/
theorem TypeDecl.aligned_mapInstructions {f : Instruction → Instruction} (hf : ∀ i, R i (f i)) (t : TypeDecl) :
    t.Aligned R (t.mapInstructions f) where
  fullName := rfl
  fields := rfl
  methods := List.forall₂_map_right_iff.mpr (List.forall₂_same.mpr fun d _ => d.aligned_mapInstructions hf)
  properties := rfl
  events := rfl

theorem MethodDecl.mapInstructions_id (d : MethodDecl) : d.mapInstructions id = d := by
  simp [mapInstructions]

theorem TypeDecl.mapInstructions_id (t : TypeDecl) : t.mapInstructions id = t := by
  simp [mapInstructions, MethodDecl.mapInstructions_id]

theorem TypeDecl.Aligned.refl (hR : ∀ i, R i i) (t : TypeDecl) : t.Aligned R t := by
  have h : t.Aligned R (t.mapInstructions id) := t.aligned_mapInstructions hR
  rwa [t.mapInstructions_id] at h

end

/-- Lists aligned by a function are images under it. -/
theorem eq_map_of_forall₂ {α β : Type} {f : α → β} {l : List α} {l' : List β}
    (h : List.Forall₂ (fun a b => b = f a) l l') : l' = l.map f := by
  induction h with
  | nil => rfl
  | cons hab _ ih => rw [hab, ih, List.map_cons]

theorem MethodDecl.eq_map_of_aligned {f : Instruction → Instruction} {d d' : MethodDecl}
    (h : d.Aligned (fun i j => j = f i) d') : d' = d.mapInstructions f := by
  obtain ⟨s, b⟩ := d
  obtain ⟨s', b'⟩ := d'
  obtain ⟨hs, hb⟩ := h
  cases hs
  cases hb with
  | none => rfl
  | some hb => rw [eq_map_of_forall₂ hb]; rfl

theorem TypeDecl.eq_map_of_aligned {f : Instruction → Instruction} {t t' : TypeDecl}
    (h : t.Aligned (fun i j => j = f i) t') : t' = t.mapInstructions f := by
  obtain ⟨n, fs, ms, ps, es⟩ := t
  obtain ⟨n', fs', ms', ps', es'⟩ := t'
  obtain ⟨hn, hf, hm, hp, he⟩ := h
  cases hn; cases hf; cases hp; cases he
  have hms : ms' = ms.map (·.mapInstructions f) :=
    eq_map_of_forall₂ (hm.imp fun _ _ => MethodDecl.eq_map_of_aligned)
  rw [hms]
  rfl

/-- **Alignment by a function is its image.** -/
theorem eq_map_of_aligned {f : Instruction → Instruction} {ts ts' : List TypeDecl}
    (h : List.Forall₂ (TypeDecl.Aligned fun i j => j = f i) ts ts') :
    ts' = ts.map (·.mapInstructions f) :=
  eq_map_of_forall₂ (h.imp fun _ _ => TypeDecl.eq_map_of_aligned)

/-! ## The traversal law

`I` is an invariant of the state that may mention the instructions visited so far. -/

/-- The instructions of a method, in order. -/
def MethodDecl.instructions (d : MethodDecl) : List Instruction :=
  d.body.getD []

/-- The instructions of all methods of a type, in order. -/
def TypeDecl.instructions (t : TypeDecl) : List Instruction :=
  t.methods.flatMap MethodDecl.instructions

theorem Module.instructions_eq (m : Module) : m.instructions = m.types.flatMap TypeDecl.instructions := rfl

/-- One step for each element makes a run over the list. -/
theorem threadMap_run {α β γ σ : Type} {f : α → σ → β × σ} {R : α → β → Prop} {I : List γ → σ → Prop}
    {g : α → List γ} {l : List α}
    (hstep : ∀ a ∈ l, ∀ done s, I done s → R a (f a s).1 ∧ I (done ++ g a) (f a s).2) :
    ∀ done s, I done s →
      List.Forall₂ R l (threadMap f l s).1 ∧ I (done ++ l.flatMap g) (threadMap f l s).2 := by
  induction l with
  | nil =>
      intro done s hI
      exact ⟨.nil, by simpa [threadMap] using hI⟩
  | cons a l ih =>
      intro done s hI
      obtain ⟨hR, hI⟩ := hstep a (by simp) done s hI
      obtain ⟨hRs, hIs⟩ := ih (fun b hb => hstep b (by simp [hb])) _ _ hI
      refine ⟨.cons hR hRs, ?_⟩
      rw [List.flatMap_cons, ← List.append_assoc]
      exact hIs

namespace Traversal

variable {σ : Type} (visit : Site → Instruction → σ → Instruction × σ)
  (R : Instruction → Instruction → Prop) (I : List Instruction → σ → Prop)

theorem body_run (typeName methodName : Bytes) {is : List Instruction}
    (hstep : ∀ i ∈ is, ∀ site done s, I done s → R i (visit site i s).1 ∧ I (done ++ [i]) (visit site i s).2) :
    ∀ position done s, I done s →
      List.Forall₂ R is (body visit typeName methodName position is s).1 ∧
        I (done ++ is) (body visit typeName methodName position is s).2 := by
  -- The position and the instructions done so far grow together, so both are general in the induction.
  induction is with
  | nil =>
      intro position done s hI
      exact ⟨.nil, by simpa [body] using hI⟩
  | cons i is ih =>
      intro position done s hI
      obtain ⟨hR, hI⟩ := hstep i (by simp) ⟨typeName, methodName, position⟩ done s hI
      obtain ⟨hRs, hIs⟩ := ih (fun j hj => hstep j (by simp [hj])) (position + 1) _ _ hI
      refine ⟨.cons hR hRs, ?_⟩
      rw [List.append_cons]
      exact hIs

theorem method_run (typeName : Bytes) {d : MethodDecl}
    (hstep : ∀ i ∈ d.instructions, ∀ site done s, I done s →
      R i (visit site i s).1 ∧ I (done ++ [i]) (visit site i s).2) (done : List Instruction) (s : σ)
    (hI : I done s) :
    d.Aligned R (method visit typeName d s).1 ∧ I (done ++ d.instructions) (method visit typeName d s).2 := by
  obtain ⟨signature, body⟩ := d
  cases body with
  | none => exact ⟨⟨rfl, .none⟩, by simpa [MethodDecl.instructions, method] using hI⟩
  | some is =>
      obtain ⟨hR, hI⟩ := body_run visit R I typeName signature.name hstep 0 done s hI
      exact ⟨⟨rfl, .some hR⟩, hI⟩

theorem type_run {t : TypeDecl}
    (hstep : ∀ i ∈ t.instructions, ∀ site done s, I done s →
      R i (visit site i s).1 ∧ I (done ++ [i]) (visit site i s).2) (done : List Instruction) (s : σ)
    (hI : I done s) :
    t.Aligned R (type visit t s).1 ∧ I (done ++ t.instructions) (type visit t s).2 := by
  have hmethods := threadMap_run (g := MethodDecl.instructions)
    (fun d hd => method_run visit R I t.fullName fun i hi => hstep i (List.mem_flatMap.mpr ⟨d, hd, hi⟩))
    done s hI
  exact ⟨⟨rfl, rfl, hmethods.1, rfl, rfl⟩, hmethods.2⟩

/-- **The traversal law.** If each visit relates the instruction it is given to the one it returns and keeps an
    invariant of the state, then a traversal aligns old and new types, and the invariant holds of all instructions
    at its end. -/
theorem types_aligned {ts : List TypeDecl}
    (hstep : ∀ i ∈ ts.flatMap TypeDecl.instructions, ∀ site done s, I done s →
      R i (visit site i s).1 ∧ I (done ++ [i]) (visit site i s).2) {s : σ} (hI : I [] s) :
    List.Forall₂ (TypeDecl.Aligned R) ts (types visit ts s).1 ∧
      I (ts.flatMap TypeDecl.instructions) (types visit ts s).2 :=
  threadMap_run (g := TypeDecl.instructions)
    (fun t ht => type_run visit R I fun i hi => hstep i (List.mem_flatMap.mpr ⟨t, ht, hi⟩)) [] s hI

end Traversal

/-! ## Two traversals in step

Two visits of the same instructions, with states of their own that are related by `R`. -/

section

variable {σ τ : Type} {R : σ → τ → Prop}

theorem threadMap_lockstep {α β : Type} {f : α → σ → β × σ} {g : α → τ → β × τ}
    (hstep : ∀ a s t, R s t → (f a s).1 = (g a t).1 ∧ R (f a s).2 (g a t).2) (l : List α) :
    ∀ s t, R s t → (threadMap f l s).1 = (threadMap g l t).1 ∧ R (threadMap f l s).2 (threadMap g l t).2 := by
  induction l with
  | nil => exact fun s t h => ⟨rfl, h⟩
  | cons a l ih =>
      intro s t h
      obtain ⟨ha, h⟩ := hstep a s t h
      obtain ⟨hl, h⟩ := ih _ _ h
      exact ⟨congrArg₂ List.cons ha hl, h⟩

namespace Traversal

variable {visit : Site → Instruction → σ → Instruction × σ} {visit' : Site → Instruction → τ → Instruction × τ}
  (hstep : ∀ site i s t, R s t → (visit site i s).1 = (visit' site i t).1 ∧ R (visit site i s).2 (visit' site i t).2)

include hstep

theorem body_lockstep (typeName methodName : Bytes) (is : List Instruction) :
    ∀ position s t, R s t →
      (body visit typeName methodName position is s).1 = (body visit' typeName methodName position is t).1 ∧
        R (body visit typeName methodName position is s).2 (body visit' typeName methodName position is t).2 := by
  induction is with
  | nil => exact fun position s t h => ⟨rfl, h⟩
  | cons i is ih =>
      intro position s t h
      obtain ⟨hi, h⟩ := hstep ⟨typeName, methodName, position⟩ i s t h
      obtain ⟨his, h⟩ := ih (position + 1) _ _ h
      exact ⟨congrArg₂ List.cons hi his, h⟩

theorem method_lockstep (typeName : Bytes) (d : MethodDecl) (s : σ) (t : τ) (h : R s t) :
    (method visit typeName d s).1 = (method visit' typeName d t).1 ∧
      R (method visit typeName d s).2 (method visit' typeName d t).2 := by
  obtain ⟨signature, body⟩ := d
  cases body with
  | none => exact ⟨rfl, h⟩
  | some is =>
      obtain ⟨his, h⟩ := body_lockstep hstep typeName signature.name is 0 s t h
      exact ⟨congrArg (fun is => MethodDecl.mk signature (some is)) his, h⟩

theorem type_lockstep (d : TypeDecl) (s : σ) (t : τ) (h : R s t) :
    (type visit d s).1 = (type visit' d t).1 ∧ R (type visit d s).2 (type visit' d t).2 := by
  obtain ⟨hmethods, h⟩ := threadMap_lockstep (method_lockstep hstep d.fullName) d.methods s t h
  exact ⟨congrArg (fun methods => { d with methods }) hmethods, h⟩

/-- **Two traversals in step.** If two visits return the same instruction from related states and keep them related,
    then two traversals return the same types and end in related states. -/
theorem types_lockstep (ts : List TypeDecl) (s : σ) (t : τ) (h : R s t) :
    (types visit ts s).1 = (types visit' ts t).1 ∧ R (types visit ts s).2 (types visit' ts t).2 :=
  threadMap_lockstep (type_lockstep hstep) ts s t h

end Traversal

end

/-! ## Resolution

References are resolved against surfaces, and those have no instructions. -/

section

variable (f : Instruction → Instruction)

@[simp] theorem TypeDecl.surface_mapInstructions (t : TypeDecl) :
    (t.mapInstructions f).surface = t.surface := by
  simp [mapInstructions, surface, MethodDecl.mapInstructions]

/-- The module with every instruction replaced by its image. -/
def Module.mapInstructions (m : Module) : Module :=
  { m with types := m.types.map (·.mapInstructions f) }

theorem MethodDecl.mapInstructions_eq_self {f : Instruction → Instruction} {d : MethodDecl}
    (h : ∀ i ∈ d.instructions, f i = i) : d.mapInstructions f = d := by
  obtain ⟨signature, body⟩ := d
  cases body with
  | none => rfl
  | some is =>
      have his : is.map f = is := (List.map_congr_left h).trans (List.map_id is)
      rw [mapInstructions, Option.map_some, his]

theorem TypeDecl.mapInstructions_eq_self {f : Instruction → Instruction} {t : TypeDecl}
    (h : ∀ i ∈ t.instructions, f i = i) : t.mapInstructions f = t := by
  have hmethods : t.methods.map (·.mapInstructions f) = t.methods :=
    (List.map_congr_left fun d hd => MethodDecl.mapInstructions_eq_self fun i hi =>
      h i (List.mem_flatMap.mpr ⟨d, hd, hi⟩)).trans (List.map_id _)
  rw [mapInstructions, hmethods]

/-- A function that keeps all instructions of a module keeps the module. -/
theorem Module.mapInstructions_eq_self {f : Instruction → Instruction} {m : Module}
    (h : ∀ i ∈ m.instructions, f i = i) : m.mapInstructions f = m := by
  have htypes : m.types.map (·.mapInstructions f) = m.types :=
    (List.map_congr_left fun t ht => TypeDecl.mapInstructions_eq_self fun i hi =>
      h i (List.mem_flatMap.mpr ⟨t, ht, hi⟩)).trans (List.map_id _)
  rw [mapInstructions, htypes]

@[simp] theorem Module.name_mapInstructions (m : Module) : (m.mapInstructions f).name = m.name := rfl
@[simp] theorem Module.host_mapInstructions (m : Module) : (m.mapInstructions f).host = m.host := rfl

theorem Module.typeNamed?_mapInstructions (m : Module) (fullName : Bytes) :
    (m.mapInstructions f).typeNamed? fullName = (m.typeNamed? fullName).map (·.mapInstructions f) := by
  simp only [typeNamed?, mapInstructions, List.find?_map]
  rfl

/-- **Replacing instructions changes no resolution.** -/
@[simp] theorem Module.resolver_mapInstructions (m : Module) : (m.mapInstructions f).resolver = m.resolver := by
  funext ref
  simp only [resolver, type?, name_mapInstructions, host_mapInstructions, typeNamed?_mapInstructions]
  split
  · rw [Option.map_map]
    congr 1
    funext t
    exact t.surface_mapInstructions f
  · rfl

/-! ## Places -/

theorem MethodDecl.instructions_mapInstructions (d : MethodDecl) :
    (d.mapInstructions f).instructions = d.instructions.map f := by
  obtain ⟨signature, body⟩ := d
  cases body <;> rfl

@[simp] theorem Module.instructions_mapInstructions (m : Module) :
    (m.mapInstructions f).instructions = m.instructions.map f := by
  simp only [instructions_eq, mapInstructions, TypeDecl.instructions, TypeDecl.mapInstructions,
    List.flatMap_map, List.map_flatMap, MethodDecl.instructions_mapInstructions]

end

/-- A place in a module: the number of the type, that of the method, and the offset in its body. -/
structure Position where
  type : Nat
  method : Nat
  offset : Nat
  deriving DecidableEq, Repr

/-- The instruction at a place, if there is one. -/
def Module.instructionAt? (m : Module) (p : Position) : Option Instruction :=
  m.types[p.type]?.bind fun t => t.methods[p.method]?.bind fun d => d.body.bind fun is => is[p.offset]?

@[simp] theorem Module.instructionAt?_mapInstructions (f : Instruction → Instruction) (m : Module) (p : Position) :
    (m.mapInstructions f).instructionAt? p = (m.instructionAt? p).map f := by
  simp only [instructionAt?, mapInstructions, List.getElem?_map]
  cases m.types[p.type]? with
  | none => rfl
  | some t =>
      simp only [Option.map_some, Option.bind_some, TypeDecl.mapInstructions, List.getElem?_map]
      cases t.methods[p.method]? with
      | none => rfl
      | some d =>
          simp only [Option.map_some, Option.bind_some, MethodDecl.mapInstructions]
          cases d.body with
          | none => rfl
          | some is => simp

end ModRepair
