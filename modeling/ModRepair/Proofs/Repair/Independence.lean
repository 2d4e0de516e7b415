import ModRepair.Proofs.Metadata.Arrival
import ModRepair.Proofs.Repair.Completion
import ModRepair.Proofs.Repair.Table

/-!
# Instructions do not interfere

The handlers of a run share a module whose tables grow, and they keep tallies. None of this has a say in what becomes
of an instruction: two runs of the same handlers treat equal instructions alike, wherever these stand, as long as the
two modules declare the same.

* `Module.outline` — all that a decision may depend on: name, host and declarations without bodies;
* `claimantAt?` — which handler claims the instruction at a place, read off the run itself;
* `arrival?_settled` — **whatever has happened before**, the handlers hear an instruction as if it were the first;
* `treated_alike` — equal instructions of modules with one outline get equal replacements from the same handler.
-/

namespace ModRepair

/-! ## Outlines -/

/-- A method without its body. -/
def MethodDecl.outline (d : MethodDecl) : MethodDecl :=
  { d with body := none }

/-- A type without the bodies of its methods. -/
def TypeDecl.outline (t : TypeDecl) : TypeDecl :=
  { t with methods := t.methods.map MethodDecl.outline }

/-- A module without bodies and with empty tables. -/
def Module.outline (m : Module) : Module :=
  { m with types := m.types.map TypeDecl.outline, imports := .empty }

@[simp] theorem TypeDecl.surface_outline (t : TypeDecl) : t.outline.surface = t.surface := by
  simp [outline, surface, MethodDecl.outline]

theorem Module.typeNamed?_outline (m : Module) (fullName : Bytes) :
    m.outline.typeNamed? fullName = (m.typeNamed? fullName).map TypeDecl.outline := by
  simp only [typeNamed?, outline, List.find?_map]
  rfl

/-- **Resolution depends on the outline alone.** -/
theorem Module.resolver_outline (m : Module) : m.outline.resolver = m.resolver := by
  funext ref
  simp only [resolver, type?, typeNamed?_outline, show m.outline.name = m.name from rfl,
    show m.outline.host = m.host from rfl]
  split
  · rw [Option.map_map]
    congr 1
    funext t
    exact t.surface_outline
  · rfl

/-- Modules of one outline resolve every reference alike. -/
theorem Module.resolver_eq_of_outline_eq {m m' : Module} (h : m.outline = m'.outline) : m.resolver = m'.resolver := by
  rw [← m.resolver_outline, h, m'.resolver_outline]

/-! ## Who claims the instruction at a place -/

/-- The position of the handler that claims, if one does. -/
def Verdict.claimant? : Verdict → Option Nat
  | .claimed k _ => some k
  | _ => none

/-- The handler that claims the instruction at a place when a run comes to it: its position, or nothing if none
    does. There is no answer where there is no instruction. -/
def claimantAt? (hs : List Handler) (m : Module) (p : Position) : Option (Option Nat) :=
  (Traversal.arrival? Run.visit m.types (.start hs m) p).map fun a =>
    (a.state.hearing a.instruction).verdict.claimant?

section

variable {hs : List Handler} {m : Module} {p : Position}

/-- What a run leaves at a place is what the visit there returns. -/
theorem instructionAt?_repair :
    (repair hs m).module.instructionAt? p =
      (Traversal.arrival? Run.visit m.types (.start hs m) p).map fun a =>
        (Run.visit a.site a.instruction a.state).1 := by
  rw [← Traversal.instructionAt?_types, Module.instructionAt?, types_repair]
  rfl

/-- **Whatever has happened before**, a run comes to a place with handlers that hear the instruction there as they
    would at the start. -/
theorem arrival?_settled (hh : ∀ h ∈ hs, ¬ h.MayAbort) {a : Arrival Run}
    (ha : Traversal.arrival? Run.visit m.types (.start hs m) p = some a) :
    a.state.hearing a.instruction = hear m.resolver a.instruction hs ∧
      (Run.visit a.site a.instruction a.state).1 = settle m.resolver hs a.instruction := by
  obtain ⟨done, hsettled⟩ := Traversal.arrival?_invariant (I := fun done run => run.Settled hs m done)
    (fun i site done run h => (Run.visit_settled h (hear_ne_aborted hh)).2) Run.start_settled ha
  exact ⟨hsettled.hearing_eq a.instruction, (Run.visit_settled hsettled (hear_ne_aborted hh)).1⟩

/-- What a run does at a place, as a function of the instruction there. -/
theorem treatment_at (hh : ∀ h ∈ hs, ¬ h.MayAbort) {i : Instruction} (hi : m.instructionAt? p = some i) :
    (repair hs m).module.instructionAt? p = some (settle m.resolver hs i) ∧
      claimantAt? hs m p = some (hear m.resolver i hs).verdict.claimant? := by
  rw [← Traversal.arrival?_instruction Run.visit m (.start hs m), Option.map_eq_some_iff] at hi
  obtain ⟨a, ha, rfl⟩ := hi
  obtain ⟨hhearing, hvisit⟩ := arrival?_settled hh ha
  constructor
  · rw [instructionAt?_repair, ha, Option.map_some, hvisit]
  · rw [claimantAt?, ha, Option.map_some, hhearing]

end

/-- **Equal instructions are treated alike.** Let no enabled handler abort, and let two modules have one outline: the
    same name, host and declarations, whatever their bodies and tables. If one holds at some place the instruction
    that the other holds at some place, then a run over each leaves equal instructions there, and both were claimed
    by the handler at the same position, or both by none. -/
theorem treated_alike (r : Registry) (hr : ∀ h ∈ r.handlers, ¬ h.MayAbort) {m m' : Module}
    (houtline : m.outline = m'.outline) {p p' : Position} {i : Instruction} (hi : m.instructionAt? p = some i)
    (hi' : m'.instructionAt? p' = some i) :
    ∃ left claimant,
      ((r.repair m).module.instructionAt? p = some left ∧ (r.repair m').module.instructionAt? p' = some left) ∧
        claimantAt? r.handlers m p = some claimant ∧ claimantAt? r.handlers m' p' = some claimant := by
  obtain ⟨hleft, hclaimant⟩ := treatment_at hr hi
  obtain ⟨hleft', hclaimant'⟩ := treatment_at hr hi'
  rw [← Module.resolver_eq_of_outline_eq houtline] at hleft' hclaimant'
  exact ⟨_, _, ⟨hleft, hleft'⟩, hclaimant, hclaimant'⟩

/-- A load that comes first in one module, and in the other third, after the same load and a call that is rejected;
    there the tables know the getter already. -/
theorem treated_alike_sample :
    let r := Registry.ofProfile .standard (Sample.profileOf [Sample.fieldMoved] [])
    let m := Sample.moduleOf [Sample.loadF]
    let m' := (Sample.moduleOf [Sample.loadF, Sample.callG, Sample.loadF]).addImports
      [.method (Sample.getP.refOn Sample.typeB)]
    (r.repair m).module.instructionAt? ⟨0, 0, 0⟩ = some Sample.callGetP ∧
      (r.repair m').module.instructionAt? ⟨0, 0, 2⟩ = some Sample.callGetP ∧
        claimantAt? r.handlers m ⟨0, 0, 0⟩ = some (some 0) ∧ claimantAt? r.handlers m' ⟨0, 0, 2⟩ = some (some 0) := by
  intro r m m'
  obtain ⟨left, claimant, ⟨hleft, hleft'⟩, hclaimant, hclaimant'⟩ :=
    treated_alike r (Registry.not_mayAbort_ofProfile _ _) (show m.outline = m'.outline by decide)
      (show m.instructionAt? ⟨0, 0, 0⟩ = some Sample.loadF by decide)
      (show m'.instructionAt? ⟨0, 0, 2⟩ = some Sample.loadF by decide)
  have hcall : (r.repair m).module.instructionAt? ⟨0, 0, 0⟩ = some Sample.callGetP := by decide
  have hfirst : claimantAt? r.handlers m ⟨0, 0, 0⟩ = some (some 0) := by decide
  rw [hcall] at hleft
  rw [hfirst] at hclaimant
  rw [← hleft] at hleft'
  rw [← hclaimant] at hclaimant'
  exact ⟨hcall, hleft', hfirst, hclaimant'⟩

end ModRepair
