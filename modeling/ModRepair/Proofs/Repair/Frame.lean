import ModRepair.Proofs.Metadata.Imports
import ModRepair.Proofs.Repair.Written

/-!
# What a run leaves alone

A run exchanges instructions for others and enters references in the tables. This file says that it does nothing
else: `Module.Frame` relates two modules that have the same name, host and declarations, in the same order, with
bodies for the same methods and of the same lengths, and tables of which one begins with the other.

* `frame_settled`, `wellFormed_settled` — one run;
* `Registry.Leads.frame`, `Registry.Leads.wellFormed` — **any number of runs**, by induction on them;
* `runs_keep_frame` — both together: instructions that take what their opcodes accept stay so, within the frame.
-/

namespace ModRepair

/-- A module that differs from another at most in the instructions of the bodies that are there, and in what its
    tables hold behind what those of the other hold. -/
structure Module.Frame (m m' : Module) : Prop where
  name : m'.name = m.name
  host : m'.host = m.host
  types : List.Forall₂ (TypeDecl.Aligned fun _ _ => True) m.types m'.types
  imports : m.imports.Extends m'.imports

namespace Module

theorem Frame.refl (m : Module) : m.Frame m where
  name := rfl
  host := rfl
  types := List.forall₂_same.mpr fun t _ => .refl (fun _ => trivial) t
  imports := .refl m.imports

theorem Frame.trans {m m' m'' : Module} (h : m.Frame m') (h' : m'.Frame m'') : m.Frame m'' where
  name := h'.name.trans h.name
  host := h'.host.trans h.host
  types := forall₂_comp (fun _ _ _ ht ht' => ht.comp (fun _ _ _ _ _ => trivial) ht') h.types h'.types
  imports := h.imports.trans h'.imports

end Module

/-! ## One run -/

section

variable {hs : List Handler} {m : Module}

/-- **One run** keeps to the frame. -/
theorem frame_settled : m.Frame (settled hs m) where
  name := by rw [settled, Module.name_mapInstructions, Module.name_addImports]
  host := host_settled
  types := by
    rw [settled, Module.mapInstructions, Module.types_addImports]
    exact List.forall₂_map_right_iff.mpr
      (List.forall₂_same.mpr fun t _ => t.aligned_mapInstructions fun _ => trivial)
  imports := m.extends_addImports _

/-- What is left in the place of an instruction is well formed if the instruction is. -/
theorem wellFormed_settle {find : Resolver} {i : Instruction} (hi : i.isWellFormed = true) :
    (settle find hs i).isWellFormed = true := by
  cases hc : claimOf? find hs i with
  | none =>
      rw [settle_of_unclaimed hc]
      exact hi
  | some c =>
      obtain ⟨h, -, hoffer⟩ := exists_mem_of_claimOf? hc
      rw [settle_of_claim hc]
      exact Handler.wellFormed_of_claimed hoffer hi

/-- One run leaves well-formed instructions. -/
theorem wellFormed_settled (hm : ∀ i ∈ m.instructions, i.isWellFormed = true) :
    ∀ i ∈ (settled hs m).instructions, i.isWellFormed = true := by
  intro i hi
  rw [instructions_settled] at hi
  obtain ⟨j, hj, rfl⟩ := List.mem_map.mp hi
  exact wellFormed_settle (hm j hj)

end

/-! ## Any number of runs -/

namespace Registry.Leads

variable {r : Registry} {m left : Module}

theorem frame (h : r.Leads m left) : m.Frame left := by
  induction h with
  | none => exact .refl m
  | @run m' report before completed ih =>
      rw [show (r.repair m').module = settled r.handlers m' from (repair_completed completed).1]
      exact ih.trans frame_settled

theorem wellFormed (h : r.Leads m left) (hm : ∀ i ∈ m.instructions, i.isWellFormed = true) :
    ∀ i ∈ left.instructions, i.isWellFormed = true := by
  induction h with
  | none => exact hm
  | @run m' report before completed ih =>
      rw [show (r.repair m').module = settled r.handlers m' from (repair_completed completed).1]
      exact wellFormed_settled ih

end Registry.Leads

/-- **Runs keep to the frame and leave well-formed instructions.** Take any table of handlers, whatever profile,
    options and additions it is made of, and a module all of whose instructions have operands that their opcodes
    accept. After any number of completed runs this is so again; name, host and declarations are as before, the same
    methods have bodies, each of the same length, and whatever the tables held they hold at the same places. -/
theorem runs_keep_frame (r : Registry) {m left : Module} (hruns : r.Leads m left)
    (hm : ∀ i ∈ m.instructions, i.isWellFormed = true) :
    m.Frame left ∧ ∀ i ∈ left.instructions, i.isWellFormed = true :=
  ⟨hruns.frame, hruns.wellFormed hm⟩

/-- Two runs over a load and a token: the load becomes a call, the type in the token another. -/
theorem runs_keep_frame_sample :
    let r := Registry.ofProfile .standard (Sample.profileOf [Sample.fieldMoved, Sample.typeMoved] [])
    let m := Sample.moduleOf [Sample.loadF, ⟨.ldtoken, .property ⟨Sample.typeA, ascii "p", Sample.int32⟩⟩]
    let left := (r.repair (r.repair m).module).module
    left.instructions = [Sample.callGetP, ⟨.ldtoken, .property ⟨Sample.typeB, ascii "p", Sample.int32⟩⟩] ∧
      m.Frame left ∧ ∀ i ∈ left.instructions, i.isWellFormed = true := by
  intro r m left
  have hruns : r.Leads m left := .run (.run .none rfl) rfl
  exact ⟨by decide, runs_keep_frame r hruns (by decide)⟩

end ModRepair
