import Mathlib.Algebra.BigOperators.Fin
import Mathlib.Data.Fintype.BigOperators
import ModRepair.Proofs.Repair.Completion
import ModRepair.Proofs.Repair.Table

/-!
# Failures are contained

A handler that fails on an instruction leaves it to those behind it. So handlers that do nothing but fail can be taken
out of a table, and nothing shows it but the count of failures.

* `Handler.OnlyFails` — handlers that do nothing but fail;
* `Thinned` — a list of which some elements, all of one kind, have been left out;
* `Thinned.hearing` — failing handlers decide no hearing;
* `Run.visit_dropsFailing` — **the step lemma**: a run with and a run without them go in step;
* `length_failures_hear` — **where a failure is counted**: at a handler that fails and before which none claims;
* `failures_contained` — both for whole runs.
-/

namespace ModRepair

/-! ## Lists with elements left out -/

/-- The second list is the first without some of its elements for which `p` holds. -/
inductive Thinned {α : Type} (p : α → Prop) : List α → List α → Prop
  | nil : Thinned p [] []
  | keep (a : α) {l l' : List α} (rest : Thinned p l l') : Thinned p (a :: l) (a :: l')
  | drop {a : α} {l l' : List α} (out : p a) (rest : Thinned p l l') : Thinned p (a :: l) l'

namespace Thinned

variable {α β : Type} {p : α → Prop} {q : β → Prop} {l l' : List α}

theorem map {f : α → β} (hf : ∀ a, p a → q (f a)) (h : Thinned p l l') : Thinned q (l.map f) (l'.map f) := by
  induction h with
  | nil => exact .nil
  | keep a _ ih => exact .keep (f a) ih
  | drop out _ ih => exact .drop (hf _ out) ih

theorem append_left (front : List α) (h : Thinned p l l') : Thinned p (front ++ l) (front ++ l') := by
  induction front with
  | nil => exact h
  | cons a front ih => exact ih.keep a

theorem filter {keep : α → Bool} (h : Thinned p l l') : Thinned p (l.filter keep) (l'.filter keep) := by
  induction h with
  | nil => exact .nil
  | keep a _ ih =>
      by_cases ha : keep a = true
      · simpa [ha] using ih.keep a
      · simpa [ha] using ih
  | @drop a l l' out _ ih =>
      by_cases ha : keep a = true
      · simpa [ha] using ih.drop out
      · simpa [ha] using ih

/-- What the elements left out do not contribute to is the same for both lists. -/
theorem flatMap_eq {f : α → List β} (hf : ∀ a, p a → f a = []) (h : Thinned p l l') : l'.flatMap f = l.flatMap f := by
  induction h with
  | nil => rfl
  | keep a _ ih => rw [List.flatMap_cons, List.flatMap_cons, ih]
  | drop out _ ih => rw [List.flatMap_cons, hf _ out, List.nil_append, ih]

end Thinned

/-! ## Handlers that fail -/

namespace Handler

variable {find : Resolver} {i : Instruction}

/-- A handler that does nothing but fail: it claims no instruction and does not give up on any. -/
def OnlyFails (h : Handler) : Prop :=
  ∀ find i, (h.offer find i).passes

/-- Whether a handler fails on the instruction. -/
def failsOn (h : Handler) (find : Resolver) (i : Instruction) : Bool :=
  match h.offer find i with
  | .failed _ => true
  | _ => false

theorem failsOn_iff {h : Handler} : h.failsOn find i = true ↔ ∃ text, h.offer find i = .failed text := by
  unfold failsOn
  cases h.offer find i <;> simp

/-- A probe whose script is to fail does so on the instructions that it selects. -/
theorem failsOn_probe {p : Probe} (hp : p.reaction = .fail) : (Handler.probe p).failsOn find i = p.selects i := by
  have hanswer : (Handler.probe p).offer find i = p.answer i := rfl
  unfold failsOn
  rw [hanswer, Probe.answer, hp]
  cases p.selects i <;> rfl

theorem onlyFails_probe {p : Probe} (hp : p.reaction = .fail) : (Handler.probe p).OnlyFails := by
  intro find i
  have hanswer : (Handler.probe p).offer find i = p.answer i := rfl
  rw [hanswer, Probe.answer, hp]
  cases p.selects i <;> rfl

end Handler

/-- A tally that a failing handler keeps: it has made no claim. -/
def Tally.Idle (t : Tally) : Prop :=
  t.handler.OnlyFails ∧ t.claims = []

/-! ## Failing handlers decide nothing -/

/-- Verdicts over two lists of tallies that come to the same: what one list has entered under a claim is, idle tallies
    aside, what the other has. -/
inductive Verdict.Alike (ts ts' : List Tally) : Verdict → Verdict → Prop
  | unclaimed : Alike ts ts' .unclaimed .unclaimed
  | aborted (reason : Bytes) : Alike ts ts' (.aborted reason) (.aborted reason)
  | claimed {k k' : Nat} {c : Claim}
      (entered : Thinned Tally.Idle (ts.modify k (·.take c)) (ts'.modify k' (·.take c))) :
      Alike ts ts' (.claimed k c) (.claimed k' c)

namespace Verdict.Alike

variable {ts ts' : List Tally} {v v' : Verdict}

/-- One more handler in front of both lists. -/
theorem keep (t : Tally) (h : Alike ts ts' v v') : Alike (t :: ts) (t :: ts') v.shift v'.shift := by
  cases h with
  | unclaimed => exact .unclaimed
  | aborted reason => exact .aborted reason
  | claimed entered => exact .claimed (entered.keep t)

/-- One more handler in front of the first list only, which does nothing but fail. -/
theorem drop {t : Tally} (out : t.Idle) (h : Alike ts ts' v v') : Alike (t :: ts) ts' v.shift v' := by
  cases h with
  | unclaimed => exact .unclaimed
  | aborted reason => exact .aborted reason
  | claimed entered => exact .claimed (entered.drop out)

end Verdict.Alike

/-- **Failing handlers decide no hearing.** -/
theorem Thinned.hearing {find : Resolver} {i : Instruction} {ts ts' : List Tally} (h : Thinned Tally.Idle ts ts') :
    Verdict.Alike ts ts' (hear find i (ts.map (·.handler))).verdict (hear find i (ts'.map (·.handler))).verdict := by
  induction h with
  | nil => exact .unclaimed
  | @keep t ts ts' rest ih =>
      rw [List.map_cons, List.map_cons]
      -- What both lists begin with answers both in the same way.
      rcases (t.handler.offer find i).passes_or with hp | ⟨c, hc⟩ | ⟨reason, ha⟩
      · rw [hear_cons_of_passes hp, hear_cons_of_passes hp]
        exact ih.keep t
      · rw [hear_cons_of_claimed hc, hear_cons_of_claimed hc]
        exact .claimed (rest.keep (t.take c))
      · rw [hear_cons_of_aborted ha, hear_cons_of_aborted ha]
        exact .aborted reason
  | @drop t ts ts' out rest ih =>
      rw [List.map_cons, hear_cons_of_passes (out.1 find i)]
      exact ih.drop out

/-! ## Runs without them -/

/-- The second run is where the first is, but for failing handlers that it does not have. -/
structure Run.DropsFailing (run run' : Run) : Prop where
  module : run'.module = run.module
  tallies : Thinned Tally.Idle run.tallies run'.tallies
  visited : run'.visited = run.visited
  claimed : run'.claimed = run.claimed
  aborted : run'.aborted = run.aborted

namespace Run

variable {run run' : Run}

/-- **The step lemma.** Both runs leave the same in the place of an instruction, and stay in step. -/
theorem visit_dropsFailing (site : Site) (i : Instruction) (h : run.DropsFailing run') :
    (visit site i run).1 = (visit site i run').1 ∧ (visit site i run).2.DropsFailing (visit site i run').2 := by
  -- Both runs have been given up, or both go on and hear verdicts that come to the same.
  by_cases hgiven : run.aborted.isSome
  · rw [visit_of_given_up hgiven, visit_of_given_up (h.aborted ▸ hgiven)]
    exact ⟨rfl, h⟩
  · have hopen : run.aborted = none := by simpa using hgiven
    have halike : Verdict.Alike run.tallies run'.tallies (run.hearing i).verdict (run'.hearing i).verdict := by
      rw [hearing, hearing, h.module]
      exact h.tallies.hearing
    rw [visit_of_running hopen, visit_of_running (h.aborted.trans hopen)]
    generalize (run.hearing i).verdict = v, (run'.hearing i).verdict = v' at halike
    have hvisited : run'.visited + 1 = run.visited + 1 := congrArg (· + 1) h.visited
    cases halike with
    | unclaimed =>
        exact ⟨rfl,
          { module := h.module
            tallies := h.tallies
            visited := hvisited
            claimed := h.claimed
            aborted := h.aborted }⟩
    | aborted reason =>
        exact ⟨rfl,
          { module := h.module
            tallies := h.tallies
            visited := hvisited
            claimed := h.claimed
            aborted := rfl }⟩
    | @claimed k k' c entered =>
        exact ⟨rfl,
          { module := congrArg (·.addImports c.imports) h.module
            tallies := entered
            visited := hvisited
            claimed := congrArg (· + 1) h.claimed
            aborted := h.aborted }⟩

theorem start_dropsFailing {hs hs' : List Handler} (h : Thinned (fun g : Handler => g.OnlyFails) hs hs')
    (m : Module) : (start hs m).DropsFailing (start hs' m) where
  module := rfl
  tallies := h.map fun _ hg => ⟨hg, rfl⟩
  visited := rfl
  claimed := rfl
  aborted := rfl

/-- Runs in step report the same, but for the count of failures. -/
theorem report_dropsFailing (h : run.DropsFailing run') :
    run'.report = { run.report with failures := run'.failures } := by
  -- Idle tallies have neither phrases nor categories to contribute.
  have hphrases : run'.tallies.flatMap (·.phrases) = run.tallies.flatMap (·.phrases) :=
    h.tallies.flatMap_eq fun t ht => by rw [Tally.phrases, ht.2]; rfl
  have hcategories : run'.tallies.flatMap (·.categories) = run.tallies.flatMap (·.categories) :=
    h.tallies.flatMap_eq fun t ht => by rw [Tally.categories, ht.2]; rfl
  rw [report, report, h.module, hphrases, hcategories, h.visited, h.claimed]

end Run

/-- Two runs over a module, one of them without some of the failing handlers: both give up for the same reason, or
    both report, and the same but for the count of failures. -/
theorem repair_dropsFailing {hs hs' : List Handler} (h : Thinned (fun g : Handler => g.OnlyFails) hs hs')
    (m : Module) :
    (repair hs' m).module = (repair hs m).module ∧
      match (repair hs m).report with
      | .error reason => (repair hs' m).report = .error reason
      | .ok report => ∃ failures, (repair hs' m).report = .ok { report with failures } := by
  obtain ⟨htypes, hrun⟩ := Traversal.types_lockstep (R := Run.DropsFailing)
    (fun site i run run' => Run.visit_dropsFailing site i) m.types (.start hs m) (.start hs' m)
    (Run.start_dropsFailing h m)
  have hfinal : (Run.final hs m).DropsFailing (Run.final hs' m) := hrun
  rw [repair_eq_outcome, repair_eq_outcome, ← htypes]
  unfold Run.outcome
  rw [hfinal.aborted, hfinal.module]
  cases (Run.final hs m).aborted with
  | some reason => exact ⟨rfl, rfl⟩
  | none => exact ⟨rfl, _, congrArg Except.ok (Run.report_dropsFailing hfinal)⟩

/-! ## Where a failure is counted -/

/-- The handler at a position is reached by the instruction, no handler before it having claimed it, and fails. -/
def FailsAt (find : Resolver) (hs : List Handler) (i : Instruction) (k : Fin hs.length) : Prop :=
  hs[k].failsOn find i = true ∧ ∀ j < k, (hs[j].offer find i).claim? = none

instance (find : Resolver) (hs : List Handler) (i : Instruction) (k : Fin hs.length) :
    Decidable (FailsAt find hs i k) :=
  inferInstanceAs (Decidable (_ ∧ _))

section

variable {find : Resolver} {i : Instruction} {hs : List Handler} {h : Handler}

theorem failsAt_zero : FailsAt find (h :: hs) i 0 ↔ h.failsOn find i = true :=
  ⟨fun hf => hf.1, fun hf => ⟨hf, fun j hj => absurd hj (Fin.not_lt_zero j)⟩⟩

theorem failsAt_succ {k : Fin hs.length} :
    FailsAt find (h :: hs) i k.succ ↔ (h.offer find i).claim? = none ∧ FailsAt find hs i k := by
  constructor
  · rintro ⟨hfails, hbefore⟩
    exact ⟨hbefore 0 (Fin.succ_pos k), hfails, fun j hj => hbefore j.succ (Fin.succ_lt_succ_iff.mpr hj)⟩
  · rintro ⟨hnone, hfails, hbefore⟩
    refine ⟨hfails, fun j hj => ?_⟩
    cases j using Fin.cases with
    | zero => exact hnone
    | succ j => exact hbefore j (Fin.succ_lt_succ_iff.mp hj)

/-- **One instruction.** The failures of a hearing that is not aborted are those of the handlers that fail before the
    claim. -/
theorem length_failures_hear (hno : ∀ reason, (hear find i hs).verdict ≠ .aborted reason) :
    (hear find i hs).failures.length = ∑ k : Fin hs.length, if FailsAt find hs i k then 1 else 0 := by
  -- Induction on the handlers: those that pass count themselves, and one that claims ends the count.
  induction hs with
  | nil => rfl
  | cons h hs ih =>
      show (hear find i (h :: hs)).failures.length =
        ∑ k : Fin (hs.length + 1), if FailsAt find (h :: hs) i k then 1 else 0
      rw [Fin.sum_univ_succ]
      simp only [failsAt_zero, failsAt_succ]
      cases ho : h.offer find i with
      | declined =>
          have hpasses : (h.offer find i).passes = true := by rw [ho]; rfl
          have hsilent : ¬ h.failsOn find i = true := by rw [Handler.failsOn_iff, ho]; simp
          have hrest := ih fun reason ha => hno reason (by rw [hear_cons_of_passes hpasses, ha]; rfl)
          simp only [hear, ho, hrest, hsilent, Offer.claim?]
          simp
      | failed text =>
          have hpasses : (h.offer find i).passes = true := by rw [ho]; rfl
          have hfails : h.failsOn find i = true := (Handler.failsOn_iff).mpr ⟨text, ho⟩
          have hrest := ih fun reason ha => hno reason (by rw [hear_cons_of_passes hpasses, ha]; rfl)
          simp only [hear, ho, List.length_cons, hrest, hfails, Offer.claim?]
          simp [Nat.add_comm]
      | claimed c =>
          have hsilent : ¬ h.failsOn find i = true := by rw [Handler.failsOn_iff, ho]; simp
          simp [hear, ho, hsilent, Offer.claim?]
      | aborted reason => exact absurd (hear_cons_of_aborted ho) (hno reason)

end

/-- The pairs of an instruction and a handler that fails on it, no handler before it claiming the instruction. -/
def failurePairs (find : Resolver) (hs : List Handler) (is : List Instruction) :
    Finset (Fin is.length × Fin hs.length) :=
  Finset.univ.filter fun p => FailsAt find hs is[p.1] p.2

/-- **All instructions.** -/
theorem length_failures_eq_card {find : Resolver} {hs : List Handler} {is : List Instruction}
    (hno : ∀ i ∈ is, ∀ reason, (hear find i hs).verdict ≠ .aborted reason) :
    (is.flatMap (failuresOf find hs)).length = (failurePairs find hs is).card := by
  calc (is.flatMap (failuresOf find hs)).length
      = (is.map fun i => (failuresOf find hs i).length).sum := List.length_flatMap
    _ = ∑ k : Fin is.length, (failuresOf find hs is[k]).length :=
        (Fin.sum_univ_fun_getElem is fun i => (failuresOf find hs i).length).symm
    _ = ∑ k : Fin is.length, ∑ l : Fin hs.length, if FailsAt find hs is[k] l then 1 else 0 :=
        Finset.sum_congr rfl fun k _ => length_failures_hear (hno is[k] (List.getElem_mem k.isLt))
    _ = (failurePairs find hs is).card := by
        rw [failurePairs, Finset.card_filter, Fintype.sum_prod_type]

/-! ## Registries -/

/-- The second registry is the first without some lines whose handlers do nothing but fail. -/
structure Registry.DropsFailing (r r' : Registry) : Prop where
  options : r'.options = r.options
  table : Thinned (fun e : Registration => e.handler.OnlyFails) r.table r'.table

theorem Registry.DropsFailing.handlers {r r' : Registry} (h : r.DropsFailing r') :
    Thinned (fun g : Handler => g.OnlyFails) r.handlers r'.handlers := by
  rw [Registry.handlers, Registry.handlers, Registry.enabled, Registry.enabled, h.options]
  exact h.table.filter.map fun _ hg => hg

/-- **Failures are contained.** Without some of the handlers that do nothing but fail a registry leaves the same module
    and reports the same, but for the count of failures; and what a report counts are the pairs of an instruction and a
    handler that fails on it before another claims it. -/
theorem failures_contained {r r' : Registry} (hless : r.DropsFailing r') (m : Module) :
    (r'.repair m).module = (r.repair m).module ∧
      (∀ reason, (r.repair m).report = .error reason ↔ (r'.repair m).report = .error reason) ∧
      ∀ report, (r.repair m).report = .ok report →
        (∃ report', (r'.repair m).report = .ok report' ∧ report'.phrases = report.phrases ∧
          report'.categories = report.categories ∧ report'.visited = report.visited ∧
          report'.claimed = report.claimed ∧ report'.disposition = report.disposition) ∧
        report.failures = (failurePairs m.resolver r.handlers m.instructions).card := by
  obtain ⟨hmodule, hreports⟩ := repair_dropsFailing hless.handlers m
  refine ⟨hmodule, ?_, ?_⟩
  · intro reason
    cases hr : (repair r.handlers m).report with
    | error reason' =>
        rw [hr] at hreports
        rw [Registry.repair, Registry.repair, hr, hreports]
    | ok report =>
        rw [hr] at hreports
        obtain ⟨failures, hr'⟩ := hreports
        rw [Registry.repair, Registry.repair, hr, hr']
        exact ⟨nofun, nofun⟩
  · intro report hr
    refine ⟨?_, ?_⟩
    · rw [show (repair r.handlers m).report = .ok report from hr] at hreports
      obtain ⟨failures, hr'⟩ := hreports
      exact ⟨{ report with failures }, hr', rfl, rfl, rfl, rfl, rfl⟩
    · -- No hearing was aborted, so each counts its failures up to the claim.
      have hno := no_abort_of_report hr
      obtain ⟨-, hreport⟩ := repair_completed hr
      rw [hreport]
      exact length_failures_eq_card hno

/-- One failing handler is taken out and one stays. A rule claims the load before either of them, a probe the return
    between them, and nothing the last instruction. -/
theorem failures_contained_sample :
    let failing : Registration := ⟨.always, ascii "failing", .probe ⟨.fail, [], .repaired, ascii "failed"⟩⟩
    let claiming : Registration :=
      ⟨.always, ascii "claiming", .probe ⟨.claim, ascii "ret", .consoleAccess, ascii "seen"⟩⟩
    let base := Registry.ofProfile .standard (Sample.profileOf [Sample.fieldMoved] [])
    let r : Registry := { base with table := base.table ++ [failing, claiming, failing] }
    let r' : Registry := { base with table := base.table ++ [claiming, failing] }
    let m := Sample.moduleOf [Sample.loadF, ⟨.ret, .none⟩, ⟨.nop, .none⟩]
    r.DropsFailing r' ∧ (r'.repair m).module = (r.repair m).module ∧ (r.repair m).module ≠ m ∧
      ∃ report, (r.repair m).report = .ok report ∧ report.claimed = 2 ∧ report.failures = 3 := by
  intro failing claiming base r r' m
  have hless : r.DropsFailing r' :=
    { options := rfl
      table := by
        have htail : Thinned (fun e : Registration => e.handler.OnlyFails) [failing, claiming, failing]
            [claiming, failing] := .drop (Handler.onlyFails_probe rfl) (.keep claiming (.keep failing .nil))
        exact htail.append_left base.table }
  obtain ⟨report, hreport⟩ : ∃ report, (r.repair m).report = .ok report := ⟨_, rfl⟩
  obtain ⟨hmodule, -, hreports⟩ := failures_contained hless m
  obtain ⟨-, hfailures⟩ := hreports report hreport
  obtain ⟨-, hcounts⟩ := repair_completed hreport
  refine ⟨hless, hmodule, ?_, report, hreport, ?_, ?_⟩
  · decide
  · rw [hcounts]
    decide
  · rw [hfailures]
    decide

end ModRepair
