import ModRepair.Proofs.Metadata.Alignment
import ModRepair.Proofs.Metadata.Imports
import ModRepair.Proofs.Repair.Hearing

/-!
# Completed runs

A run hands a growing state from one instruction to the next. This file shows that none of it matters for what
becomes of an instruction: a run that is not aborted settles every instruction with the resolver of the module as it
was, and its report is a function of the instructions alone.

* `Run.Settled` — **the run invariant**: the state after some instructions, as a function of them;
* `Run.visit_cases` — what one visit can do at all;
* `Run.visit_settled` — the step lemma;
* `repair_eq_outcome` — what comes out of any run, given up or not;
* `repair_completed` — **the run law** for a run that reports: its module is the image under `settle`, with the
  imports of all claims, and its report is `reportOn`;
* `repair_reports` — without a handler that may abort every run reports;
* `mem_categories_reportOn`, `lt_rank_ofCategories` — what a report says, read off the claims.
-/

namespace ModRepair

/-! ## Imports and instructions -/

namespace Module

@[simp] theorem instructions_addImports (m : Module) (is : List Import) :
    (m.addImports is).instructions = m.instructions := by
  rw [instructions_eq, types_addImports, ← instructions_eq]

@[simp] theorem instructionAt?_addImports (m : Module) (is : List Import) (p : Position) :
    (m.addImports is).instructionAt? p = m.instructionAt? p := by
  rw [instructionAt?, types_addImports]
  rfl

end Module

/-! ## The state of a run as a function of the instructions taken -/

/-- What the handler at a position records when it claims an instruction. -/
def recordOf? (find : Resolver) (hs : List Handler) (k : Nat) (i : Instruction) : Option (Category × Bytes) :=
  match (hear find i hs).verdict with
  | .claimed j c => if j = k then some (c.category, c.phrase) else none
  | _ => none

/-- The tallies of handlers that have been offered some instructions. -/
def talliesOn (find : Resolver) (hs : List Handler) (is : List Instruction) : List Tally :=
  hs.mapIdx fun k h => ⟨h, is.filterMap (recordOf? find hs k)⟩

/-- The imports of the claim of an instruction. -/
def importsOf (find : Resolver) (hs : List Handler) (i : Instruction) : List Import :=
  ((claimOf? find hs i).map (·.imports)).getD []

/-- The failures that an instruction meets with. -/
def failuresOf (find : Resolver) (hs : List Handler) (i : Instruction) : List (Handler × Bytes) :=
  (hear find i hs).failures

/-- **The run invariant.** The state of a run of `hs` over `m` that has taken the instructions `done`, in this
    order, and has not been aborted. -/
structure Run.Settled (hs : List Handler) (m : Module) (done : List Instruction) (run : Run) : Prop where
  module : run.module = m.addImports (done.flatMap (importsOf m.resolver hs))
  tallies : run.tallies = talliesOn m.resolver hs done
  visited : run.visited = done.length
  claimed : run.claimed = done.countP fun i => (claimOf? m.resolver hs i).isSome
  failures : run.failures = (done.flatMap (failuresOf m.resolver hs)).length
  aborted : run.aborted = none

namespace Run

variable {hs : List Handler} {m : Module} {done : List Instruction} {run : Run} {i : Instruction} {site : Site}

theorem start_settled : (start hs m).Settled hs m [] where
  module := rfl
  tallies := by
    apply List.ext_getElem?
    intro k
    simp only [start, talliesOn, List.getElem?_map, List.getElem?_mapIdx]
    rfl
  visited := rfl
  claimed := rfl
  failures := rfl
  aborted := rfl

/-- The handlers that a state offers instructions to are those of the run. -/
theorem Settled.handlers (h : run.Settled hs m done) : run.tallies.map (·.handler) = hs := by
  rw [h.tallies, talliesOn]
  apply List.ext_getElem?
  intro k
  simp [List.getElem?_mapIdx, Option.map_map, Function.comp_def]

theorem Settled.resolver (h : run.Settled hs m done) : run.module.resolver = m.resolver := by
  rw [h.module, Module.resolver_addImports]

/-- One more instruction extends the tally of the handler that claims it, and no other. -/
theorem talliesOn_append (find : Resolver) (hs : List Handler) (done : List Instruction) (i : Instruction) :
    talliesOn find hs (done ++ [i]) =
      match (hear find i hs).verdict with
      | .claimed k c => (talliesOn find hs done).modify k (·.take c)
      | _ => talliesOn find hs done := by
  -- Tally by tally: one at another position than that of the claim has nothing to record.
  apply List.ext_getElem?
  intro j
  cases hv : (hear find i hs).verdict with
  | unclaimed => simp [talliesOn, List.getElem?_mapIdx, List.filterMap_append, recordOf?, hv]
  | aborted reason => simp [talliesOn, List.getElem?_mapIdx, List.filterMap_append, recordOf?, hv]
  | claimed k c =>
      simp only [List.getElem?_modify, talliesOn, List.getElem?_mapIdx, List.filterMap_append]
      cases hs[j]? with
      | none => simp
      | some h =>
          by_cases hkj : k = j
          · simp [recordOf?, hv, hkj, Tally.take]
          · simp [recordOf?, hv, hkj]

/-! ### One step -/

/-- What the handlers of a state say to an instruction. -/
abbrev hearing (run : Run) (i : Instruction) : Hearing :=
  hear run.module.resolver i (run.tallies.map (·.handler))

/-- Nothing more happens in a run that has been given up. -/
theorem visit_of_given_up (ha : run.aborted.isSome) : visit site i run = (i, run) := by
  rw [visit, if_pos ha]

/-- A visit, as long as the run goes on. -/
theorem visit_of_running (ha : run.aborted = none) :
    visit site i run =
      match (run.hearing i).verdict with
      | .unclaimed => (i, run.note site (run.hearing i).failures)
      | .claimed k c => (c.instruction, (run.note site (run.hearing i).failures).take k c)
      | .aborted reason => (i, { run.note site (run.hearing i).failures with aborted := some reason }) := by
  have hopen : ¬ run.aborted.isSome = true := by simp [ha]
  unfold visit
  exact if_neg hopen

theorem visit_of_unclaimed (ha : run.aborted = none) (hv : (run.hearing i).verdict = .unclaimed) :
    visit site i run = (i, run.note site (run.hearing i).failures) := by
  simp only [visit_of_running ha, hv]

theorem visit_of_claimed {k : Nat} {c : Claim} (ha : run.aborted = none)
    (hv : (run.hearing i).verdict = .claimed k c) :
    visit site i run = (c.instruction, (run.note site (run.hearing i).failures).take k c) := by
  simp only [visit_of_running ha, hv]

/-- What a visit does if the first handler claims. -/
theorem visit_of_claimed_first {t : Tally} {back : List Tally} {c : Claim} (htallies : run.tallies = t :: back)
    (ha : run.aborted = none) (hc : t.handler.offer run.module.resolver i = .claimed c) :
    visit site i run = (c.instruction, (run.note site []).take 0 c) := by
  have hhear : run.hearing i = ⟨[], .claimed 0 c⟩ := by
    rw [hearing, htallies, List.map_cons, hear, hc]
  rw [visit_of_running ha, hhear]

theorem visit_of_aborted {reason : Bytes} (ha : run.aborted = none)
    (hv : (run.hearing i).verdict = .aborted reason) :
    (visit site i run).2.aborted = some reason := by
  simp only [visit_of_running ha, hv]

/-- **What one visit does**: it leaves an instruction and the module, or puts in what one of the handlers has claimed,
    with the imports of the claim. -/
theorem visit_cases (site : Site) (i : Instruction) (run : Run) :
    ((visit site i run).1 = i ∧ (visit site i run).2.module = run.module) ∨
      ∃ t ∈ run.tallies, ∃ c, t.handler.offer run.module.resolver i = .claimed c ∧
        (visit site i run).1 = c.instruction ∧ (visit site i run).2.module = run.module.addImports c.imports := by
  unfold visit
  split
  · exact .inl ⟨rfl, rfl⟩
  · cases hv : (run.hearing i).verdict with
    | unclaimed =>
        simp only [hv, true_and]
        exact .inl rfl
    | aborted reason =>
        simp only [hv, true_and]
        exact .inl rfl
    | claimed k c =>
        simp only [hv]
        obtain ⟨before, h, after, hsplit, -, -, hoffer⟩ := hear_claimed_iff.mp hv
        have hmem : h ∈ run.tallies.map (·.handler) := by
          rw [hsplit]
          exact List.mem_append_right _ (List.mem_cons_self ..)
        obtain ⟨t, ht, rfl⟩ := List.mem_map.mp hmem
        exact .inr ⟨t, ht, c, hoffer, rfl, rfl⟩

theorem Settled.hearing_eq (h : run.Settled hs m done) (i : Instruction) :
    run.hearing i = hear m.resolver i hs := by
  rw [hearing, h.resolver, h.handlers]

/-- **The step lemma.** An instruction whose hearing is not aborted is settled, and the invariant goes on. -/
theorem visit_settled (h : run.Settled hs m done)
    (hi : ∀ reason, (hear m.resolver i hs).verdict ≠ .aborted reason) :
    (visit site i run).1 = settle m.resolver hs i ∧ (visit site i run).2.Settled hs m (done ++ [i]) := by
  -- The counts of instructions and failures grow in the same way whatever the verdict is.
  have hvisited : run.visited + 1 = (done ++ [i]).length := by simp [h.visited]
  have hfailures : run.failures + (hear m.resolver i hs).failures.length =
      ((done ++ [i]).flatMap (failuresOf m.resolver hs)).length := by
    simp [h.failures, failuresOf]
  have htallies := talliesOn_append m.resolver hs done i
  cases hv : (hear m.resolver i hs).verdict with
  | aborted reason => exact absurd hv (hi reason)
  | unclaimed =>
      have hnone : claimOf? m.resolver hs i = none := by rw [claimOf?, hv]; rfl
      rw [visit_of_unclaimed h.aborted (by rw [h.hearing_eq, hv]), h.hearing_eq]
      rw [hv] at htallies
      exact ⟨(settle_of_unclaimed hnone).symm,
        { module := by simp [note, h.module, importsOf, hnone]
          tallies := h.tallies.trans htallies.symm
          visited := hvisited
          claimed := by simp [note, h.claimed, hnone]
          failures := hfailures
          aborted := h.aborted }⟩
  | claimed k c =>
      have hsome : claimOf? m.resolver hs i = some c := by rw [claimOf?, hv]; rfl
      rw [visit_of_claimed h.aborted (by rw [h.hearing_eq, hv]), h.hearing_eq]
      rw [hv] at htallies
      exact ⟨(settle_of_claim hsome).symm,
        { module := by simp [note, take, h.module, importsOf, hsome, Module.addImports_append]
          tallies := by
            rw [htallies, ← h.tallies]
            rfl
          visited := hvisited
          claimed := by simp [note, take, h.claimed, hsome]
          failures := hfailures
          aborted := h.aborted }⟩

end Run

/-! ## Whole runs -/

/-- The state at the end of a run, given up or not. -/
def Run.final (hs : List Handler) (m : Module) : Run :=
  (Traversal.types Run.visit m.types (.start hs m)).2

/-- What comes out of a run that ends in a state, once it has put the types back. -/
def Run.outcome (run : Run) (types : List TypeDecl) : Outcome where
  module := { run.module with types }
  report :=
    match run.aborted with
    | some reason => .error reason
    | none => .ok run.report
  log :=
    match run.aborted with
    | some _ => run.log
    | none => run.log ++ [reportRecord run.report]

/-- **What comes out of a run**: the types are those of the traversal, all else is that of the last state. -/
theorem repair_eq_outcome (hs : List Handler) (m : Module) :
    repair hs m = (Run.final hs m).outcome (Traversal.types Run.visit m.types (.start hs m)).1 := by
  unfold repair Run.final Run.outcome
  generalize Traversal.types Run.visit m.types (.start hs m) = o
  obtain ⟨types, run⟩ := o
  cases h : run.aborted with
  | some reason => simp only [h]
  | none => simp only [h]

/-- Only a run that has not been given up reports. -/
theorem Run.report_outcome_eq_ok {run : Run} {types : List TypeDecl} {r : Report} :
    (run.outcome types).report = .ok r ↔ run.aborted = none ∧ run.report = r := by
  unfold outcome
  cases run.aborted with
  | some reason => simp
  | none => simp

/-- Name, tables and report are those of the last state. -/
theorem repair_final (hs : List Handler) (m : Module) :
    (repair hs m).module.name = (Run.final hs m).module.name ∧
      (repair hs m).module.imports = (Run.final hs m).module.imports ∧
        ∀ report, (repair hs m).report = .ok report → report = (Run.final hs m).report := by
  rw [repair_eq_outcome]
  exact ⟨rfl, rfl, fun report h => (Run.report_outcome_eq_ok.mp h).2.symm⟩

/-- The types are those of the traversal, whether the run is given up or not. -/
theorem types_repair (hs : List Handler) (m : Module) :
    (repair hs m).module.types = (Traversal.types Run.visit m.types (.start hs m)).1 := by
  rw [repair_eq_outcome]
  rfl

/-- The report of a run that is not aborted. -/
def reportOn (hs : List Handler) (m : Module) : Report where
  module := m.name
  phrases := distinct ((talliesOn m.resolver hs m.instructions).flatMap (·.phrases))
  categories := Category.inOrder ((talliesOn m.resolver hs m.instructions).flatMap (·.categories))
  visited := m.instructions.length
  claimed := m.instructions.countP fun i => (claimOf? m.resolver hs i).isSome
  failures := (m.instructions.flatMap (failuresOf m.resolver hs)).length

/-- The module as a run that is not aborted leaves it. -/
def settled (hs : List Handler) (m : Module) : Module :=
  (m.addImports (m.instructions.flatMap (importsOf m.resolver hs))).mapInstructions (settle m.resolver hs)

section

variable {hs : List Handler} {m : Module}

/-- A run in which no hearing is aborted settles the module. -/
theorem repair_of_no_abort (hm : ∀ i ∈ m.instructions, ∀ reason, (hear m.resolver i hs).verdict ≠ .aborted reason) :
    (repair hs m).module = settled hs m ∧ (repair hs m).report = .ok (reportOn hs m) := by
  obtain ⟨htypes, hrun⟩ := Traversal.types_aligned Run.visit
    (fun i j => j = settle m.resolver hs i) (fun done run => run.Settled hs m done)
    (fun i hi site done run h => Run.visit_settled h (hm i hi)) Run.start_settled
  rw [← Module.instructions_eq] at hrun
  have htypes := eq_map_of_aligned htypes
  have hfinal : (Run.final hs m).Settled hs m m.instructions := hrun
  -- The bodies come from the traversal, and everything else from the state at its end.
  rw [repair_eq_outcome, htypes]
  refine ⟨?_, ?_⟩
  · simp only [Run.outcome, settled, Module.mapInstructions, hfinal.module, Module.types_addImports]
  · refine Run.report_outcome_eq_ok.mpr ⟨hfinal.aborted, ?_⟩
    simp only [Run.report, reportOn, hfinal.module, hfinal.tallies, hfinal.visited, hfinal.claimed, hfinal.failures,
      Module.name_addImports]

/-- A run that reports has aborted no hearing. -/
theorem no_abort_of_report {r : Report} (hr : (repair hs m).report = .ok r) :
    ∀ i ∈ m.instructions, ∀ reason, (hear m.resolver i hs).verdict ≠ .aborted reason := by
  -- Either the run has been given up, or it is settled and no hearing so far was aborted.
  have hrun := (Traversal.types_aligned Run.visit (fun _ _ => True)
    (fun done run => run.aborted.isSome ∨ run.Settled hs m done ∧
      ∀ i ∈ done, ∀ reason, (hear m.resolver i hs).verdict ≠ .aborted reason)
    (fun i (_ : i ∈ m.types.flatMap TypeDecl.instructions) site done run h => ?_)
    (.inr ⟨Run.start_settled, by simp⟩)).2
  · rw [← Module.instructions_eq] at hrun
    rw [repair_eq_outcome, Run.report_outcome_eq_ok] at hr
    rcases hrun with ha | ⟨-, hno⟩
    · have hgiven : (Run.final hs m).aborted.isSome := ha
      rw [hr.1] at hgiven
      cases hgiven
    · exact hno
  · refine ⟨trivial, ?_⟩
    rcases h with ha | ⟨h, hno⟩
    · rw [Run.visit_of_given_up ha]
      exact .inl ha
    · by_cases hi : ∃ reason, (hear m.resolver i hs).verdict = .aborted reason
      · obtain ⟨reason, hi⟩ := hi
        refine .inl ?_
        rw [Run.visit_of_aborted h.aborted (by rw [h.hearing_eq, hi])]
        rfl
      · have hi : ∀ reason, (hear m.resolver i hs).verdict ≠ .aborted reason :=
          fun reason h => hi ⟨reason, h⟩
        refine .inr ⟨(Run.visit_settled h hi).2, ?_⟩
        intro j hj
        rcases List.mem_append.mp hj with hj | hj
        · exact hno j hj
        · rw [List.mem_singleton.mp hj]
          exact hi

/-- **The run law.** A run that reports settles every instruction with the resolver of the module as it was. -/
theorem repair_completed {r : Report} (hr : (repair hs m).report = .ok r) :
    (repair hs m).module = settled hs m ∧ r = reportOn hs m := by
  obtain ⟨hmodule, hreport⟩ := repair_of_no_abort (no_abort_of_report hr)
  rw [hr] at hreport
  exact ⟨hmodule, Except.ok.inj hreport⟩

/-- Without a handler that may abort every run reports. -/
theorem repair_reports (hh : ∀ h ∈ hs, ¬ h.MayAbort) (m : Module) :
    (repair hs m).module = settled hs m ∧ (repair hs m).report = .ok (reportOn hs m) :=
  repair_of_no_abort fun _ _ reason => hear_ne_aborted hh reason

@[simp] theorem host_settled : (settled hs m).host = m.host := by
  rw [settled, Module.host_mapInstructions, Module.host_addImports]

@[simp] theorem resolver_settled : (settled hs m).resolver = m.resolver := by
  rw [settled, Module.resolver_mapInstructions, Module.resolver_addImports]

@[simp] theorem instructions_settled :
    (settled hs m).instructions = m.instructions.map (settle m.resolver hs) := by
  rw [settled, Module.instructions_mapInstructions, Module.instructions_addImports]

@[simp] theorem instructionAt?_settled (p : Position) :
    (settled hs m).instructionAt? p = (m.instructionAt? p).map (settle m.resolver hs) := by
  rw [settled, Module.instructionAt?_mapInstructions, Module.instructionAt?_addImports]

/-! ## What a report says -/

theorem recordOf?_eq_some {find : Resolver} {k : Nat} {i : Instruction} {record : Category × Bytes} :
    recordOf? find hs k i = some record ↔
      ∃ c, (hear find i hs).verdict = .claimed k c ∧ (c.category, c.phrase) = record := by
  rw [recordOf?]
  cases (hear find i hs).verdict with
  | unclaimed => simp
  | aborted reason => simp
  | claimed j c => by_cases hjk : j = k <;> simp [hjk]

/-- A report lists the categories of the claims. -/
theorem mem_categories_reportOn {category : Category} :
    category ∈ (reportOn hs m).categories ↔
      ∃ i ∈ m.instructions, ∃ c, claimOf? m.resolver hs i = some c ∧ c.category = category := by
  simp only [reportOn, Category.mem_inOrder, List.mem_flatMap, talliesOn, Tally.categories, List.mem_map]
  constructor
  · rintro ⟨t, ht, record, hrecord, rfl⟩
    obtain ⟨k, h, rfl⟩ := List.mem_mapIdx.mp ht
    obtain ⟨i, hi, hrec⟩ := List.mem_filterMap.mp hrecord
    obtain ⟨c, hv, rfl⟩ := recordOf?_eq_some.mp hrec
    exact ⟨i, hi, c, Verdict.claim?_eq_some.mpr ⟨k, hv⟩, rfl⟩
  · rintro ⟨i, hi, c, hc, rfl⟩
    obtain ⟨k, hv⟩ := Verdict.claim?_eq_some.mp hc
    have hk : k < hs.length := by
      obtain ⟨before, h, after, rfl, rfl, -⟩ := hear_claimed_iff.mp hv
      simp
    exact ⟨_, List.mem_mapIdx.mpr ⟨k, hk, rfl⟩, (c.category, c.phrase),
      List.mem_filterMap.mpr ⟨i, hi, recordOf?_eq_some.mpr ⟨c, hv, rfl⟩⟩, rfl⟩

end

/-! ## Dispositions -/

/-- How much a single category weighs. -/
def Category.rank (c : Category) : Nat :=
  (Disposition.ofCategories [c]).rank

/-- A module is rejected for fatal categories, and for no others. -/
theorem ofCategories_eq_reject {cs : List Category} :
    Disposition.ofCategories cs = .reject ↔ ∃ c ∈ cs, c.severity = .fatal := by
  simp only [Disposition.ofCategories, List.any_eq_true, beq_iff_eq]
  split
  · next hfatal => exact iff_of_true rfl hfatal
  · next hfatal =>
      refine iff_of_false ?_ hfatal
      split <;> simp

/-- A disposition is as severe as the most severe of the categories. -/
theorem lt_rank_ofCategories {cs : List Category} {n : Nat} :
    n < (Disposition.ofCategories cs).rank ↔ ∃ c ∈ cs, n < c.rank := by
  have hrank : ∀ c : Category, c.rank = if c.severity = .fatal then 2 else if c.severity = .warning then 1 else 0 := by
    intro c
    cases c <;> rfl
  simp only [hrank, Disposition.ofCategories, List.any_eq_true, beq_iff_eq]
  split
  · next hfatal =>
      obtain ⟨c, hc, hf⟩ := hfatal
      refine ⟨fun hn => ⟨c, hc, by rwa [if_pos hf]⟩, ?_⟩
      rintro ⟨d, -, hd⟩
      simp only [Disposition.rank]
      split at hd <;> [exact hd; split at hd <;> omega]
  · next hfatal =>
      split
      · next hwarning =>
          obtain ⟨c, hc, hw⟩ := hwarning
          refine ⟨fun hn => ⟨c, hc, by rw [hw]; exact hn⟩, ?_⟩
          rintro ⟨d, hd, hn⟩
          rw [if_neg fun h => hfatal ⟨d, hd, h⟩] at hn
          simp only [Disposition.rank]
          split at hn <;> omega
      · next hwarning =>
          refine ⟨fun hn => absurd hn (Nat.not_lt_zero n), ?_⟩
          rintro ⟨d, hd, hn⟩
          rw [if_neg fun h => hfatal ⟨d, hd, h⟩, if_neg fun h => hwarning ⟨d, hd, h⟩] at hn
          exact absurd hn (Nat.not_lt_zero n)

end ModRepair
