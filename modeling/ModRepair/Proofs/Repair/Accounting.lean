import Mathlib.Algebra.GroupWithZero.Nat
import ModRepair.Proofs.Metadata.Closure
import ModRepair.Proofs.Repair.Completion
import ModRepair.Proofs.Repair.Table

/-!
# What a report accounts for

A run counts the instructions that it visits and those that are claimed, and each handler tallies its own claims. This
file says that the counts and the tallies agree, and that the report says of them what there is to say.

* `Run.counted_visit` — **the step lemma**: with the count of claims one tally grows, by one claim;
* `distinct_eq_eraseDups` — what is reported of the phrases: each once, where it first occurs;
* `settled_eq_self_of_known`, `settled_eq_self` — a run whose claims change nothing leaves the module as it is;
* `report_accounts` — **the report of a run**, by its tallies and by the module before and after.
-/

namespace ModRepair

/-! ## Lists -/

section

variable {α : Type} [DecidableEq α] [BEq α] [LawfulBEq α]

theorem foldl_appendNew (l acc : List α) :
    l.foldl appendNew acc = acc ++ (l.filter (· ∉ acc)).eraseDups := by
  induction l generalizing acc with
  | nil => simp
  | cons a l ih =>
      by_cases ha : a ∈ acc
      · rw [List.foldl_cons, appendNew_of_mem ha, ih]
        simp [ha]
      · have hfilter : l.filter (· ∉ acc ++ [a]) = (l.filter (· ∉ acc)).filter (!· == a) := by
          rw [List.filter_filter]
          congr 1
          funext b
          by_cases hb : b = a <;> simp [hb]
        rw [List.foldl_cons, show appendNew acc a = acc ++ [a] by simp [appendNew, ha], ih, hfilter,
          List.filter_cons_of_pos (by simp [ha]), List.eraseDups_cons, List.append_assoc]
        rfl

/-- The distinct elements are those that stay if each repeated one is dropped after its first occurrence. -/
theorem distinct_eq_eraseDups (l : List α) : distinct l = l.eraseDups := by
  rw [distinct, foldl_appendNew]
  simp

end

/-- A sum in which one summand grows by one. -/
theorem sum_map_modify {α : Type} {g : α → Nat} {f : α → α} (hf : ∀ a, g (f a) = g a + 1) {l : List α} {k : Nat}
    (hk : k < l.length) : ((l.modify k f).map g).sum = (l.map g).sum + 1 := by
  induction l generalizing k with
  | nil => exact absurd hk (Nat.not_lt_zero k)
  | cons a l ih =>
      cases k with
      | zero =>
          simp [hf]
          omega
      | succ k =>
          have hrest := ih (Nat.lt_of_succ_lt_succ hk)
          simp [hrest]
          omega

/-! ## Counts -/

namespace Run

/-- The run has counted as many claims as its tallies hold. -/
def Counted (run : Run) : Prop :=
  run.claimed = (run.tallies.map Tally.count).sum

theorem counted_start (hs : List Handler) (m : Module) : (start hs m).Counted := by
  have hcount : Tally.count ∘ Tally.new = fun _ => 0 := rfl
  simp [Counted, start, hcount]

/-- **The step lemma.** A claim is counted once and entered in one tally. -/
theorem counted_visit {site : Site} {i : Instruction} {run : Run} (h : run.Counted) :
    (visit site i run).2.Counted := by
  unfold visit
  split
  · exact h
  · cases hv : (run.hearing i).verdict with
    | unclaimed =>
        simp only [hv]
        exact h
    | aborted reason =>
        simp only [hv]
        exact h
    | claimed k c =>
        simp only [hv]
        obtain ⟨before, g, after, heq, rfl, -⟩ := hear_claimed_iff.mp hv
        have hk : before.length < run.tallies.length := by
          have hlength := congrArg List.length heq
          simp only [List.length_map, List.length_append, List.length_cons] at hlength
          omega
        have hcount : ∀ t : Tally, (t.take c).count = t.count + 1 := by
          intro t
          simp [Tally.take, Tally.count]
        show run.claimed + 1 = ((run.tallies.modify before.length (·.take c)).map Tally.count).sum
        rw [sum_map_modify hcount hk, h]

theorem counted_final (hs : List Handler) (m : Module) : (final hs m).Counted :=
  (Traversal.types_aligned visit (fun _ _ => True) (fun _ run => run.Counted)
    (fun _ _ _ _ _ h => ⟨trivial, counted_visit h⟩) (counted_start hs m)).2

theorem handlers_start (hs : List Handler) (m : Module) : (start hs m).tallies.map (·.handler) = hs := by
  simp [start, Tally.new, Function.comp_def]

/-- A visit leaves the handlers as they are. -/
theorem handlers_visit (site : Site) (i : Instruction) (run : Run) :
    (visit site i run).2.tallies.map (·.handler) = run.tallies.map (·.handler) := by
  unfold visit
  split
  · rfl
  · cases hv : (run.hearing i).verdict with
    | unclaimed => simp only [hv, note]
    | aborted reason => simp only [hv, note]
    | claimed k c =>
        simp only [hv]
        show (run.tallies.modify k (·.take c)).map (·.handler) = _
        apply List.ext_getElem?
        intro j
        simp only [List.getElem?_map, List.getElem?_modify]
        by_cases hkj : k = j <;> simp [hkj, Option.map_map, Function.comp_def, Tally.take]

theorem handlers_final (hs : List Handler) (m : Module) : (final hs m).tallies.map (·.handler) = hs :=
  (Traversal.types_aligned visit (fun _ _ => True) (fun _ run => run.tallies.map (·.handler) = hs)
    (fun i _ site _ run h => ⟨trivial, (handlers_visit site i run).trans h⟩) (handlers_start hs m)).2

end Run

/-! ## Nothing claimed, nothing changed -/

section

variable {hs : List Handler} {m : Module}

/-- A run whose claims change no instruction and import what is known leaves the module as it is. -/
theorem settled_eq_self_of_known
    (h : ∀ i ∈ m.instructions, ∀ c, claimOf? m.resolver hs i = some c →
      c.instruction = i ∧ ∀ a ∈ c.imports, m.Knows a) : settled hs m = m := by
  have himports : m.addImports (m.instructions.flatMap (importsOf m.resolver hs)) = m := by
    apply Module.addImports_eq_self
    intro a ha
    obtain ⟨i, hi, ha⟩ := List.mem_flatMap.mp ha
    cases hc : claimOf? m.resolver hs i with
    | none => simp [importsOf, hc] at ha
    | some c =>
        have hmem : a ∈ c.imports := by simpa [importsOf, hc] using ha
        exact (h i hi c hc).2 a hmem
  rw [settled, himports]
  refine Module.mapInstructions_eq_self fun i hi => ?_
  cases hc : claimOf? m.resolver hs i with
  | none => exact settle_of_unclaimed hc
  | some c => rw [settle_of_claim hc, (h i hi c hc).1]

/-- A run whose claims change nothing leaves the module as it is. -/
theorem settled_eq_self
    (h : ∀ i ∈ m.instructions, ∀ c, claimOf? m.resolver hs i = some c → c.instruction = i ∧ c.imports = []) :
    settled hs m = m := by
  apply settled_eq_self_of_known
  intro i hi c hc
  obtain ⟨hinstruction, himports⟩ := h i hi c hc
  refine ⟨hinstruction, ?_⟩
  rw [himports]
  simp

/-- A run that repairs nothing changes nothing. -/
theorem settled_eq_self_of_repaired (h : Category.repaired ∉ (reportOn hs m).categories) : settled hs m = m := by
  refine settled_eq_self fun i hi c hc => ?_
  obtain ⟨g, -, hoffer⟩ := exists_mem_of_claimOf? hc
  cases hg : g.isMutating with
  | false => exact Handler.claim_of_not_mutating hg hoffer
  | true =>
      cases g with
      | rule rule =>
          obtain ⟨rep, -, rfl⟩ := Handler.rule_offer_eq_claimed.mp hoffer
          exact absurd (mem_categories_reportOn.mpr ⟨i, hi, _, hc, rfl⟩) h
      | finder f => cases hg
      | observer o => cases hg

end

/-! ## Reports -/

/-- A report lists no category if and only if the tallies are empty. -/
theorem Run.categories_report_eq_nil_iff (run : Run) :
    run.report.categories = [] ↔ ∀ t ∈ run.tallies, t.claims = [] := by
  constructor
  · intro hcategories t ht
    refine List.eq_nil_iff_forall_not_mem.mpr fun claim hclaim => ?_
    have htally : claim.1 ∈ t.categories := Category.mem_inOrder.mpr (List.mem_map.mpr ⟨claim, hclaim, rfl⟩)
    have hmem : claim.1 ∈ run.report.categories := Category.mem_inOrder.mpr (List.mem_flatMap.mpr ⟨t, ht, htally⟩)
    rw [hcategories] at hmem
    cases hmem
  · intro h
    have hcategories : run.tallies.flatMap Tally.categories = [] :=
      List.flatMap_eq_nil_iff.mpr fun t ht => by rw [Tally.categories, h t ht]; rfl
    rw [Run.report, hcategories]
    rfl

/-- A report is empty if and only if the tallies are. -/
theorem Run.isEmpty_report_iff (run : Run) : run.report.isEmpty = true ↔ ∀ t ∈ run.tallies, t.claims = [] := by
  rw [Report.isEmpty, Bool.and_eq_true, List.isEmpty_iff, List.isEmpty_iff, run.categories_report_eq_nil_iff]
  refine and_iff_right_of_imp fun h => ?_
  have hphrases : run.tallies.flatMap Tally.phrases = [] :=
    List.flatMap_eq_nil_iff.mpr fun t ht => by rw [Tally.phrases, h t ht]; rfl
  rw [Run.report, hphrases]
  rfl

/-- A report is empty if and only if it lists no category. -/
theorem Run.isEmpty_report_iff_categories (run : Run) :
    run.report.isEmpty = true ↔ run.report.categories = [] := by
  rw [run.isEmpty_report_iff, run.categories_report_eq_nil_iff]

/-- **What a report accounts for.** Take any table and any run of it that reports. There is a tally for each handler, in
    the order of the table. The instructions visited are all those of the module, before the run and after it. Those
    claimed are as many as the tallies count together, and as many as there are instructions that some handler claims.
    The phrases are those of the tallies, in their order and each once; a category is listed if some tally has it. The
    report is empty exactly if nothing was claimed; then the module is what it was, and where the module is another
    one, the report lists a repair. -/
theorem report_accounts (r : Registry) (m : Module) {report : Report} (hr : (r.repair m).report = .ok report) :
    let left := (r.repair m).module
    let tallies := (Run.final r.handlers m).tallies
    tallies.map (·.handler) = r.handlers ∧
      (report.visited = m.instructionCount ∧ report.visited = left.instructionCount) ∧
      (report.claimed = (tallies.map Tally.count).sum ∧
        report.claimed = m.instructions.countP fun i => (claimOf? m.resolver r.handlers i).isSome) ∧
      report.phrases = (tallies.flatMap Tally.phrases).eraseDups ∧
      (∀ c, c ∈ report.categories ↔ ∃ t ∈ tallies, c ∈ t.categories) ∧
      (report.isEmpty = true ↔ report.claimed = 0) ∧
      (report.claimed = 0 → left = m) ∧
      (left ≠ m → Category.repaired ∈ report.categories) := by
  intro left tallies
  obtain ⟨hleft, hreport⟩ := repair_completed hr
  have hfinal : report = (Run.final r.handlers m).report := (repair_final r.handlers m).2.2 report hr
  have hleft : left = settled r.handlers m := hleft
  have hclaimed : report.claimed = (tallies.map Tally.count).sum := by
    rw [hfinal]
    exact Run.counted_final r.handlers m
  refine ⟨Run.handlers_final r.handlers m, ⟨?_, ?_⟩, ⟨hclaimed, ?_⟩, ?_, ?_, ?_, ?_, ?_⟩
  · rw [hreport]
    rfl
  · rw [hreport, hleft, Module.instructionCount, instructions_settled, List.length_map]
    rfl
  · rw [hreport]
    rfl
  · rw [hfinal, Run.report, distinct_eq_eraseDups]
  · intro c
    rw [hfinal, Run.report, Category.mem_inOrder, List.mem_flatMap]
  · rw [hclaimed, hfinal, Run.isEmpty_report_iff, List.sum_eq_zero_iff_forall_eq_nat, List.forall_mem_map]
    simp only [Tally.count, List.length_eq_zero_iff]
    exact Iff.rfl
  · intro hzero
    rw [hleft]
    refine settled_eq_self fun i hi c hc => ?_
    rw [hreport] at hzero
    have hnone := List.countP_eq_zero.mp hzero i hi
    rw [hc] at hnone
    exact absurd rfl hnone
  · intro hchanged
    by_cases hrepaired : Category.repaired ∈ report.categories
    · exact hrepaired
    · rw [hreport] at hrepaired
      exact absurd (hleft.trans (settled_eq_self_of_repaired hrepaired)) hchanged

/-- Two loads that are repaired, and between them a return: one probe fails on it, and one that follows claims it. -/
theorem report_accounts_sample :
    let failing : Registration := ⟨.always, ascii "failing", .probe ⟨.fail, ascii "ret", .repaired, ascii "failed"⟩⟩
    let claiming : Registration := ⟨.always, ascii "claiming", .probe ⟨.claim, ascii "ret", .consoleAccess, ascii "seen"⟩⟩
    let r := ((Registry.ofProfile .standard (Sample.profileOf [Sample.fieldMoved] [])).add failing).add claiming
    let m := Sample.moduleOf [Sample.loadF, ⟨.ret, .none⟩, Sample.loadF]
    ∃ report, (r.repair m).report = .ok report ∧ report.visited = 3 ∧
      ((Run.final r.handlers m).tallies.map Tally.count) = [2, 0, 0, 0, 0, 1] ∧ report.claimed = 3 ∧
        report.phrases.length = 2 ∧ Category.repaired ∈ report.categories := by
  intro failing claiming r m
  obtain ⟨report, hreport⟩ : ∃ report, (r.repair m).report = .ok report := ⟨_, rfl⟩
  obtain ⟨-, ⟨hvisited, -⟩, ⟨hclaimed, -⟩, hphrases, -, -, -, hrepaired⟩ := report_accounts r m hreport
  have hcounts : (Run.final r.handlers m).tallies.map Tally.count = [2, 0, 0, 0, 0, 1] := by decide
  refine ⟨report, hreport, hvisited, hcounts, ?_, ?_, hrepaired (by decide)⟩
  · rw [hclaimed, hcounts]
    rfl
  · rw [hphrases]
    decide

end ModRepair
