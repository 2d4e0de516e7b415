import ModRepair.Proofs.Repair.Completion
import ModRepair.Proofs.Repair.Table

/-!
# A second run

Running the same handlers over a module that they have already repaired. What a rule has claimed no later handler
has seen, so the second run may say more of a module than the first: `acceptance_not_stable` is a module that is
accepted first and then only with a warning. `worse_iff_rewritten_worse` says when this happens:

* `mem_categories_second` — what the second run reports it says of what `settle` has left;
* `worse_iff_rewritten_worse` — **the second run is worse** exactly if it claims, with a category worse than the first
  disposition, an instruction that a rule of the first run has put there.
-/

namespace ModRepair

section

variable {find : Resolver} {hs : List Handler} {i : Instruction} {m : Module}

/-- Only a rule puts another instruction in the place of one. -/
theorem exists_rule_of_changed {c : Claim} (hc : claimOf? find hs i = some c) (hchanged : c.instruction ≠ i) :
    ∃ rule, Handler.rule rule ∈ hs ∧ (Handler.rule rule).offer find i = .claimed c := by
  obtain ⟨h, hh, hoffer⟩ := exists_mem_of_claimOf? hc
  cases h with
  | rule rule => exact ⟨rule, hh, hoffer⟩
  | finder f => exact absurd (Handler.claim_of_not_mutating rfl hoffer).1 hchanged
  | observer o => exact absurd (Handler.claim_of_not_mutating rfl hoffer).1 hchanged

/-- **A second hearing.** What the handlers leave of an instruction they claim again as before, or it is what a rule
    has put there. -/
theorem claimOf?_settle {d : Claim} (hd : claimOf? find hs (settle find hs i) = some d) :
    claimOf? find hs i = some d ∨
      ∃ c, claimOf? find hs i = some c ∧ c.instruction ≠ i ∧ claimOf? find hs c.instruction = some d := by
  cases hc : claimOf? find hs i with
  | none =>
      rw [settle_of_unclaimed hc, hc] at hd
      cases hd
  | some c =>
      rw [settle_of_claim hc] at hd
      by_cases hchanged : c.instruction = i
      · rw [hchanged, hc] at hd
        exact .inl hd
      · exact .inr ⟨c, rfl, hchanged, hd⟩

/-- The second report lists the categories of claims on what the first run left. -/
theorem mem_categories_second {category : Category} :
    category ∈ (reportOn hs (settled hs m)).categories ↔
      ∃ i ∈ m.instructions, ∃ d, claimOf? m.resolver hs (settle m.resolver hs i) = some d ∧ d.category = category := by
  rw [mem_categories_reportOn, resolver_settled, instructions_settled]
  simp only [List.mem_map, exists_exists_and_eq_and]

/-- What a claim weighs the disposition weighs at least. -/
theorem rank_le_of_claim {c : Claim} (hi : i ∈ m.instructions) (hc : claimOf? m.resolver hs i = some c) :
    c.category.rank ≤ (reportOn hs m).disposition.rank := by
  have hcategory : c.category ∈ (reportOn hs m).categories := mem_categories_reportOn.mpr ⟨i, hi, c, hc, rfl⟩
  have hnot : ¬ (reportOn hs m).disposition.rank < c.category.rank := by
    intro hlt
    exact Nat.lt_irrefl _ (lt_rank_ofCategories.mpr ⟨c.category, hcategory, hlt⟩)
  omega

/-- **The second report** is worse than the first exactly if an instruction that was changed is claimed in its new
    form with a category worse than the first disposition. -/
theorem second_worse_iff :
    (reportOn hs m).disposition.rank < (reportOn hs (settled hs m)).disposition.rank ↔
      ∃ i ∈ m.instructions, ∃ c, claimOf? m.resolver hs i = some c ∧ c.instruction ≠ i ∧
        ∃ d, claimOf? m.resolver hs c.instruction = some d ∧
          (reportOn hs m).disposition.rank < d.category.rank := by
  rw [show (reportOn hs (settled hs m)).disposition = .ofCategories (reportOn hs (settled hs m)).categories from rfl,
    lt_rank_ofCategories]
  simp only [mem_categories_second]
  constructor
  · rintro ⟨_, ⟨i, hi, d, hd, rfl⟩, hworse⟩
    rcases claimOf?_settle hd with hsame | ⟨c, hc, hchanged, hd⟩
    · -- The first run has recorded this claim already.
      have hle := rank_le_of_claim hi hsame
      omega
    · exact ⟨i, hi, c, hc, hchanged, d, hd, hworse⟩
  · rintro ⟨i, hi, c, hc, -, d, hd, hworse⟩
    refine ⟨d.category, ⟨i, hi, d, ?_, rfl⟩, hworse⟩
    rw [settle_of_claim hc]
    exact hd

end

/-! ## Runs of a table -/

/-- **When a second run is worse.** Let no enabled handler abort. Then both runs report, and the second disposition is
    more severe than the first exactly if an instruction that a rule changed in the first run is claimed in its new
    form with a category more severe than the first disposition. Where no handler has claimed anything, the first run
    leaves the instruction as it is, and no enabled finder finds anything in it. -/
theorem worse_iff_rewritten_worse (r : Registry) (hr : ∀ h ∈ r.handlers, ¬ h.MayAbort) (m : Module) :
    ∃ first second,
      (r.repair m).report = .ok first ∧ (r.repair (r.repair m).module).report = .ok second ∧
        (first.disposition.rank < second.disposition.rank ↔
          ∃ i ∈ m.instructions, ∃ rule c d,
            Handler.rule rule ∈ r.handlers ∧ (Handler.rule rule).offer m.resolver i = .claimed c ∧
              claimOf? m.resolver r.handlers i = some c ∧ c.instruction ≠ i ∧
                claimOf? m.resolver r.handlers c.instruction = some d ∧
                  first.disposition.rank < d.category.rank) ∧
        ∀ q i, m.instructionAt? q = some i → claimOf? m.resolver r.handlers i = none →
          (r.repair m).module.instructionAt? q = some i ∧
            ∀ f, Handler.finder f ∈ r.handlers → f.finding? (r.repair m).module.resolver i = none := by
  obtain ⟨hleft, hfirst⟩ := repair_reports hr m
  obtain ⟨-, hsecond⟩ := repair_reports hr (settled r.handlers m)
  rw [show (r.repair m).module = settled r.handlers m from hleft]
  refine ⟨_, _, hfirst, hsecond, ?_, ?_⟩
  · rw [second_worse_iff]
    constructor
    · rintro ⟨i, hi, c, hc, hchanged, d, hd, hworse⟩
      obtain ⟨rule, hrule, hoffer⟩ := exists_rule_of_changed hc hchanged
      exact ⟨i, hi, rule, c, d, hrule, hoffer, hc, hchanged, hd, hworse⟩
    · rintro ⟨i, hi, rule, c, d, -, -, hc, hchanged, hd, hworse⟩
      exact ⟨i, hi, c, hc, hchanged, d, hd, hworse⟩
  · intro q i hat hnone
    have hverdict : (hear m.resolver i r.handlers).verdict = .unclaimed := by
      cases hv : (hear m.resolver i r.handlers).verdict with
      | unclaimed => rfl
      | claimed k c =>
          rw [claimOf?, hv] at hnone
          cases hnone
      | aborted reason => exact absurd hv (hear_ne_aborted hr reason)
    refine ⟨?_, ?_⟩
    · rw [instructionAt?_settled, hat, Option.map_some, settle_of_unclaimed hnone]
    · intro f hf
      rw [resolver_settled]
      exact Handler.finder_offer_passes.mp (hear_unclaimed_iff.mp hverdict _ hf)

/-- A repaired load is claimed again, for the type that it now mentions. -/
theorem worse_iff_rewritten_worse_sample :
    let r := Registry.ofProfile .standard
      (Sample.profileOf [Sample.fieldMoved] [⟨.type, ascii "B", [], .consoleAccess⟩])
    let m := Sample.moduleOf [Sample.loadF]
    ∃ i ∈ m.instructions, ∃ c, claimOf? m.resolver r.handlers i = some c ∧ c.instruction ≠ i := by
  intro r m
  obtain ⟨first, second, hfirst, hsecond, hiff, -⟩ := 
    worse_iff_rewritten_worse r (Registry.not_mayAbort_ofProfile _ _) m
  have haccepted : (r.repair m).report.toOption.map (·.disposition.rank) = some 0 := by decide
  have hwarned : (r.repair (r.repair m).module).report.toOption.map (·.disposition.rank) = some 1 := by decide
  have hworse : first.disposition.rank < second.disposition.rank := by
    rw [hfirst] at haccepted
    rw [hsecond] at hwarned
    have hzero : first.disposition.rank = 0 := Option.some.inj haccepted
    have hone : second.disposition.rank = 1 := Option.some.inj hwarned
    omega
  obtain ⟨i, hi, rule, c, d, -, -, hc, hchanged, -⟩ := hiff.mp hworse
  exact ⟨i, hi, c, hc, hchanged⟩

/-- **Acceptance is not stable.** A load is repaired and the module accepted; the call that has taken its place
    mentions a type that a detector looks for, so the second run warns. -/
theorem acceptance_not_stable :
    let r := Registry.ofProfile .standard
      (Sample.profileOf [Sample.fieldMoved] [⟨.type, ascii "B", [], .consoleAccess⟩])
    let first := r.repair (Sample.moduleOf [Sample.loadF])
    (∀ h ∈ r.handlers, ¬ h.MayAbort) ∧
      first.report.toOption.map (·.disposition) = some .accept ∧
        (r.repair first.module).report.toOption.map (·.disposition) = some .acceptWithWarning := by
  intro r first
  exact ⟨Registry.not_mayAbort_ofProfile _ _, by decide, by decide⟩

end ModRepair
