import ModRepair.Proofs.Metadata.Imports
import ModRepair.Proofs.Repair.Rejection

/-!
# Detection does not interfere with repair

Detectors and whatever is added to a table stand behind the rules and the two finders that check references. They
hear only what those have let pass, and change nothing. `detection_leaves_repair` compares the run of a table with
the run of the same table without them.

* `hear_append_claimed_iff` — **handlers behind others** take no claim away from them;
* `settled_append` — handlers that change nothing, put behind others, leave the module as it is left without them;
* `phrases_prefix`, `categories_append`, `claimed_le` — what they add to a report.
-/

namespace ModRepair

/-! ## Lists without repetitions -/

section

variable {α : Type} [DecidableEq α]

theorem distinct_append (l l' : List α) : distinct (l ++ l') = l'.foldl appendNew (distinct l) := by
  rw [distinct, List.foldl_append]
  rfl

/-- What follows in a list only adds to its distinct elements. -/
theorem distinct_prefix (l l' : List α) : distinct l <+: distinct (l ++ l') := by
  rw [distinct_append]
  exact prefix_foldl_appendNew (distinct l) l'

end

/-! ## Handlers behind others -/

section

variable {find : Resolver} {front back : List Handler} {i : Instruction} {m : Module}

/-- **Handlers behind others** take no claim away from them. -/
theorem hear_append_claimed_iff {k : Nat} {c : Claim} (hk : k < front.length) :
    (hear find i (front ++ back)).verdict = .claimed k c ↔ (hear find i front).verdict = .claimed k c := by
  induction front generalizing k with
  | nil => exact absurd hk (Nat.not_lt_zero k)
  | cons h front ih =>
      rw [List.cons_append]
      rcases (h.offer find i).passes_or with hp | ⟨d, hd⟩ | ⟨reason, ha⟩
      · rw [hear_cons_of_passes hp, hear_cons_of_passes hp, Verdict.shift_eq_claimed, Verdict.shift_eq_claimed]
        -- The claim, if there is one, is at the position before in the rest.
        refine exists_congr fun j => and_congr_left fun hj => ih ?_
        rw [List.length_cons] at hk
        omega
      · rw [hear_cons_of_claimed hd, hear_cons_of_claimed hd]
      · rw [hear_cons_of_aborted ha, hear_cons_of_aborted ha]

theorem recordOf?_append {k : Nat} (hk : k < front.length) :
    recordOf? find (front ++ back) k i = recordOf? find front k i := by
  apply Option.ext
  intro record
  simp only [recordOf?_eq_some, hear_append_claimed_iff hk]

/-- The tallies of handlers are the same with others behind them. -/
theorem talliesOn_prefix (find : Resolver) (front back : List Handler) (is : List Instruction) :
    talliesOn find front is <+: talliesOn find (front ++ back) is := by
  rw [talliesOn, talliesOn, List.mapIdx_append]
  have hsame : front.mapIdx (fun k h => Tally.mk h (is.filterMap (recordOf? find (front ++ back) k))) =
      front.mapIdx fun k h => ⟨h, is.filterMap (recordOf? find front k)⟩ := by
    apply List.ext_getElem
    · simp only [List.length_mapIdx]
    · intro k hk hk'
      have hlt : k < front.length := by simpa only [List.length_mapIdx] using hk
      have hrecords : recordOf? find (front ++ back) k = recordOf? find front k := funext fun i => recordOf?_append hlt
      simp only [List.getElem_mapIdx, hrecords]
  rw [hsame]
  exact List.prefix_append _ _

variable (hfront : ∀ h ∈ front, ¬ h.MayAbort)

include hfront

/-- What handlers claim they claim with others behind them. -/
theorem claimOf?_append_of_some {c : Claim} (hc : claimOf? find front i = some c) :
    claimOf? find (front ++ back) i = some c := by
  rw [claimOf?_append hfront, hc, Option.some_or]

theorem claimOf?_append_of_none (hc : claimOf? find front i = none) :
    claimOf? find (front ++ back) i = claimOf? find back i := by
  rw [claimOf?_append hfront, hc, Option.none_or]

/-- What others behind the handlers add to an instruction: nothing, if they change nothing. -/
theorem settle_append (hback : ∀ h ∈ back, h.isMutating = false) :
    settle find (front ++ back) i = settle find front i ∧
      importsOf find (front ++ back) i = importsOf find front i := by
  cases hf : claimOf? find front i with
  | some c =>
      have hall : claimOf? find (front ++ back) i = some c := claimOf?_append_of_some hfront hf
      exact ⟨by rw [settle, settle, hall, hf], by rw [importsOf, importsOf, hall, hf]⟩
  | none =>
      have hall : claimOf? find (front ++ back) i = claimOf? find back i := claimOf?_append_of_none hfront hf
      cases hb : claimOf? find back i with
      | none =>
          rw [hb] at hall
          exact ⟨by rw [settle, settle, hall, hf], by rw [importsOf, importsOf, hall, hf]⟩
      | some c =>
          obtain ⟨h, hh, hoffer⟩ := exists_mem_of_claimOf? hb
          obtain ⟨hsame, hnone⟩ := Handler.claim_of_not_mutating (hback h hh) hoffer
          rw [hb] at hall
          constructor
          · rw [settle_of_claim hall, settle_of_unclaimed hf, hsame]
          · rw [importsOf, importsOf, hall, hf, Option.map_some, Option.getD_some, hnone]
            rfl

/-- **Handlers that change nothing** leave the module as the others do without them. -/
theorem settled_append (hback : ∀ h ∈ back, h.isMutating = false) :
    settled (front ++ back) m = settled front m := by
  have hsettle : settle m.resolver (front ++ back) = settle m.resolver front :=
    funext fun i => (settle_append hfront hback).1
  have himports : importsOf m.resolver (front ++ back) = importsOf m.resolver front :=
    funext fun i => (settle_append hfront hback).2
  rw [settled, settled, hsettle, himports]

/-! ## What they add to a report -/

omit hfront in
theorem phrases_prefix : (reportOn front m).phrases <+: (reportOn (front ++ back) m).phrases := by
  obtain ⟨rest, hrest⟩ := talliesOn_prefix m.resolver front back m.instructions
  simp only [reportOn]
  rw [← hrest, List.flatMap_append]
  exact distinct_prefix _ _

/-- The categories of handlers and of others behind them: those of the handlers, and some of the others. -/
theorem categories_append (back : List Handler) (m : Module) :
    (∀ category ∈ (reportOn front m).categories, category ∈ (reportOn (front ++ back) m).categories) ∧
      ∀ category ∈ (reportOn (front ++ back) m).categories, category ∉ (reportOn front m).categories →
        ∃ h ∈ back, h.Records category := by
  simp only [mem_categories_reportOn]
  constructor
  · rintro _ ⟨i, hi, c, hc, rfl⟩
    exact ⟨i, hi, c, claimOf?_append_of_some hfront hc, rfl⟩
  · rintro _ ⟨i, hi, c, hc, rfl⟩ hnew
    cases hf : claimOf? m.resolver front i with
    | some d =>
        rw [claimOf?_append_of_some hfront hf] at hc
        rw [← Option.some.inj hc] at hnew
        exact absurd ⟨i, hi, d, hf, rfl⟩ hnew
    | none =>
        rw [claimOf?_append_of_none hfront hf] at hc
        obtain ⟨h, hh, hoffer⟩ := exists_mem_of_claimOf? hc
        exact ⟨h, hh, Handler.records_of_claimed hoffer⟩

theorem claimed_le : (reportOn front m).claimed ≤ (reportOn (front ++ back) m).claimed := by
  apply List.countP_mono_left
  intro i _ hi
  obtain ⟨c, hc⟩ := Option.isSome_iff_exists.mp hi
  rw [claimOf?_append_of_some hfront hc]
  rfl

end

/-! ## Tables with and without detectors -/

/-- A profile whose tables of detectors are empty. -/
def Profile.withoutDetectors (p : Profile) : Profile :=
  { p with detectors := [], paranoidDetectors := [] }

namespace Registry

theorem detectors_withoutDetectors (options : RepairOptions) (p : Profile) :
    detectors options p.withoutDetectors = [] := by
  rw [detectors, Profile.withoutDetectors, gated]
  split <;> rfl

/-- **Detectors and additions stand behind everything else.** -/
theorem handlers_eq_withoutDetectors (options : RepairOptions) (p : Profile) (added : List Registration) :
    ((ofProfile options p).extend added).handlers =
      (ofProfile options p.withoutDetectors).handlers ++ (detectors options p ++ additions options added) := by
  rw [handlers_ofProfile_extend, handlers_ofProfile, detectors_withoutDetectors, List.append_assoc]
  rfl

end Registry

/-- **Detection does not interfere with repair.** Take any profile, options and module, and add any handlers that change
    nothing and do not abort. The run of this table and the run of the table without detectors and additions both
    report. They leave the same module, tables included, and visit equally many instructions; the phrases of the
    smaller run are the first phrases of the other, its categories are among those of the other, any further category
    is that of an enabled detector or is recorded by an enabled addition, and it claims no more instructions. -/
theorem detection_leaves_repair (options : RepairOptions) (p : Profile) (added : List Registration)
    (hadded : ∀ e ∈ added, e.handler.isMutating = false ∧ ¬ e.handler.MayAbort) (m : Module) :
    let full := (Registry.ofProfile options p).extend added
    let bare := Registry.ofProfile options p.withoutDetectors
    ∃ more less, (full.repair m).report = .ok more ∧ (bare.repair m).report = .ok less ∧
      (full.repair m).module = (bare.repair m).module ∧ more.visited = less.visited ∧
        less.phrases <+: more.phrases ∧ (∀ category ∈ less.categories, category ∈ more.categories) ∧
          (∀ category ∈ more.categories, category ∉ less.categories →
            (∃ d ∈ p.detectors, d.category = category) ∨
              (options.paranoid ∧ ∃ d ∈ p.paranoidDetectors, d.category = category) ∨
                ∃ e ∈ added, e.gate.isOpen options ∧ e.handler.Records category) ∧
            less.claimed ≤ more.claimed := by
  intro full bare
  let back := Registry.detectors options p ++ Registry.additions options added
  have hhandlers : full.handlers = bare.handlers ++ back := Registry.handlers_eq_withoutDetectors options p added
  have hfront : ∀ h ∈ bare.handlers, ¬ h.MayAbort := Registry.not_mayAbort_ofProfile options p.withoutDetectors
  have hback : ∀ h ∈ back, h.isMutating = false ∧ ¬ h.MayAbort := by
    intro h hh
    rcases List.mem_append.mp hh with hh | hh
    · obtain ⟨d, -, rfl⟩ := Registry.mem_detectors hh
      exact ⟨rfl, Handler.not_mayAbort_finder d.finder⟩
    · obtain ⟨e, he, -, rfl⟩ := Registry.mem_additions hh
      exact hadded e he
  have hfull : ∀ h ∈ full.handlers, ¬ h.MayAbort := by
    intro h hh
    rw [hhandlers] at hh
    exact (List.mem_append.mp hh).elim (hfront h) fun hh => (hback h hh).2
  obtain ⟨hmodule, hreport⟩ := repair_reports hfull m
  obtain ⟨hmodule', hreport'⟩ := repair_reports hfront m
  rw [hhandlers] at hmodule hreport
  have hmore : (full.repair m).report = .ok (reportOn (bare.handlers ++ back) m) := by
    rw [Registry.repair, hhandlers]
    exact hreport
  have hsame : (full.repair m).module = (bare.repair m).module := by
    rw [Registry.repair, Registry.repair, hhandlers, hmodule, hmodule']
    exact settled_append hfront fun h hh => (hback h hh).1
  have hcategories := categories_append hfront back m
  refine ⟨reportOn (bare.handlers ++ back) m, reportOn bare.handlers m, hmore, hreport', hsame, rfl, phrases_prefix,
    hcategories.1, ?_, claimed_le hfront⟩
  intro category hin hnew
  obtain ⟨h, hh, hrecords⟩ := hcategories.2 category hin hnew
  rcases List.mem_append.mp hh with hh | hh
  · obtain ⟨d, hd | ⟨hopen, hd⟩, rfl⟩ := Registry.mem_detectors hh
    · exact .inl ⟨d, hd, (Detector.records_handler hrecords).symm⟩
    · exact .inr (.inl ⟨hopen, d, hd, (Detector.records_handler hrecords).symm⟩)
  · obtain ⟨e, he, hopen, rfl⟩ := Registry.mem_additions hh
    exact .inr (.inr ⟨e, he, hopen, hrecords⟩)

/-- A load is repaired with and without the detector and the handler that is added; the call of the getter and the
    instruction behind it are claimed only where those are enabled. -/
theorem detection_leaves_repair_sample :
    let profile := Sample.profileOf [Sample.fieldMoved] [⟨.type, ascii "B", [], .consoleAccess⟩]
    let added : List Registration := [⟨.always, [], .probe ⟨.claim, [], .dynamic, []⟩⟩]
    let full := (Registry.ofProfile .standard profile).extend added
    let bare := Registry.ofProfile .standard profile.withoutDetectors
    let m := Sample.moduleOf [Sample.loadF, Sample.callGetP, ⟨.nop, .none⟩]
    (∀ e ∈ added, e.handler.isMutating = false ∧ ¬ e.handler.MayAbort) ∧
      (full.repair m).module = (bare.repair m).module ∧
      ∃ more less, (full.repair m).report = .ok more ∧ (bare.repair m).report = .ok less ∧
        less.phrases <+: more.phrases ∧ more.claimed = 3 ∧ less.claimed = 1 := by
  intro profile added full bare m
  have hadded : ∀ e ∈ added, e.handler.isMutating = false ∧ ¬ e.handler.MayAbort := by
    intro e he
    rw [List.mem_singleton.mp he]
    exact ⟨rfl, Handler.not_mayAbort_probe (by decide)⟩
  obtain ⟨more, less, hmore, hless, hmodule, -, hphrases, -⟩ :=
    detection_leaves_repair .standard profile added hadded m
  have hthree : (full.repair m).report.toOption.map (·.claimed) = some 3 := by decide
  have hone : (bare.repair m).report.toOption.map (·.claimed) = some 1 := by decide
  rw [hmore] at hthree
  rw [hless] at hone
  exact ⟨hadded, hmodule, more, less, hmore, hless, hphrases, Option.some.inj hthree, Option.some.inj hone⟩

end ModRepair
