import ModRepair.Proofs.Repair.Completion
import ModRepair.Proofs.Repair.Restoration
import ModRepair.Proofs.Repair.Table

/-!
# What is rejected

The finders that check references never see an instruction that a rule has claimed. `reject_iff_flagged` says that
nothing is lost by this: as long as no rule moves types, a module is rejected exactly if one of the two finders would
flag an instruction of the module *as the run leaves it*. Rules that are added to the table must not move types either:
`accepted_though_flagged` is a run with one that does.

The argument is made for one instruction (`fatal_iff_flagged_settle`): rules come first and their answers are as
declared, so a fatal category is that of one of the two finders, which change nothing.
-/

namespace ModRepair

/-! ## Categories of handlers -/

/-- The category that a finder records. -/
def Finder.category : Finder → Category
  | .missingMember _ => .missingMember
  | .unexpectedType _ => .unexpectedType
  | .typeUse _ category => category
  | .fieldUse _ _ category => category
  | .eventUse _ _ category => category

theorem Finder.category_of_missingOn {find : Resolver} {t : TypeRef} {name : Bytes} {noun : String}
    {declares : Surface → Bool} {g : Finding} (h : missingOn find t name noun declares = some g) :
    g.category = .missingMember := by
  unfold missingOn at h
  split at h
  · cases h; rfl
  · split at h
    · cases h
    · cases h; rfl

theorem Finder.category_of_missing {scopes : List Bytes} {find : Resolver} {i : Instruction} {g : Finding}
    (h : missingFinding scopes find i = some g) : g.category = .missingMember := by
  unfold missingFinding at h
  split at h
  · cases h
  · split at h
    · split at h
      · cases h
      · split at h
        · cases h
        · cases h; rfl
      · exact category_of_missingOn h
      · exact category_of_missingOn h
      · exact category_of_missingOn h
    · cases h

theorem Finder.category_of_unexpected {scopes : List Bytes} {find : Resolver} {i : Instruction} {g : Finding}
    (h : unexpectedFinding scopes find i = some g) : g.category = .unexpectedType := by
  unfold unexpectedFinding at h
  split at h
  · split at h
    · obtain ⟨s, -, h⟩ := Option.bind_eq_some_iff.mp h
      obtain ⟨d, -, h⟩ := Option.bind_eq_some_iff.mp h
      split at h
      · cases h
      · cases h; rfl
    · cases h
  · split at h
    · obtain ⟨s, -, h⟩ := Option.bind_eq_some_iff.mp h
      unfold methodMismatch at h
      split at h
      · cases h
      · obtain ⟨d, -, rfl⟩ := Option.map_eq_some_iff.mp h
        rfl
    · cases h
  · cases h

/-- What a finder finds is of its category. -/
theorem Finder.category_of_finding {f : Finder} {find : Resolver} {i : Instruction} {g : Finding}
    (h : f.finding? find i = some g) : g.category = f.category := by
  cases f with
  | missingMember scopes => exact category_of_missing h
  | unexpectedType scopes => exact category_of_unexpected h
  | typeUse fullName category =>
      simp only [finding?, typeUseFinding] at h
      split at h
      · cases h; rfl
      · cases h
  | fieldUse typeName field category =>
      obtain ⟨r, -, rfl⟩ := Option.map_eq_some_iff.mp h
      rfl
  | eventUse typeName event category =>
      obtain ⟨r, -, rfl⟩ := Option.map_eq_some_iff.mp h
      rfl

/-- A finder records its category. -/
theorem Handler.records_finder {f : Finder} {category : Category} (h : (Handler.finder f).Records category) :
    category = f.category := by
  obtain ⟨find, i, c, hc, rfl⟩ := h
  obtain ⟨g, hg, rfl⟩ := finder_offer_eq_claimed.mp hc
  exact Finder.category_of_finding hg

/-! ## One instruction -/

section

variable {find : Resolver} {scopes : List Bytes} {front back : List Handler} {i : Instruction}

/-- The claims of rules that move no types are not fatal, and what they leave is not flagged. -/
theorem not_flagged_of_rule (scopes : List Bytes) {h : Handler} (hh : h.isMutating) (hmove : h.movesType = false)
    {c : Claim} (hc : h.offer find i = .claimed c) :
    c.category.severity ≠ .fatal ∧ ¬ flagged scopes find c.instruction := by
  refine ⟨?_, (Handler.asDeclared_of_claimed hh hmove hc).not_flagged scopes c.instruction.opcode⟩
  cases h with
  | rule r =>
      rw [Handler.records_rule (Handler.records_of_claimed hc)]
      decide
  | finder f => cases hh
  | observer o => cases hh

/-- Who is asked where the two finders stand behind others: those first, then the finders, then the rest. -/
theorem claimOf?_finders (hfront : ∀ h ∈ front, ¬ h.MayAbort) :
    claimOf? find (front ++ .finder (.missingMember scopes) :: .finder (.unexpectedType scopes) :: back) i =
      (claimOf? find front i).or
        ((((Finder.missingMember scopes).finding? find i).map (·.claim i)).or
          ((((Finder.unexpectedType scopes).finding? find i).map (·.claim i)).or (claimOf? find back i))) := by
  rw [claimOf?_append hfront, claimOf?_cons (Handler.not_mayAbort_finder _),
    claimOf?_cons (Handler.not_mayAbort_finder _)]
  simp only [Handler.offer, Offer.claim?_ofClaim?]

/-- What those in front let pass and one of the finders flags is claimed with a fatal category. -/
theorem fatal_of_flagged (hfront : ∀ h ∈ front, ¬ h.MayAbort)
    (hpasses : ∀ h ∈ front, (h.offer find i).passes) (hflagged : flagged scopes find i) :
    ∃ c, claimOf? find (front ++ .finder (.missingMember scopes) :: .finder (.unexpectedType scopes) :: back) i =
      some c ∧ c.category.severity = .fatal := by
  have hunclaimed : claimOf? find front i = none := by
    rw [claimOf?, hear_unclaimed_iff.mpr hpasses]
    rfl
  rw [claimOf?_finders hfront, hunclaimed, Option.none_or]
  -- The first finder comes first; if it has nothing to say, the second has.
  cases hmissing : (Finder.missingMember scopes).finding? find i with
  | some g =>
      refine ⟨g.claim i, rfl, ?_⟩
      show g.category.severity = .fatal
      rw [Finder.category_of_finding hmissing]
      rfl
  | none =>
      have hunexpected : ((Finder.unexpectedType scopes).finding? find i).isSome := by
        rcases hflagged with hflagged | hflagged
        · rw [hmissing] at hflagged
          cases hflagged
        · exact hflagged
      obtain ⟨g, hg⟩ := Option.isSome_iff_exists.mp hunexpected
      rw [hg]
      refine ⟨g.claim i, rfl, ?_⟩
      show g.category.severity = .fatal
      rw [Finder.category_of_finding hg]
      rfl

/-- What those in front let pass and no finder flags is left to those behind. -/
theorem claimOf?_of_not_flagged (hfront : ∀ h ∈ front, ¬ h.MayAbort)
    (hpasses : ∀ h ∈ front, (h.offer find i).passes) (hclear : ¬ flagged scopes find i) :
    claimOf? find (front ++ .finder (.missingMember scopes) :: .finder (.unexpectedType scopes) :: back) i =
      claimOf? find back i := by
  have hunclaimed : claimOf? find front i = none := by
    rw [claimOf?, hear_unclaimed_iff.mpr hpasses]
    rfl
  obtain ⟨hmissing, hunexpected⟩ := not_flagged_iff.mp hclear
  rw [claimOf?_finders hfront, hunclaimed, hmissing, hunexpected]
  rfl

/-- **Fatal means flagged.** Let rules stand first, let none of the rules move a type, and let nothing after the two
    finders be of a fatal category. Then an instruction is claimed with a fatal category exactly if what is left of
    it is flagged. -/
theorem fatal_iff_flagged_settle (hfront : ∀ h ∈ front, h.isMutating)
    (hmoves : ∀ h ∈ front ++ back, h.movesType = false) 
    (hback : ∀ h ∈ back, ∀ category, h.Records category → category.severity ≠ .fatal)
    {hs : List Handler}
    (hhs : hs = front ++ .finder (.missingMember scopes) :: .finder (.unexpectedType scopes) :: back) :
    (∃ c, claimOf? find hs i = some c ∧ c.category.severity = .fatal) ↔ flagged scopes find (settle find hs i) := by
  have hnoabort : ∀ h ∈ front, ¬ h.MayAbort := fun h hh => Handler.not_mayAbort_of_isMutating (hfront h hh)
  have hclaim : claimOf? find hs i = (claimOf? find front i).or
      ((((Finder.missingMember scopes).finding? find i).map (·.claim i)).or
        ((((Finder.unexpectedType scopes).finding? find i).map (·.claim i)).or (claimOf? find back i))) := by
    rw [hhs]
    exact claimOf?_finders hnoabort
  cases hf : claimOf? find front i with
  | some c =>
      -- A rule before the finders: its claim is not fatal, and its answer is as declared.
      rw [hf, Option.some_or] at hclaim
      obtain ⟨h, hh, hc⟩ := exists_mem_of_claimOf? hf
      obtain ⟨hcat, hclear⟩ := not_flagged_of_rule scopes (hfront h hh) (hmoves h (by simp [hh])) hc
      rw [settle_of_claim hclaim, hclaim]
      simp [hcat, hclear]
  | none =>
      rw [hf, Option.none_or] at hclaim
      cases hm : (Finder.missingMember scopes).finding? find i with
      | some g =>
          -- A finder claims what it flags, and leaves it as it is.
          rw [hm] at hclaim
          have hflagged : flagged scopes find i := .inl (by rw [hm]; rfl)
          have hcat : g.category.severity = .fatal := by rw [Finder.category_of_finding hm]; rfl
          rw [settle_of_claim hclaim]
          exact iff_of_true ⟨_, hclaim, hcat⟩ hflagged
      | none =>
          rw [hm, Option.map_none, Option.none_or] at hclaim
          cases hu : (Finder.unexpectedType scopes).finding? find i with
          | some g =>
              rw [hu] at hclaim
              have hflagged : flagged scopes find i := .inr (by rw [hu]; rfl)
              have hcat : g.category.severity = .fatal := by rw [Finder.category_of_finding hu]; rfl
              rw [settle_of_claim hclaim]
              exact iff_of_true ⟨_, hclaim, hcat⟩ hflagged
          | none =>
              rw [hu, Option.map_none, Option.none_or] at hclaim
              -- Neither finder has anything to say, so whoever claims comes later and is not fatal.
              have hclear : ¬ flagged scopes find i := not_flagged_iff.mpr ⟨hm, hu⟩
              cases hb : claimOf? find back i with
              | none =>
                  rw [hb] at hclaim
                  rw [settle_of_unclaimed hclaim, hclaim]
                  simp [hclear]
              | some c =>
                  rw [hb] at hclaim
                  obtain ⟨h, hh, hc⟩ := exists_mem_of_claimOf? hb
                  have hcat : c.category.severity ≠ .fatal :=
                    hback h hh c.category (Handler.records_of_claimed hc)
                  have hleft : ¬ flagged scopes find c.instruction := by
                    cases hmut : h.isMutating with
                    | true => exact (not_flagged_of_rule scopes hmut (hmoves h (by simp [hh])) hc).2
                    | false =>
                        rw [(Handler.claim_of_not_mutating hmut hc).1]
                        exact hclear
                  rw [settle_of_claim hclaim, hclaim]
                  simp [hcat, hleft]

end

/-! ## Whole modules -/

theorem Detector.category_finder (d : Detector) : d.finder.category = d.category := by
  obtain ⟨kind, typeName, member, category⟩ := d
  cases kind <;> rfl

/-- A detector records its category. -/
theorem Detector.records_handler {d : Detector} {category : Category} (h : d.handler.Records category) :
    category = d.category := by
  rw [← d.category_finder]
  exact Handler.records_finder h

/-- What comes after the two finders is not fatal and moves no types, if detectors are not fatal and what is added is
    neither. -/
theorem tame_of_mem_back (options : RepairOptions) {p : Profile} {added : List Registration}
    (hdetectors : ∀ d ∈ p.detectors ++ p.paranoidDetectors, d.category.severity ≠ .fatal)
    (hadded : ∀ e ∈ added,
      (∀ category, e.handler.Records category → category.severity ≠ .fatal) ∧ e.handler.movesType = false) :
    ∀ h ∈ Registry.detectors options p ++ Registry.additions options added,
      (∀ category, h.Records category → category.severity ≠ .fatal) ∧ h.movesType = false := by
  intro h hh
  rcases List.mem_append.mp hh with hh | hh
  · obtain ⟨d, hd, rfl⟩ := Registry.mem_detectors hh
    refine ⟨fun category hrecords => ?_, rfl⟩
    rw [Detector.records_handler hrecords]
    exact hdetectors d (List.mem_append.mpr (hd.imp id And.right))
  · obtain ⟨e, he, -, rfl⟩ := Registry.mem_additions hh
    exact hadded e he

/-- A report that is not of an aborted run rejects exactly if there is a claim of a fatal category. -/
theorem reject_iff_fatal_claim {hs : List Handler} {m : Module} :
    (reportOn hs m).disposition = .reject ↔
      ∃ i ∈ m.instructions, ∃ c, claimOf? m.resolver hs i = some c ∧ c.category.severity = .fatal := by
  rw [Report.disposition, ofCategories_eq_reject]
  simp only [mem_categories_reportOn]
  constructor
  · rintro ⟨_, ⟨i, hi, c, hc, rfl⟩, hfatal⟩
    exact ⟨i, hi, c, hc, hfatal⟩
  · rintro ⟨i, hi, c, hc, hfatal⟩
    exact ⟨c.category, ⟨i, hi, c, hc, rfl⟩, hfatal⟩

/-- **A module is rejected for an instruction that no rule claims** if one of the two finders flags it, whatever else
    there is in the module. -/
theorem rejected_of_flagged (options : RepairOptions) (p : Profile) {added : List Registration}
    (hadded : ∀ e ∈ added, ¬ e.handler.MayAbort) {m : Module} {i : Instruction} (hi : i ∈ m.instructions)
    (hrules : ∀ h ∈ Registry.rules options p, (h.offer m.resolver i).passes)
    (hflagged : flagged p.watchedScopes m.resolver i) :
    ∃ report, (((Registry.ofProfile options p).extend added).repair m).report = .ok report ∧
      report.disposition = .reject := by
  have hreport := (repair_reports (Registry.not_mayAbort_extend options p hadded) m).2
  have hclaimed : ∃ c, claimOf? m.resolver ((Registry.ofProfile options p).extend added).handlers i = some c ∧
      c.category.severity = .fatal := by
    rw [Registry.handlers_ofProfile_extend]
    exact fatal_of_flagged (fun h => Registry.not_mayAbort_of_mem_rules) hrules hflagged
  obtain ⟨c, hc, hfatal⟩ := hclaimed
  exact ⟨_, hreport, reject_iff_fatal_claim.mpr ⟨i, hi, c, hc, hfatal⟩⟩

/-- **Rejected means flagged.** Let no table of the profile move a type, and let neither detectors nor handlers that
    are added later be of a fatal category; none of those added moves a type either. Then a run that reports rejects
    a module exactly if one of the two finders flags an instruction of the module that the run leaves. Nor does it
    flag what a rule puts in the place of any instruction. -/
theorem reject_iff_flagged (options : RepairOptions) (p : Profile) (added : List Registration)
    (hmoves : ∀ e ∈ p.platformShims ++ p.relocations ++ p.patchEngineShims, e.kind ≠ .typeRelocation)
    (hdetectors : ∀ d ∈ p.detectors ++ p.paranoidDetectors, d.category.severity ≠ .fatal)
    (hadded : ∀ e ∈ added,
      (∀ category, e.handler.Records category → category.severity ≠ .fatal) ∧ e.handler.movesType = false)
    (m : Module) {r : Report}
    (hr : (((Registry.ofProfile options p).extend added).repair m).report = .ok r) :
    let handlers := ((Registry.ofProfile options p).extend added).handlers
    let left := (((Registry.ofProfile options p).extend added).repair m).module
    (r.disposition = .reject ↔ ∃ i ∈ left.instructions, flagged p.watchedScopes left.resolver i) ∧
      ∀ h ∈ handlers, h.isMutating → ∀ i c, h.offer m.resolver i = .claimed c →
        ¬ flagged p.watchedScopes left.resolver c.instruction := by
  intro handlers left
  have hhandlers : handlers = Registry.rules options p ++ .finder (.missingMember p.watchedScopes) ::
      .finder (.unexpectedType p.watchedScopes) ::
        (Registry.detectors options p ++ Registry.additions options added) :=
    Registry.handlers_ofProfile_extend options p added
  have hback := tame_of_mem_back options hdetectors hadded
  have hnomove : ∀ h ∈ Registry.rules options p ++
      (Registry.detectors options p ++ Registry.additions options added), h.movesType = false := by
    intro h hh
    rcases List.mem_append.mp hh with hh | hh
    · exact Registry.movesType_of_mem_rules hmoves hh
    · exact (hback h hh).2
  obtain ⟨hleft, hreport⟩ := repair_completed hr
  have hleft : left = settled handlers m := hleft
  have hresolver : left.resolver = m.resolver := by rw [hleft, resolver_settled]
  refine ⟨?_, ?_⟩
  · calc r.disposition = .reject
        ↔ ∃ i ∈ m.instructions, ∃ c, claimOf? m.resolver handlers i = some c ∧ c.category.severity = .fatal := by
          rw [hreport]
          exact reject_iff_fatal_claim
      _ ↔ ∃ i ∈ m.instructions, flagged p.watchedScopes m.resolver (settle m.resolver handlers i) := by
          simp only [fatal_iff_flagged_settle (fun h => Registry.isMutating_of_mem_rules) hnomove
            (fun h hh => (hback h hh).1) hhandlers]
      _ ↔ ∃ i ∈ left.instructions, flagged p.watchedScopes left.resolver i := by
          rw [hresolver, hleft, instructions_settled]
          simp only [List.mem_map, exists_exists_and_eq_and]
  · intro h hh hmut i c hc
    -- The two finders are no rules, so a rule stands before or after them.
    have hmove : h.movesType = false := by
      rw [hhandlers] at hh
      simp only [List.mem_append, List.mem_cons] at hh
      rcases hh with hh | rfl | rfl | hh
      · exact Registry.movesType_of_mem_rules hmoves hh
      · rfl
      · rfl
      · exact (hback h (List.mem_append.mpr hh)).2
    rw [hresolver]
    exact (not_flagged_of_rule _ hmut hmove hc).2

/-- The load is repaired, the call is not, and a handler that is added claims all that remains. -/
theorem reject_iff_flagged_sample :
    let added : List Registration := [⟨.always, [], .probe ⟨.claim, [], .dynamic, []⟩⟩]
    let registry := (Registry.ofProfile .standard (Sample.profileOf [Sample.fieldMoved] [])).extend added
    let m := Sample.moduleOf [Sample.loadF, Sample.callG]
    (∀ e ∈ added,
        (∀ category, e.handler.Records category → category.severity ≠ .fatal) ∧ e.handler.movesType = false) ∧
      ∃ r, (registry.repair m).report = .ok r ∧ r.disposition = .reject ∧
        ∃ i ∈ (registry.repair m).module.instructions,
          flagged [ascii "Host"] (registry.repair m).module.resolver i := by
  intro added registry m
  have hadded : ∀ e ∈ added,
      (∀ category, e.handler.Records category → category.severity ≠ .fatal) ∧ e.handler.movesType = false := by
    intro e he
    rw [List.mem_singleton.mp he]
    refine ⟨fun category hrecords => ?_, rfl⟩
    rw [Handler.records_probe hrecords]
    decide
  obtain ⟨r, hr⟩ : ∃ r, (registry.repair m).report = .ok r := ⟨_, rfl⟩
  have hiff := (reject_iff_flagged .standard (Sample.profileOf [Sample.fieldMoved] []) added (by decide) (by decide)
    hadded m hr).1
  have hreject : r.disposition = .reject := by
    have hdecided : (registry.repair m).report.toOption.map (·.disposition) = some .reject := by decide
    rw [hr] at hdecided
    exact Option.some.inj hdecided
  exact ⟨hadded, r, hr, hreject, hiff.mp hreject⟩

/-- **An added rule that moves a type breaks what the finders have let pass.** It is of no fatal category. The call of
    the getter resolves and is not flagged; the rule, which comes last, turns it into a call of a method that its new
    type does not have, and the module is accepted with that. -/
theorem accepted_though_flagged :
    let added : List Registration := [⟨.always, [], .rule (.typeMove (ascii "B") Sample.typeA)⟩]
    let p := Sample.profileOf [] []
    let outcome := ((Registry.ofProfile .standard p).extend added).repair (Sample.moduleOf [Sample.callGetP])
    (∀ e ∈ p.platformShims ++ p.relocations ++ p.patchEngineShims, e.kind ≠ .typeRelocation) ∧
      (∀ d ∈ p.detectors ++ p.paranoidDetectors, d.category.severity ≠ .fatal) ∧
      (∀ e ∈ added, ∀ category, e.handler.Records category → category.severity ≠ .fatal) ∧
      outcome.report.toOption.map (·.disposition) = some .accept ∧
      ∃ i ∈ outcome.module.instructions, flagged p.watchedScopes outcome.module.resolver i := by
  intro added p outcome
  refine ⟨by decide, by decide, ?_, by decide, ?_⟩
  · intro e he category hrecords
    rw [List.mem_singleton.mp he] at hrecords
    rw [Handler.records_rule hrecords]
    decide
  · have hleft : outcome.module.instructions =
        [⟨.call, .method { Sample.getP.refOn Sample.typeB with declaringType := Sample.typeA }⟩] := by decide
    rw [hleft]
    exact ⟨_, List.mem_singleton_self _, by unfold flagged; decide⟩

end ModRepair
