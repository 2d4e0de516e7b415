import ModRepair.Proofs.Repair.Accounting
import ModRepair.Proofs.Repair.Contract
import ModRepair.Proofs.Repair.Rejection
import ModRepair.Proofs.Repair.Stability

/-!
# The fixed point of the heuristic

With no tables to look in, the heuristic is the only rule of a profile. It looks at loads and stores of fields and
answers with calls, so it has nothing to say to its own answers, nor to what it has let pass before. A second run then
finds nothing to change.

* `heuristic_declines_settle` — **the step lemma**: the heuristic declines what the first run leaves of an instruction;
* `settled_settled` — a second run leaves the module as it is;
* `categories_second` — without detectors, what the second run reports;
* `heuristic_fixed_point` — both together, for the table of a profile and whatever is added that changes nothing;
* `added_renames_alternate` — two rules, added to a table, that undo each other in run after run.
-/

namespace ModRepair

section

variable {find : Resolver} {scopes : List Bytes} {back : List Handler} {i : Instruction}

/-! ## One instruction -/

/-- The heuristic has nothing to say to an instruction that refers to no field. -/
theorem heuristic_declines_of_no_field (hi : i.field? = none) :
    (Handler.rule (.heuristic scopes)).offer find i = .declined := by
  have hnone : (Rule.heuristic scopes).replacement? find i = none := by
    show Rule.heuristicReplacement scopes find i = none
    unfold Rule.heuristicReplacement
    rw [hi]
    rfl
  rw [Handler.offer, hnone]
  rfl

/-- What the heuristic puts in the place of an instruction is a call. -/
theorem operand_of_heuristic {c : Claim} (hc : (Handler.rule (.heuristic scopes)).offer find i = .claimed c) :
    ∃ r, c.instruction = ⟨.call, .method r⟩ := by
  obtain ⟨rep, hrep, rfl⟩ := Handler.rule_offer_eq_claimed.mp hc
  obtain ⟨r, kind, s, -, -, -, -, -, rfl⟩ := Rule.heuristic_iff.mp hrep
  exact ⟨s.refOn r.declaringType, rfl⟩

/-- With handlers behind it that change nothing, the heuristic claims an instruction, or it declines and the
    instruction stays. -/
theorem settle_heuristic_cases (hback : ∀ h ∈ back, h.isMutating = false) (i : Instruction) :
    (∃ c, (Handler.rule (.heuristic scopes)).offer find i = .claimed c ∧
        claimOf? find (.rule (.heuristic scopes) :: back) i = some c) ∨
      (Handler.rule (.heuristic scopes)).offer find i = .declined ∧
        settle find (.rule (.heuristic scopes) :: back) i = i := by
  have hfirst : claimOf? find (.rule (.heuristic scopes) :: back) i =
      ((Handler.rule (.heuristic scopes)).offer find i).claim?.or (claimOf? find back i) :=
    claimOf?_cons (Handler.not_mayAbort_rule _)
  rcases (Handler.rule (.heuristic scopes)).declined_or_claimed rfl find i with hdeclined | ⟨c, hc⟩
  · right
    rw [hdeclined] at hfirst
    refine ⟨hdeclined, ?_⟩
    cases hd : claimOf? find back i with
    | none =>
        rw [hd] at hfirst
        exact settle_of_unclaimed hfirst
    | some d =>
        rw [hd] at hfirst
        obtain ⟨h, hh, hoffer⟩ := exists_mem_of_claimOf? hd
        rw [settle_of_claim hfirst]
        exact (Handler.claim_of_not_mutating (hback h hh) hoffer).1
  · left
    rw [hc] at hfirst
    exact ⟨c, hc, hfirst⟩

/-- **The step lemma.** The heuristic declines what is left of an instruction: a call that it has put there, or what it
    has declined before. -/
theorem heuristic_declines_settle (hback : ∀ h ∈ back, h.isMutating = false) (i : Instruction) :
    (Handler.rule (.heuristic scopes)).offer find (settle find (.rule (.heuristic scopes) :: back) i) = .declined := by
  rcases settle_heuristic_cases hback i with ⟨c, hc, hclaim⟩ | ⟨hdeclined, hsame⟩
  · obtain ⟨r, hcall⟩ := operand_of_heuristic hc
    rw [settle_of_claim hclaim, hcall]
    exact heuristic_declines_of_no_field rfl
  · rw [hsame]
    exact hdeclined

/-- What is left of an instruction is claimed by a handler behind the heuristic, if at all. -/
theorem exists_mem_of_claimOf?_settle (hback : ∀ h ∈ back, h.isMutating = false) {d : Claim}
    (hd : claimOf? find (.rule (.heuristic scopes) :: back)
      (settle find (.rule (.heuristic scopes) :: back) i) = some d) :
    ∃ h ∈ back, h.offer find (settle find (.rule (.heuristic scopes) :: back) i) = .claimed d := by
  obtain ⟨h, hh, hoffer⟩ := exists_mem_of_claimOf? hd
  rcases List.mem_cons.mp hh with rfl | hh
  · rw [heuristic_declines_settle hback] at hoffer
    cases hoffer
  · exact ⟨h, hh, hoffer⟩

end

/-! ## Two runs -/

/-- **A second run** leaves the module as the first has left it. -/
theorem settled_settled {scopes : List Bytes} {back : List Handler} (hback : ∀ h ∈ back, h.isMutating = false)
    (m : Module) :
    settled (.rule (.heuristic scopes) :: back) (settled (.rule (.heuristic scopes) :: back) m) =
      settled (.rule (.heuristic scopes) :: back) m := by
  refine settled_eq_self fun j hj d hd => ?_
  rw [instructions_settled] at hj
  obtain ⟨i, -, rfl⟩ := List.mem_map.mp hj
  rw [resolver_settled] at hd
  obtain ⟨h, hh, hoffer⟩ := exists_mem_of_claimOf?_settle hback hd
  exact Handler.claim_of_not_mutating (hback h hh) hoffer

/-- A choice among the categories of a list, in the order of reports. -/
theorem Category.inOrder_eq_filter {cs ds : List Category} {p : Category → Bool}
    (h : ∀ c, c ∈ ds ↔ c ∈ cs ∧ p c = true) : inOrder ds = (inOrder cs).filter p := by
  rw [inOrder, inOrder, List.filter_filter]
  refine List.filter_congr fun c _ => ?_
  rw [Bool.eq_iff_iff, Bool.and_eq_true, List.contains_iff_mem, List.contains_iff_mem, h c]
  exact and_comm

section

variable {find : Resolver} {scopes : List Bytes} {i : Instruction}

/-- The heuristic and the two finders that check references. -/
def checkers (scopes : List Bytes) : List Handler :=
  [.rule (.heuristic scopes), .finder (.missingMember scopes), .finder (.unexpectedType scopes)]

theorem checkers_back (scopes : List Bytes) :
    ∀ h ∈ [Handler.finder (.missingMember scopes), .finder (.unexpectedType scopes)],
      h.isMutating = false ∧ ¬ h.Records .repaired := by
  intro h hh
  simp only [List.mem_cons, List.not_mem_nil, or_false] at hh
  rcases hh with rfl | rfl
  · exact ⟨rfl, fun hrecords => nomatch Handler.records_finder hrecords⟩
  · exact ⟨rfl, fun hrecords => nomatch Handler.records_finder hrecords⟩

/-- Nobody claims what the heuristic has put in the place of an instruction. -/
theorem claimOf?_of_heuristic {c : Claim} (hc : (Handler.rule (.heuristic scopes)).offer find i = .claimed c) :
    claimOf? find (checkers scopes) c.instruction = none := by
  obtain ⟨-, hclean⟩ := not_flagged_of_rule scopes rfl rfl hc
  obtain ⟨hmissing, hunexpected⟩ := not_flagged_iff.mp hclean
  obtain ⟨r, hcall⟩ := operand_of_heuristic hc
  have hdeclined : (Handler.rule (.heuristic scopes)).offer find c.instruction = .declined := by
    rw [hcall]
    exact heuristic_declines_of_no_field rfl
  have hpassed : ∀ h ∈ checkers scopes, (h.offer find c.instruction).passes := by
    intro h hh
    simp only [checkers, List.mem_cons, List.not_mem_nil, or_false] at hh
    rcases hh with rfl | rfl | rfl
    · rw [hdeclined]
      rfl
    · exact Handler.finder_offer_passes.mpr hmissing
    · exact Handler.finder_offer_passes.mpr hunexpected
  rw [claimOf?, hear_unclaimed_iff.mpr hpassed]
  rfl

/-- Claims on what is left of an instruction: those on the instruction, unless they are the heuristic's. -/
theorem claimOf?_settle_checkers {d : Claim} :
    claimOf? find (checkers scopes) (settle find (checkers scopes) i) = some d ↔
      claimOf? find (checkers scopes) i = some d ∧ d.category ≠ .repaired := by
  have hback := checkers_back scopes
  have hmutating := fun h hh => (hback h hh).1
  constructor
  · intro hd
    obtain ⟨h, hh, hoffer⟩ := exists_mem_of_claimOf?_settle hmutating hd
    have hcategory : d.category ≠ .repaired := by
      intro hrepaired
      exact (hback h hh).2 (hrepaired ▸ Handler.records_of_claimed hoffer)
    rcases settle_heuristic_cases hmutating i with ⟨c, hc, hclaim⟩ | ⟨-, hsame⟩
    · have hleft : settle find (checkers scopes) i = c.instruction := settle_of_claim hclaim
      rw [hleft, claimOf?_of_heuristic hc] at hd
      cases hd
    · have hleft : settle find (checkers scopes) i = i := hsame
      rw [hleft] at hd
      exact ⟨hd, hcategory⟩
  · rintro ⟨hd, hcategory⟩
    rcases settle_heuristic_cases hmutating i with ⟨c, hc, hclaim⟩ | ⟨-, hsame⟩
    · have heq : some d = some c := hd.symm.trans hclaim
      rw [Option.some.inj heq] at hcategory
      exact absurd (Handler.records_rule (Handler.records_of_claimed hc)) hcategory
    · have hleft : settle find (checkers scopes) i = i := hsame
      rw [hleft]
      exact hd

end

/-- **What a second run reports**: the categories of the first, without the repairs. -/
theorem categories_second (scopes : List Bytes) (m : Module) :
    (reportOn (checkers scopes) (settled (checkers scopes) m)).categories =
      (reportOn (checkers scopes) m).categories.filter (· ≠ .repaired) := by
  have hsame : ∀ category, category ∈ (reportOn (checkers scopes) (settled (checkers scopes) m)).categories ↔
      category ∈ (reportOn (checkers scopes) m).categories ∧ decide (category ≠ .repaired) = true := by
    intro category
    rw [mem_categories_second, mem_categories_reportOn, decide_eq_true_iff]
    simp only [claimOf?_settle_checkers]
    constructor
    · rintro ⟨i, hi, d, ⟨hd, hcategory⟩, rfl⟩
      exact ⟨⟨i, hi, d, hd, rfl⟩, hcategory⟩
    · rintro ⟨⟨i, hi, d, hd, rfl⟩, hcategory⟩
      exact ⟨i, hi, d, ⟨hd, hcategory⟩, rfl⟩
  simp only [reportOn, Category.mem_inOrder] at hsame
  exact Category.inOrder_eq_filter hsame

/-! ## Runs of a table -/

/-- Without relocations and shims the heuristic is the only rule. -/
theorem Registry.rules_of_no_tables {options : RepairOptions} {p : Profile} (hshims : p.platformShims = [])
    (hrelocations : p.relocations = []) (hpatches : p.patchEngineShims = []) :
    rules options p = [.rule (.heuristic p.watchedScopes)] := by
  have hgated : ∀ gate, gated options gate [] = [] := by
    intro gate
    unfold gated
    split
    · rfl
    · rfl
  simp only [rules, hshims, hrelocations, hpatches, List.map_nil, hgated, List.nil_append]

/-- **The heuristic reaches a fixed point in one run.** Take a profile without relocations and shims, any options,
    any scopes and detectors, and whatever is added that changes nothing and does not abort. Both runs over a module
    report, and the second leaves the module, its tables included, as the first has left it. If no detector and no
    added handler is enabled, the second report lists the categories of the first without the repairs, so it is empty
    if there was nothing but repairs. -/
theorem heuristic_fixed_point (options : RepairOptions) (p : Profile) (added : List Registration)
    (hshims : p.platformShims = []) (hrelocations : p.relocations = []) (hpatches : p.patchEngineShims = [])
    (hadded : ∀ e ∈ added, e.handler.isMutating = false ∧ ¬ e.handler.MayAbort) (m : Module) :
    let r := (Registry.ofProfile options p).extend added
    let left := (r.repair m).module
    ∃ first second, (r.repair m).report = .ok first ∧ (r.repair left).report = .ok second ∧
      (r.repair left).module = left ∧
        (Registry.detectors options p = [] → Registry.additions options added = [] →
          second.categories = first.categories.filter (· ≠ .repaired) ∧
            ((∀ category ∈ first.categories, category = .repaired) → second.isEmpty = true)) := by
  intro r left
  let scopes := p.watchedScopes
  let back := .finder (.missingMember scopes) :: .finder (.unexpectedType scopes) ::
    (Registry.detectors options p ++ Registry.additions options added)
  have hhandlers : r.handlers = .rule (.heuristic scopes) :: back := by
    show ((Registry.ofProfile options p).extend added).handlers = _
    rw [Registry.handlers_ofProfile_extend, Registry.rules_of_no_tables hshims hrelocations hpatches]
    rfl
  have hback : ∀ h ∈ back, h.isMutating = false ∧ ¬ h.MayAbort := by
    intro h hh
    simp only [back, List.mem_cons, List.mem_append] at hh
    rcases hh with rfl | rfl | hh | hh
    · exact ⟨rfl, Handler.not_mayAbort_finder _⟩
    · exact ⟨rfl, Handler.not_mayAbort_finder _⟩
    · obtain ⟨d, -, rfl⟩ := Registry.mem_detectors hh
      exact ⟨rfl, Handler.not_mayAbort_finder d.finder⟩
    · obtain ⟨e, he, -, rfl⟩ := Registry.mem_additions hh
      exact hadded e he
  have hcomplete : ∀ h ∈ r.handlers, ¬ h.MayAbort := by
    rw [hhandlers, List.forall_mem_cons]
    exact ⟨Handler.not_mayAbort_rule _, fun h hh => (hback h hh).2⟩
  obtain ⟨hleft, hfirst⟩ := repair_reports hcomplete m
  obtain ⟨hagain, hsecond⟩ := repair_reports hcomplete left
  have hleft : left = settled r.handlers m := hleft
  refine ⟨reportOn r.handlers m, reportOn r.handlers left, hfirst, hsecond, ?_, ?_⟩
  · show (repair r.handlers left).module = left
    rw [hagain, hleft, hhandlers]
    exact settled_settled (fun h hh => (hback h hh).1) m
  · intro hdetectors hadditions
    have hcheckers : r.handlers = checkers scopes := by
      rw [hhandlers]
      simp only [back, hdetectors, hadditions, List.append_nil]
      rfl
    have hcategories : (reportOn r.handlers left).categories =
        (reportOn r.handlers m).categories.filter (· ≠ .repaired) := by
      rw [hleft, hcheckers]
      exact categories_second scopes m
    refine ⟨hcategories, fun hrepairs => ?_⟩
    have hreport : reportOn r.handlers left = (Run.final r.handlers left).report :=
      (repair_final r.handlers left).2.2 _ hsecond
    rw [hreport, Run.isEmpty_report_iff_categories, ← hreport, hcategories, List.filter_eq_nil_iff]
    intro category hcategory
    simp [hrepairs category hcategory]

/-- A load of a field that has become a property is repaired at once, and the second report is empty. -/
theorem heuristic_fixed_point_sample :
    let r := (Registry.ofProfile .standard (Sample.profileOf [] [])).extend []
    let lost : Instruction := ⟨.ldsfld, .field ⟨Sample.typeB, ascii "p", Sample.int32⟩⟩
    let left := (r.repair (Sample.moduleOf [lost])).module
    left.instructions = [Sample.callGetP] ∧ (r.repair left).module = left ∧
      ∃ second, (r.repair left).report = .ok second ∧ second.isEmpty = true := by
  intro r lost left
  obtain ⟨first, second, hfirst, hsecond, hmodule, hreports⟩ :=
    heuristic_fixed_point .standard (Sample.profileOf [] []) [] rfl rfl rfl (by simp) (Sample.moduleOf [lost])
  have hrepairs : (r.repair (Sample.moduleOf [lost])).report.toOption.map (·.categories) = some [.repaired] := by
    decide
  have hfirst : (r.repair (Sample.moduleOf [lost])).report = .ok first := hfirst
  rw [hfirst] at hrepairs
  have hcategories : first.categories = [.repaired] := Option.some.inj hrepairs
  refine ⟨by decide, hmodule, second, hsecond, (hreports rfl rfl).2 ?_⟩
  rw [hcategories]
  simp

namespace Sample

/-- A module whose host has two static fields `x` and `y` on one type, with the given body. -/
def twoFieldsModule (body : List Instruction) : Module :=
  let field (name : Bytes) : FieldDecl := ⟨name, int32, true, false⟩
  let type : TypeDecl := ⟨ascii "A", [field (ascii "x"), field (ascii "y")], [], [], []⟩
  { moduleOf body with host := some ⟨[⟨ascii "Host", [type]⟩]⟩ }

/-- A load of a static field of `A`. -/
def loadOfA (name : Bytes) : Instruction :=
  ⟨.ldsfld, .field ⟨typeA, name, int32⟩⟩

end Sample

/-- **Two added rules undo each other.** They rename the field `x` to `y` and `y` to `x`, they do not abort, and the
    profile is empty. The first run turns the load of `x` into one of `y`, and the second turns it back. -/
theorem added_renames_alternate :
    let rename (old new : Bytes) : Registration := ⟨.always, [], .rule (.fieldRename Sample.typeA old new)⟩
    let added := [rename (ascii "x") (ascii "y"), rename (ascii "y") (ascii "x")]
    let p := Sample.profileOf [] []
    let r := (Registry.ofProfile .standard p).extend added
    let left := (r.repair (Sample.twoFieldsModule [Sample.loadOfA (ascii "x")])).module
    (p.platformShims = [] ∧ p.relocations = [] ∧ p.patchEngineShims = []) ∧
      (∀ e ∈ added, ¬ e.handler.MayAbort) ∧ left.instructions = [Sample.loadOfA (ascii "y")] ∧
      (r.repair left).module.instructions = [Sample.loadOfA (ascii "x")] := by
  intro rename added p r left
  refine ⟨by decide, ?_, by decide, by decide⟩
  rw [List.forall_mem_cons, List.forall_mem_singleton]
  exact ⟨Handler.not_mayAbort_rule _, Handler.not_mayAbort_rule _⟩

end ModRepair
