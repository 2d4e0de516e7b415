import ModRepair.Proofs.Repair.Handling
import ModRepair.Proofs.Repair.Table

/-!
# The contract of handlers

A rule or a finder that is handed an instruction either declines it, and then nothing shows that it was asked, or claims
it, and then its ledger has grown by that claim, the tables of the module may have grown, and nothing else has been
touched but the instruction; a finder has not even touched that. This is said of the steps of a handler, each of which
might enter, replace or record something at any point.

* `Bench.GrownBy` — a bench before and after a claim;
* `handler_contract` — **what is left** of the bench after the steps of a handler.
-/

namespace ModRepair

/-- Whether a handler comes from elsewhere. -/
def Handler.isObserver : Handler → Bool
  | .observer _ => true
  | _ => false

/-- Rules and finders decline or claim: they neither fail nor abort. -/
theorem Handler.declined_or_claimed {h : Handler} (hh : h.isObserver = false) (find : Resolver) (i : Instruction) :
    h.offer find i = .declined ∨ ∃ c, h.offer find i = .claimed c := by
  have hanswer : ∀ o : Option Claim, Offer.ofClaim? o = .declined ∨ ∃ c, Offer.ofClaim? o = .claimed c := by
    intro o
    cases o with
    | none => exact .inl rfl
    | some c => exact .inr ⟨c, rfl⟩
  cases h with
  | rule r => exact hanswer _
  | finder f => exact hanswer _
  | observer o => cases hh

/-! ## What a claim leaves behind -/

/-- A bench before and after a claim. The phrases are those of before, in their order, and that of the claim, none of
    them twice; the categories are those of before and that of the claim; of the module only the tables may differ, and
    these have what they had, at the same places. -/
structure Bench.GrownBy (c : Claim) (b b' : Bench) : Prop where
  instruction : b'.instruction = c.instruction
  count : b'.ledger.count = b.ledger.count + 1
  kept : b.ledger.phrases <+: b'.ledger.phrases
  phrases : ∀ phrase, phrase ∈ b'.ledger.phrases ↔ phrase ∈ b.ledger.phrases ∨ phrase = c.phrase
  once : b'.ledger.phrases.Nodup
  categories : ∀ category, category ∈ b'.ledger.categories ↔ category ∈ b.ledger.categories ∨ category = c.category
  module : b'.module = { b.module with imports := b'.module.imports }
  imports : b.module.imports.Extends b'.module.imports

/-- **A claim** makes a bench grow. -/
theorem Bench.grownBy_take (b : Bench) (c : Claim) : b.GrownBy c (b.take c) where
  instruction := rfl
  count := rfl
  kept := prefix_appendNew b.ledger.phrases c.phrase
  phrases _ := mem_appendNew
  once := (b.take c).ledger.once
  categories category := by
    rw [take, Ledger.record, Category.mem_inOrder, List.mem_cons, or_comm]
  module := b.module.addImports_eq c.imports
  imports := b.module.extends_addImports c.imports

/-- **The contract of handlers.** Let any instruction be handed to a rule or a finder, with any module and any ledger.
    Either its steps end without a claim, and then the instruction, the module with its tables, and the ledger are what
    they were. Or they end with one: then the ledger has grown by it, the tables of the module may have more entries
    behind those they had, and nothing else has changed but the instruction; a finder has changed neither the
    instruction nor the module. -/
theorem handler_contract (h : Handler) (hown : h.isObserver = false) (b : Bench) :
    h.handle.run b = .ok false b ∨
      ∃ b' c, h.handle.run b = .ok true b' ∧ h.offer b.module.resolver b.instruction = .claimed c ∧ b.GrownBy c b' ∧
        (h.isMutating = true → c.category = .repaired) ∧
        (h.isMutating = false → b'.instruction = b.instruction ∧ b'.module = b.module) := by
  rw [h.handle_run]
  rcases h.declined_or_claimed hown b.module.resolver b.instruction with hdeclined | ⟨c, hc⟩
  · left
    rw [hdeclined]
    rfl
  · right
    refine ⟨b.take c, c, by rw [hc]; rfl, hc, b.grownBy_take c, fun hrule => ?_, fun hfinder => ?_⟩
    · cases h with
      | rule r => exact Handler.records_rule (Handler.records_of_claimed hc)
      | finder f => cases hrule
      | observer o => cases hrule
    · obtain ⟨hinstruction, himports⟩ := Handler.claim_of_not_mutating hfinder hc
      refine ⟨hinstruction, ?_⟩
      show b.module.addImports c.imports = b.module
      rw [himports]
      rfl

/-- A rule that declines the call of a getter without a trace, and claims the load of a field that has moved. -/
theorem handler_contract_sample :
    let m := Sample.moduleOf [Sample.loadF]
    let rule := Sample.fieldMoved.handler
    rule.handle.run ⟨m, .new, Sample.callGetP⟩ = .ok false ⟨m, .new, Sample.callGetP⟩ ∧
      ∃ b', rule.handle.run ⟨m, .new, Sample.loadF⟩ = .ok true b' ∧ b'.ledger.count = 1 ∧
        .repaired ∈ b'.ledger.categories ∧ m.imports.Extends b'.module.imports := by
  intro m rule
  have hdeclines : rule.offer m.resolver Sample.callGetP = .declined := rfl
  have hclaims : ∃ b', rule.handle.run ⟨m, .new, Sample.loadF⟩ = .ok true b' := ⟨_, rfl⟩
  constructor
  · rcases handler_contract rule rfl ⟨m, .new, Sample.callGetP⟩ with hdeclined | ⟨b', c, -, hc, -⟩
    · exact hdeclined
    · rw [hdeclines] at hc
      cases hc
  · rcases handler_contract rule rfl ⟨m, .new, Sample.loadF⟩ with hdeclined | ⟨b', c, hclaimed, -, hgrown, hrule, -⟩
    · obtain ⟨b', hclaimed⟩ := hclaims
      rw [hdeclined] at hclaimed
      cases hclaimed
    · exact ⟨b', hclaimed, hgrown.count, (hgrown.categories _).mpr (.inr (hrule rfl).symm), hgrown.imports⟩

end ModRepair
