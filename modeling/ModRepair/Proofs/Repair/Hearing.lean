import ModRepair.Repair.Run

/-!
# Who claims an instruction

`hear` offers an instruction to handlers from left to right. This file says without recursion what comes of it:

* `Handler.MayAbort`, `Handler.Records` — what a handler may do with some instruction in some module;
* `hear_claimed_iff` — **the first claim wins**: a claim at a position is that of the handler there, and every
  handler before it let the instruction pass;
* `hear_unclaimed_iff` — an instruction stays unclaimed if every handler lets it pass;
* `hear_ne_aborted` — without a handler that may abort, no hearing ends in an abort.

`claimOf?` is the claim alone, and `settle` the instruction that it leaves.
-/

namespace ModRepair

/-! ## Answers -/

namespace Offer

/-- Whether the instruction goes on to the next handler. -/
def passes : Offer → Bool
  | .declined | .failed _ => true
  | .claimed _ | .aborted _ => false

/-- The claim, if there is one. -/
def claim? : Offer → Option Claim
  | .claimed c => some c
  | _ => none

theorem claim?_ofClaim? (o : Option Claim) : (ofClaim? o).claim? = o := by
  cases o <;> rfl

theorem passes_or (o : Offer) : o.passes ∨ (∃ c, o = .claimed c) ∨ ∃ reason, o = .aborted reason := by
  cases o <;> simp [passes]

theorem ofClaim?_eq_claimed {o : Option Claim} {c : Claim} : ofClaim? o = .claimed c ↔ o = some c := by
  cases o <;> simp [ofClaim?]

theorem ofClaim?_ne_aborted (o : Option Claim) (reason : Bytes) : ofClaim? o ≠ .aborted reason := by
  cases o <;> simp [ofClaim?]

theorem passes_ofClaim? {o : Option Claim} : (ofClaim? o).passes ↔ o = none := by
  cases o <;> simp [ofClaim?, passes]

end Offer

/-! ## Handlers -/

namespace Handler

variable {find : Resolver} {i : Instruction} {c : Claim}

/-- There is an instruction on which the handler gives up on the whole run. -/
def MayAbort (h : Handler) : Prop :=
  ∃ find i reason, h.offer find i = .aborted reason

/-- There is an instruction that the handler claims with the category. -/
def Records (h : Handler) (category : Category) : Prop :=
  ∃ find i c, h.offer find i = .claimed c ∧ c.category = category

theorem not_mayAbort_rule (r : Rule) : ¬ (Handler.rule r).MayAbort := by
  rintro ⟨find, i, reason, ha⟩
  exact Offer.ofClaim?_ne_aborted _ _ ha

theorem not_mayAbort_finder (f : Finder) : ¬ (Handler.finder f).MayAbort := by
  rintro ⟨find, i, reason, ha⟩
  exact Offer.ofClaim?_ne_aborted _ _ ha

theorem not_mayAbort_of_isMutating {h : Handler} (hh : h.isMutating) : ¬ h.MayAbort := by
  cases h with
  | rule r => exact not_mayAbort_rule r
  | finder f => cases hh
  | observer o => cases hh

/-- A probe aborts only if that is its script. -/
theorem not_mayAbort_probe {p : Probe} (hp : p.reaction ≠ .abort) : ¬ (Handler.probe p).MayAbort := by
  rintro ⟨find, i, reason, ha⟩
  have ha : p.answer i = .aborted reason := ha
  unfold Probe.answer at ha
  split at ha
  · cases hr : p.reaction with
    | abort => exact hp hr
    | claim =>
        rw [hr] at ha
        cases ha
    | fail =>
        rw [hr] at ha
        cases ha
  · cases ha

/-- A rule that is alone does not make a run give up. -/
theorem not_mayAbort_of_mem_rule {rule : Rule} : ∀ h ∈ [Handler.rule rule], ¬ h.MayAbort := by
  intro h hh
  rw [List.mem_singleton.mp hh]
  exact not_mayAbort_rule rule

theorem offer_ne_aborted {h : Handler} (hh : ¬ h.MayAbort) (reason : Bytes) : h.offer find i ≠ .aborted reason :=
  fun ha => hh ⟨find, i, reason, ha⟩

theorem records_of_claimed {h : Handler} (hc : h.offer find i = .claimed c) : h.Records c.category :=
  ⟨find, i, c, hc, rfl⟩

theorem rule_offer_eq_claimed {r : Rule} :
    (Handler.rule r).offer find i = .claimed c ↔ ∃ rep, r.replacement? find i = some rep ∧ rep.claim = c := by
  rw [offer, Offer.ofClaim?_eq_claimed, Option.map_eq_some_iff]

theorem finder_offer_eq_claimed {f : Finder} :
    (Handler.finder f).offer find i = .claimed c ↔ ∃ g, f.finding? find i = some g ∧ g.claim i = c := by
  rw [offer, Offer.ofClaim?_eq_claimed, Option.map_eq_some_iff]

theorem finder_offer_passes {f : Finder} :
    ((Handler.finder f).offer find i).passes ↔ f.finding? find i = none := by
  rw [offer, Offer.passes_ofClaim?, Option.map_eq_none_iff]

/-- Rules record repairs only. -/
theorem records_rule {r : Rule} {category : Category} (h : (Handler.rule r).Records category) :
    category = .repaired := by
  obtain ⟨find, i, c, hc, rfl⟩ := h
  obtain ⟨rep, -, rfl⟩ := rule_offer_eq_claimed.mp hc
  rfl

/-- A probe records the category of its script. -/
theorem records_probe {p : Probe} {category : Category} (h : (Handler.probe p).Records category) :
    category = p.category := by
  obtain ⟨find, i, c, hc, rfl⟩ := h
  rw [Probe.eq_of_answer_claimed hc]

/-- **Only rules change what they claim.** -/
theorem claim_of_not_mutating {h : Handler} (hh : h.isMutating = false) (hc : h.offer find i = .claimed c) :
    c.instruction = i ∧ c.imports = [] := by
  cases h with
  | rule r => cases hh
  | finder f =>
      obtain ⟨g, -, rfl⟩ := finder_offer_eq_claimed.mp hc
      exact ⟨rfl, rfl⟩
  | observer o => exact o.changes_nothing find i c hc

end Handler

/-! ## Verdicts -/

namespace Verdict

/-- The claim, if there is one. -/
def claim? : Verdict → Option Claim
  | .claimed _ c => some c
  | _ => none

theorem claim?_eq_some {v : Verdict} {c : Claim} : v.claim? = some c ↔ ∃ k, v = .claimed k c := by
  cases v <;> simp [claim?]

theorem claim?_shift (v : Verdict) : v.shift.claim? = v.claim? := by
  cases v <;> rfl

theorem shift_eq_unclaimed {v : Verdict} : v.shift = .unclaimed ↔ v = .unclaimed := by
  cases v <;> simp [shift]

theorem shift_eq_aborted {v : Verdict} {reason : Bytes} : v.shift = .aborted reason ↔ v = .aborted reason := by
  cases v <;> simp [shift]

theorem shift_eq_claimed {v : Verdict} {k : Nat} {c : Claim} :
    v.shift = .claimed k c ↔ ∃ j, v = .claimed j c ∧ j + 1 = k := by
  cases v <;> simp [shift]
  grind

end Verdict

/-! ## Hearings -/

section

variable {find : Resolver} {i : Instruction} {hs : List Handler}

theorem hear_cons_of_claimed {h : Handler} {c : Claim} (hc : h.offer find i = .claimed c) :
    (hear find i (h :: hs)).verdict = .claimed 0 c := by
  rw [hear, hc]

theorem hear_cons_of_aborted {h : Handler} {reason : Bytes} (ha : h.offer find i = .aborted reason) :
    (hear find i (h :: hs)).verdict = .aborted reason := by
  rw [hear, ha]

theorem hear_cons_of_passes {h : Handler} (hp : (h.offer find i).passes) :
    (hear find i (h :: hs)).verdict = (hear find i hs).verdict.shift := by
  rw [hear]
  cases ho : h.offer find i with
  | declined => rfl
  | failed text => rfl
  | claimed c => rw [ho] at hp; cases hp
  | aborted reason => rw [ho] at hp; cases hp

/-- **The first claim wins.** -/
theorem hear_claimed_iff {k : Nat} {c : Claim} :
    (hear find i hs).verdict = .claimed k c ↔
      ∃ before h after, hs = before ++ h :: after ∧ before.length = k ∧
        (∀ b ∈ before, (b.offer find i).passes) ∧ h.offer find i = .claimed c := by
  -- Induction on the handlers: the first one lets the instruction pass, claims it, or aborts.
  induction hs generalizing k with
  | nil => simp [hear]
  | cons g rest ih =>
      constructor
      · intro hv
        rcases (g.offer find i).passes_or with hp | ⟨d, hd⟩ | ⟨reason, ha⟩
        · rw [hear_cons_of_passes hp, Verdict.shift_eq_claimed] at hv
          obtain ⟨j, hj, rfl⟩ := hv
          obtain ⟨before, h, after, rfl, rfl, hb, hc⟩ := ih.mp hj
          exact ⟨g :: before, h, after, rfl, rfl, List.forall_mem_cons.mpr ⟨hp, hb⟩, hc⟩
        · rw [hear_cons_of_claimed hd] at hv
          cases hv
          exact ⟨[], g, rest, rfl, rfl, by simp, hd⟩
        · rw [hear_cons_of_aborted ha] at hv
          cases hv
      · rintro ⟨before, h, after, heq, rfl, hb, hc⟩
        cases before with
        | nil =>
            cases heq
            exact hear_cons_of_claimed hc
        | cons b before =>
            cases heq
            obtain ⟨hg, hb⟩ := List.forall_mem_cons.mp hb
            rw [hear_cons_of_passes hg, Verdict.shift_eq_claimed]
            exact ⟨before.length, ih.mpr ⟨before, h, after, rfl, rfl, hb, hc⟩, rfl⟩

/-- An instruction is unclaimed if all handlers let it pass. -/
theorem hear_unclaimed_iff :
    (hear find i hs).verdict = .unclaimed ↔ ∀ h ∈ hs, (h.offer find i).passes := by
  induction hs with
  | nil => simp [hear]
  | cons g rest ih =>
      rw [List.forall_mem_cons]
      rcases (g.offer find i).passes_or with hp | ⟨d, hd⟩ | ⟨reason, ha⟩
      · rw [hear_cons_of_passes hp, Verdict.shift_eq_unclaimed, ih]
        exact ⟨fun h => ⟨hp, h⟩, fun h => h.2⟩
      · rw [hear_cons_of_claimed hd, hd]
        simp [Offer.passes]
      · rw [hear_cons_of_aborted ha, ha]
        simp [Offer.passes]

/-- Without a handler that may abort no hearing is aborted. -/
theorem hear_ne_aborted (hh : ∀ h ∈ hs, ¬ h.MayAbort) (reason : Bytes) :
    (hear find i hs).verdict ≠ .aborted reason := by
  induction hs with
  | nil => simp [hear]
  | cons g rest ih =>
      obtain ⟨hg, hrest⟩ := List.forall_mem_cons.mp hh
      rcases (g.offer find i).passes_or with hp | ⟨d, hd⟩ | ⟨r, ha⟩
      · rw [hear_cons_of_passes hp, ne_eq, Verdict.shift_eq_aborted]
        exact ih hrest
      · rw [hear_cons_of_claimed hd]
        simp
      · exact absurd ha (Handler.offer_ne_aborted hg r)

end

/-! ## Claims -/

/-- The claim with which the handlers take an instruction, if one does. -/
def claimOf? (find : Resolver) (hs : List Handler) (i : Instruction) : Option Claim :=
  (hear find i hs).verdict.claim?

/-- What the handlers leave in the place of an instruction. -/
def settle (find : Resolver) (hs : List Handler) (i : Instruction) : Instruction :=
  ((claimOf? find hs i).map (·.instruction)).getD i

section

variable {find : Resolver} {i : Instruction} {hs : List Handler}

theorem claimOf?_eq_some {c : Claim} :
    claimOf? find hs i = some c ↔
      ∃ before h after, hs = before ++ h :: after ∧ (∀ b ∈ before, (b.offer find i).passes) ∧
        h.offer find i = .claimed c := by
  rw [claimOf?, Verdict.claim?_eq_some]
  simp only [hear_claimed_iff]
  constructor
  · rintro ⟨k, before, h, after, heq, -, hb, hc⟩
    exact ⟨before, h, after, heq, hb, hc⟩
  · rintro ⟨before, h, after, heq, hb, hc⟩
    exact ⟨_, before, h, after, heq, rfl, hb, hc⟩

/-- A claim is the answer of one of the handlers. -/
theorem exists_mem_of_claimOf? {c : Claim} (hc : claimOf? find hs i = some c) :
    ∃ h ∈ hs, h.offer find i = .claimed c := by
  obtain ⟨before, h, after, rfl, -, hoffer⟩ := claimOf?_eq_some.mp hc
  exact ⟨h, by simp, hoffer⟩

/-- A handler that is alone claims what it claims. -/
theorem claimOf?_singleton {h : Handler} {c : Claim} : claimOf? find [h] i = some c ↔ h.offer find i = .claimed c := by
  constructor
  · intro hc
    obtain ⟨h', hh, hoffer⟩ := exists_mem_of_claimOf? hc
    rw [List.mem_singleton.mp hh] at hoffer
    exact hoffer
  · intro hoffer
    exact claimOf?_eq_some.mpr ⟨[], h, [], rfl, nofun, hoffer⟩

/-- **Hearings in sequence.** A handler that does not abort claims an instruction, or leaves it to those after it. -/
theorem claimOf?_cons {h : Handler} (hh : ¬ h.MayAbort) :
    claimOf? find (h :: hs) i = (h.offer find i).claim?.or (claimOf? find hs i) := by
  rcases (h.offer find i).passes_or with hp | ⟨c, hc⟩ | ⟨reason, ha⟩
  · have hnone : (h.offer find i).claim? = none := by
      cases ho : h.offer find i <;> rw [ho] at hp <;> first | rfl | cases hp
    rw [claimOf?, hear_cons_of_passes hp, Verdict.claim?_shift, hnone]
    rfl
  · rw [claimOf?, hear_cons_of_claimed hc, hc]
    rfl
  · exact absurd ha (Handler.offer_ne_aborted hh reason)

/-- The same for a list of handlers and those after it. -/
theorem claimOf?_append {front : List Handler} (hfront : ∀ h ∈ front, ¬ h.MayAbort) :
    claimOf? find (front ++ hs) i = (claimOf? find front i).or (claimOf? find hs i) := by
  induction front with
  | nil => rfl
  | cons h front ih =>
      obtain ⟨hh, hfront⟩ := List.forall_mem_cons.mp hfront
      rw [List.cons_append, claimOf?_cons hh, claimOf?_cons hh, ih hfront, Option.or_assoc]

theorem settle_of_claim {c : Claim} (hc : claimOf? find hs i = some c) : settle find hs i = c.instruction := by
  rw [settle, hc]
  rfl

theorem settle_of_unclaimed (h : claimOf? find hs i = none) : settle find hs i = i := by
  rw [settle, h]
  rfl

end

end ModRepair
