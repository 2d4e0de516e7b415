import ModRepair.Repair.Finder

/-!
# Handlers

A handler is offered instructions and claims those it has something to do with: a rule claims what it replaces, a
finder what it reports. An observer comes from elsewhere: it may answer in any way, as long as it leaves what it claims
as it is. `Handler.offer` decides from the instruction and from what references resolve to, and from nothing else;
what a handler has claimed before is kept apart, in its `Tally`, and is never consulted.
-/

namespace ModRepair

/-! ## Answers -/

/-- What a handler does that claims an instruction: the category and phrase it records, the instruction to put in
its place, and the references to import, in this order. -/
structure Claim where
  category : Category
  phrase : Bytes
  instruction : Instruction
  imports : List Import
  deriving DecidableEq, Repr

/-- How a handler answers when it is offered an instruction. -/
inductive Offer
  | declined
  | claimed (claim : Claim)
  | failed (text : Bytes)
  | aborted (reason : Bytes)
  deriving DecidableEq, Repr

/-- A replacement is claimed as a repair. -/
def Replacement.claim (r : Replacement) : Claim :=
  ⟨.repaired, r.phrase, r.instruction, r.imports⟩

/-- A finding is claimed without any change. -/
def Finding.claim (f : Finding) (i : Instruction) : Claim :=
  ⟨f.category, f.phrase, i, []⟩

/-- A claim, or none, as an answer. -/
def Offer.ofClaim? : Option Claim → Offer
  | some c => .claimed c
  | none => .declined

/-! ## Handlers -/

/-- Any answer to what references resolve to and to an instruction, by a handler that changes nothing. -/
structure Observer where
  name : Bytes
  answer : Resolver → Instruction → Offer
  changes_nothing : ∀ find i c, answer find i = .claimed c → c.instruction = i ∧ c.imports = []

inductive Handler
  | rule (rule : Rule)
  | finder (finder : Finder)
  | observer (observer : Observer)

namespace Handler

def offer (h : Handler) (find : Resolver) (i : Instruction) : Offer :=
  match h with
  | .rule r => .ofClaim? ((r.replacement? find i).map (·.claim))
  | .finder f => .ofClaim? ((f.finding? find i).map (·.claim i))
  | .observer o => o.answer find i

def name : Handler → Bytes
  | .rule r => r.name
  | .finder f => f.name
  | .observer o => o.name

/-- Whether a handler may change what it claims: only rules do. -/
def isMutating : Handler → Bool
  | .rule _ => true
  | _ => false

end Handler

/-! ## Probes -/

/-- What a probe does with an instruction it selects. -/
inductive Reaction
  /-- Claims it, without changing it. -/
  | claim
  /-- Fails, so that the instruction goes on to the next handler. -/
  | fail
  /-- Gives up on the whole run. -/
  | abort
  deriving DecidableEq, Repr

def Reaction.name : Reaction → Bytes
  | .claim => ascii "claim"
  | .fail => ascii "throw"
  | .abort => ascii "abort"

def Reaction.ofName? (name : Bytes) : Option Reaction :=
  [Reaction.claim, .fail, .abort].find? (·.name == name)

/-- An observer by a script, for trying out how a run copes with handlers that claim, fail or abort. -/
structure Probe where
  reaction : Reaction
  /-- The mnemonic of the instructions it selects; it selects all if this is empty. -/
  mnemonic : Bytes
  category : Category
  /-- The phrase of a claim, or the text of a failure. -/
  phrase : Bytes
  deriving DecidableEq, Repr

namespace Probe

def selects (p : Probe) (i : Instruction) : Bool :=
  p.mnemonic.isEmpty || p.mnemonic == i.opcode.mnemonic

def name (p : Probe) : Bytes :=
  ascii "Extra(" ++ p.reaction.name ++ ascii ")"

def answer (p : Probe) (i : Instruction) : Offer :=
  if p.selects i then
    match p.reaction with
    | .claim => .claimed ⟨p.category, p.phrase, i, []⟩
    | .fail => .failed p.phrase
    | .abort => .aborted p.phrase
  else .declined

theorem eq_of_answer_claimed {p : Probe} {i : Instruction} {c : Claim} (h : p.answer i = .claimed c) :
    c = ⟨p.category, p.phrase, i, []⟩ := by
  unfold answer at h
  split at h
  · cases hr : p.reaction <;> rw [hr] at h <;> simp at h
    exact h.symm
  · cases h

def observer (p : Probe) : Observer where
  name := p.name
  answer _ := p.answer
  changes_nothing _ _ _ h := by
    rw [eq_of_answer_claimed h]
    exact ⟨rfl, rfl⟩

end Probe

def Handler.probe (p : Probe) : Handler :=
  .observer p.observer

/-! ## Tallies -/

/-- The elements of a list, each once, in the order in which they first occur. -/
def distinct {α : Type} [DecidableEq α] (l : List α) : List α :=
  l.foldl appendNew []

/-- A handler and what it has claimed so far, oldest first. -/
structure Tally where
  handler : Handler
  claims : List (Category × Bytes)

namespace Tally

def new (h : Handler) : Tally :=
  ⟨h, []⟩

/-- The number of claims. -/
def count (t : Tally) : Nat :=
  t.claims.length

/-- The phrases of the claims, each once. -/
def phrases (t : Tally) : List Bytes :=
  distinct (t.claims.map (·.2))

/-- The categories of the claims. -/
def categories (t : Tally) : List Category :=
  Category.inOrder (t.claims.map (·.1))

def take (t : Tally) (c : Claim) : Tally :=
  { t with claims := t.claims ++ [(c.category, c.phrase)] }

/-- Whether a phrase has been used in a claim before. -/
def knows (t : Tally) (phrase : Bytes) : Bool :=
  t.claims.any (·.2 == phrase)

end Tally

end ModRepair
