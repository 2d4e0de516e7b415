import ModRepair.Proofs.Metadata.Registration
import ModRepair.Proofs.Repair.Completion
import ModRepair.Proofs.Repair.Table

/-!
# What a run sees of a host

Handlers ask a host what references resolve to, and a list of watched scopes whether a scope is in it. So it does not
show in a run in which order the assemblies of a host were registered, as long as those of one name kept their order,
nor in which order, or how often, a scope is watched.

* `Handler.Alike`, `Registry.handlers_alike` — handlers of one table with **another list of the same scopes**;
* `Run.Alike` — two runs that differ in their hosts and in such handlers, and in nothing else;
* `Run.visit_alike`, `repair_alike` — **the step lemma** and what follows for whole runs;
* `only_content_matters` — registration, and what it means for a run.
-/

namespace ModRepair

/-! ## Handlers that cannot be told apart -/

/-- Handlers that go by the same name and give the same answers. -/
structure Handler.Alike (h h' : Handler) : Prop where
  name : h'.name = h.name
  offer : ∀ find i, h'.offer find i = h.offer find i

theorem Handler.Alike.refl (h : Handler) : h.Alike h :=
  ⟨rfl, fun _ _ => rfl⟩

section

variable {scopes scopes' : List Bytes} (h : ∀ s, s ∈ scopes ↔ s ∈ scopes')

include h

/-- Of a list of scopes it matters only which ones are in it. -/
theorem watched_congr : watched scopes = watched scopes' := by
  funext t
  rw [watched, watched, Bool.eq_iff_iff, List.contains_iff_mem, List.contains_iff_mem, h]

theorem Handler.alike_heuristic : (Handler.rule (.heuristic scopes)).Alike (.rule (.heuristic scopes')) where
  name := rfl
  offer := fun find i => by
    simp only [offer, Rule.replacement?, Rule.heuristicReplacement, watched_congr h]

theorem Handler.alike_missingMember :
    (Handler.finder (.missingMember scopes)).Alike (.finder (.missingMember scopes')) where
  name := rfl
  offer := fun find i => by
    simp only [offer, Finder.finding?, Finder.missingFinding, watched_congr h]

theorem Handler.alike_unexpectedType :
    (Handler.finder (.unexpectedType scopes)).Alike (.finder (.unexpectedType scopes')) where
  name := rfl
  offer := fun find i => by
    simp only [offer, Finder.finding?, Finder.unexpectedFinding, watched_congr h]

end

/-- A profile with another list of watched scopes. -/
def Profile.withScopes (p : Profile) (scopes : List Bytes) : Profile :=
  { p with watchedScopes := scopes }

/-- **Another list of the same scopes** gives handlers that cannot be told apart, one by one. -/
theorem Registry.handlers_alike (options : RepairOptions) (p : Profile) (added : List Registration)
    {scopes : List Bytes} (h : ∀ s, s ∈ p.watchedScopes ↔ s ∈ scopes) :
    List.Forall₂ Handler.Alike ((ofProfile options p).extend added).handlers
      ((ofProfile options (p.withScopes scopes)).extend added).handlers := by
  have hsame : ∀ hs : List Handler, List.Forall₂ Handler.Alike hs hs :=
    fun hs => List.forall₂_same.mpr fun h _ => .refl h
  have hrules : List.Forall₂ Handler.Alike (rules options p) (rules options (p.withScopes scopes)) :=
    List.rel_append (hsame _) (.cons (Handler.alike_heuristic h) .nil)
  rw [handlers_ofProfile_extend, handlers_ofProfile_extend]
  exact List.rel_append hrules
    (.cons (Handler.alike_missingMember h) (.cons (Handler.alike_unexpectedType h) (hsame _)))

/-! ## One instruction -/

/-- Lists whose elements have the same image, one by one. -/
theorem map_eq_of_forall₂ {α β γ : Type} {R : α → β → Prop} {f : α → γ} {g : β → γ} {l : List α} {l' : List β}
    (h : List.Forall₂ R l l') (hfg : ∀ a b, R a b → g b = f a) : l'.map g = l.map f := by
  induction h with
  | nil => rfl
  | cons hab _ ih => rw [List.map_cons, List.map_cons, hfg _ _ hab, ih]

/-- Failures of handlers that cannot be told apart, with the same text. -/
def FailureAlike (f f' : Handler × Bytes) : Prop :=
  f.1.Alike f'.1 ∧ f'.2 = f.2

/-- Handlers that cannot be told apart come to the same verdict. -/
theorem hear_alike (find : Resolver) (i : Instruction) {hs hs' : List Handler}
    (h : List.Forall₂ Handler.Alike hs hs') :
    (hear find i hs').verdict = (hear find i hs).verdict ∧
      List.Forall₂ FailureAlike (hear find i hs).failures (hear find i hs').failures := by
  induction h with
  | nil => exact ⟨rfl, .nil⟩
  | @cons g g' hs hs' hg rest ih =>
      obtain ⟨hverdict, hfailures⟩ := ih
      cases ho : g.offer find i with
      | claimed c => simp [hear, hg.offer, ho]
      | aborted reason => simp [hear, hg.offer, ho]
      | declined => simp [hear, hg.offer, ho, hverdict, hfailures]
      | failed text => simp [hear, hg.offer, ho, hverdict, FailureAlike, hg, hfailures]

/-- Tallies of handlers that cannot be told apart, with the same claims. -/
structure Tally.Alike (t t' : Tally) : Prop where
  handler : t.handler.Alike t'.handler
  claims : t'.claims = t.claims

namespace Tally.Alike

variable {t t' : Tally} (h : t.Alike t')

include h

theorem phrases : t'.phrases = t.phrases := by
  rw [Tally.phrases, Tally.phrases, h.claims]

theorem categories : t'.categories = t.categories := by
  rw [Tally.categories, Tally.categories, h.claims]

theorem claimRecords (c : Claim) : Run.claimRecords t' c = Run.claimRecords t c := by
  rw [Run.claimRecords, Run.claimRecords, Tally.knows, Tally.knows, h.claims, h.handler.name]

theorem take (c : Claim) : (t.take c).Alike (t'.take c) where
  handler := h.handler
  claims := congrArg (· ++ [(c.category, c.phrase)]) h.claims

end Tally.Alike

/-- A claim that is entered under handlers at the same position. -/
theorem modify_take_alike {ts ts' : List Tally} (h : List.Forall₂ Tally.Alike ts ts') (c : Claim) (k : Nat) :
    List.Forall₂ Tally.Alike (ts.modify k (·.take c)) (ts'.modify k (·.take c)) := by
  induction h generalizing k with
  | nil => simp
  | cons ht rest ih =>
      cases k with
      | zero => exact .cons (ht.take c) rest
      | succ k => exact .cons ht (ih k)

/-! ## Runs that differ in their hosts -/

/-- A module that is bound to a host, whatever it was bound to. -/
def Module.boundTo (m : Module) (host : Host) : Module :=
  { m with host := some host }

theorem Module.addImports_boundTo (m : Module) (host : Host) (is : List Import) :
    (m.boundTo host).addImports is = (m.addImports is).boundTo host := by
  induction is generalizing m with
  | nil => rfl
  | cons i is ih => exact ih (m.addImport i)

/-- **Two runs that differ in their hosts**, which answer alike, and in handlers that cannot be told apart. -/
structure Run.Alike (host : Host) (run run' : Run) : Prop where
  module : run'.module = run.module.boundTo host
  resolver : run'.module.resolver = run.module.resolver
  tallies : List.Forall₂ Tally.Alike run.tallies run'.tallies
  visited : run'.visited = run.visited
  claimed : run'.claimed = run.claimed
  failures : run'.failures = run.failures
  aborted : run'.aborted = run.aborted
  log : run'.log = run.log

namespace Run

variable {host : Host} {run run' : Run}

theorem note_alike (site : Site) (h : run.Alike host run') {fs fs' : List (Handler × Bytes)}
    (hfs : List.Forall₂ FailureAlike fs fs') : (run.note site fs).Alike host (run'.note site fs') where
  module := h.module
  resolver := h.resolver
  tallies := h.tallies
  visited := congrArg (· + 1) h.visited
  claimed := h.claimed
  failures := congrArg₂ (· + ·) h.failures hfs.length_eq.symm
  aborted := h.aborted
  log := by
    have hname : run'.module.name = run.module.name := by rw [h.module]; rfl
    have hrecords : fs'.map (failureRecord run'.module.name site) = fs.map (failureRecord run.module.name site) := by
      rw [hname]
      exact map_eq_of_forall₂ hfs fun f f' hf => by rw [failureRecord, failureRecord, hf.1.name, hf.2]
    exact congrArg₂ (· ++ ·) h.log hrecords

theorem take_alike (h : run.Alike host run') (k : Nat) (c : Claim) :
    (run.take k c).Alike host (run'.take k c) where
  module := by
    show run'.module.addImports c.imports = (run.module.addImports c.imports).boundTo host
    rw [h.module, Module.addImports_boundTo]
  resolver := by
    show (run'.module.addImports c.imports).resolver = (run.module.addImports c.imports).resolver
    rw [Module.resolver_addImports, Module.resolver_addImports, h.resolver]
  tallies := modify_take_alike h.tallies c k
  visited := h.visited
  claimed := congrArg (· + 1) h.claimed
  failures := h.failures
  aborted := h.aborted
  log := by
    have hname : run'.module.name = run.module.name := by rw [h.module]; rfl
    have himports : run'.module.imports = run.module.imports := by rw [h.module]; rfl
    have hgrown : (run'.module.addImports c.imports).imports = (run.module.addImports c.imports).imports := by
      rw [h.module, Module.addImports_boundTo]
      rfl
    have hrecords : run'.tallies.map (claimRecords · c) = run.tallies.map (claimRecords · c) :=
      map_eq_of_forall₂ h.tallies fun _ _ ht => ht.claimRecords c
    simp only [take]
    rw [h.log, hname, himports, hgrown, ← List.getElem?_map, ← List.getElem?_map, hrecords]

/-- **The step lemma.** Both runs leave the same in the place of an instruction, and stay alike. -/
theorem visit_alike (site : Site) (i : Instruction) (h : run.Alike host run') :
    (visit site i run).1 = (visit site i run').1 ∧ (visit site i run).2.Alike host (visit site i run').2 := by
  by_cases hgiven : run.aborted.isSome
  · rw [visit_of_given_up hgiven, visit_of_given_up (h.aborted ▸ hgiven)]
    exact ⟨rfl, h⟩
  · have hopen : run.aborted = none := by simpa using hgiven
    have hhandlers : List.Forall₂ Handler.Alike (run.tallies.map (·.handler)) (run'.tallies.map (·.handler)) :=
      List.rel_map (fun _ _ ht => ht.handler) h.tallies
    obtain ⟨hverdict, hfailures⟩ := hear_alike run.module.resolver i hhandlers
    have hnoted := note_alike site h hfailures
    rw [visit_of_running hopen, visit_of_running (h.aborted.trans hopen), hearing, hearing, h.resolver, hverdict]
    cases (hear run.module.resolver i (run.tallies.map (·.handler))).verdict with
    | unclaimed => exact ⟨rfl, hnoted⟩
    | claimed k c => exact ⟨rfl, take_alike hnoted k c⟩
    | aborted reason => exact ⟨rfl, { hnoted with aborted := rfl }⟩

theorem report_alike (h : run.Alike host run') : run'.report = run.report := by
  have hphrases : run'.tallies.flatMap (·.phrases) = run.tallies.flatMap (·.phrases) := by
    rw [List.flatMap_def, List.flatMap_def, map_eq_of_forall₂ h.tallies fun _ _ ht => ht.phrases]
  have hcategories : run'.tallies.flatMap (·.categories) = run.tallies.flatMap (·.categories) := by
    rw [List.flatMap_def, List.flatMap_def, map_eq_of_forall₂ h.tallies fun _ _ ht => ht.categories]
  have hname : run'.module.name = run.module.name := by rw [h.module]; rfl
  rw [report, report, hname, hphrases, hcategories, h.visited, h.claimed, h.failures]

end Run

/-- Hosts and handlers that answer alike: the runs leave the same module, each with its own host, report the same or
    give up for the same reason, and log the same. -/
theorem repair_alike {hs hs' : List Handler} (hhs : List.Forall₂ Handler.Alike hs hs') {m : Module} {host : Host}
    (hresolver : (m.boundTo host).resolver = m.resolver) :
    repair hs' (m.boundTo host) =
      { repair hs m with module := (repair hs m).module.boundTo host } := by
  have hstart : (Run.start hs m).Alike host (.start hs' (m.boundTo host)) :=
    { module := rfl
      resolver := hresolver
      tallies := List.rel_map (fun _ _ hh => ⟨hh, rfl⟩) hhs
      visited := rfl
      claimed := rfl
      failures := rfl
      aborted := rfl
      log := rfl }
  obtain ⟨htypes, hrun⟩ := Traversal.types_lockstep (R := Run.Alike host)
    (fun site i run run' => Run.visit_alike site i) m.types _ _ hstart
  have hfinal : (Run.final hs m).Alike host (Run.final hs' (m.boundTo host)) := hrun
  have hown : (m.boundTo host).types = m.types := rfl
  rw [repair_eq_outcome, repair_eq_outcome, hown, ← htypes]
  unfold Run.outcome
  rw [hfinal.aborted, hfinal.module, hfinal.log, Run.report_alike hfinal]
  rfl

/-! ## Registration -/

/-- Modules resolve alike in hosts that do. -/
theorem Module.resolver_boundTo_congr (m : Module) {host host' : Host} (h : host.type? = host'.type?) :
    (m.boundTo host').resolver = (m.boundTo host).resolver := by
  funext ref
  simp only [resolver, type?, boundTo, Option.bind_some, h]
  rfl

/-- **Only the content of a host matters.** Take any assemblies, registered one after another. The names in the host
    are pairwise distinct, and of every scope it answers as the last assembly of that name does, or knows nothing if
    there is none. Register the same assemblies in any other order in which those of one name have kept theirs, and
    watch the same scopes in another order or more often. With the same options, the same profile but for that and the
    same additions, a run over any module that is bound to the one host and to the other leaves the same, but for the
    host; it reports the same or gives up for the same reason, and it logs the same. -/
theorem only_content_matters (as : List Assembly) :
    let host := Host.ofAssemblies as
    (host.assemblies.map (·.name)).Nodup ∧
      (∀ scope, (∃ a, IsLastNamed as scope a ∧ host.AnswersFrom scope (some a)) ∨
        (∀ a ∈ as, a.name ≠ scope) ∧ host.AnswersFrom scope none) ∧
      ∀ bs, Host.SameOrder as bs →
        ∀ options p (scopes : List Bytes) added, (∀ s, s ∈ p.watchedScopes ↔ s ∈ scopes) → ∀ m : Module,
        let o := ((Registry.ofProfile options p).extend added).repair (m.boundTo host)
        ((Registry.ofProfile options (p.withScopes scopes)).extend added).repair (m.boundTo (.ofAssemblies bs)) =
          { o with module := o.module.boundTo (.ofAssemblies bs) } := by
  intro host
  refine ⟨Host.nodup_names as, fun scope => ?_, fun bs hbs options p scopes added hscopes m => ?_⟩
  · have hanswers : host.AnswersFrom scope (host.assembly? scope) := host.answersFrom_assembly? scope
    cases ha : host.assembly? scope with
    | none =>
        rw [ha] at hanswers
        exact .inr ⟨Host.assembly?_eq_none_iff.mp ha, hanswers⟩
    | some a =>
        rw [ha] at hanswers
        exact .inl ⟨a, Host.assembly?_eq_some_iff.mp ha, hanswers⟩
  · exact repair_alike (m := m.boundTo host) (Registry.handlers_alike options p added hscopes)
      (m.resolver_boundTo_congr (Host.type?_of_sameOrder hbs))

/-- The host is registered twice, the second time with what the first one lacks. Another assembly may come between the
    two or before them, and the host may be watched twice: the load is repaired, and the call is reported. -/
theorem only_content_matters_sample :
    let first : Assembly := ⟨ascii "Host", [Sample.declA]⟩
    let second : Assembly := ⟨ascii "Host", [Sample.declA, Sample.declB]⟩
    let lib : Assembly := ⟨ascii "Lib", []⟩
    let host := Host.ofAssemblies [first, lib, second]
    let other := Host.ofAssemblies [lib, first, second]
    let p := Sample.profileOf [Sample.fieldMoved] []
    let m := Sample.moduleOf [Sample.loadF, Sample.callG]
    let o := (Registry.ofProfile .standard p).repair (m.boundTo host)
    let o' := (Registry.ofProfile .standard (p.withScopes [ascii "Host", ascii "Host"])).repair (m.boundTo other)
    host ≠ other ∧ (host.assemblies.map (·.name)).Nodup ∧
      (∃ a, IsLastNamed [first, lib, second] (ascii "Host") a ∧ host.AnswersFrom (ascii "Host") (some a)) ∧
      o'.module.instructions = [Sample.callGetP, Sample.callG] ∧ o'.module.imports = o.module.imports ∧
      ∃ report, o.report = .ok report ∧ o'.report = .ok report ∧ report.claimed = 2 := by
  intro first second lib host other p m o o'
  obtain ⟨hnames, hscopes, hruns⟩ := only_content_matters [first, lib, second]
  have horder : Host.SameOrder [first, lib, second] [lib, first, second] :=
    Host.sameOrder_swap [] [second] (by decide)
  have heq : o' = { o with module := o.module.boundTo other } :=
    hruns _ horder .standard p [ascii "Host", ascii "Host"] [] (by simp [p, Sample.profileOf]) m
  have hleft : o.module.instructions = [Sample.callGetP, Sample.callG] := by decide
  have hclaimed : o.report.toOption.map (·.claimed) = some 2 := by decide
  obtain ⟨report, hreport⟩ : ∃ report, o.report = .ok report := ⟨_, rfl⟩
  rw [hreport] at hclaimed
  refine ⟨by decide, hnames, ?_, ?_, ?_, report, hreport, ?_, Option.some.inj hclaimed⟩
  · rcases hscopes (ascii "Host") with h | ⟨hnone, -⟩
    · exact h
    · exact absurd rfl (hnone first List.mem_cons_self)
  · rw [heq]
    exact hleft
  · rw [heq]
    rfl
  · rw [heq]
    exact hreport

end ModRepair
