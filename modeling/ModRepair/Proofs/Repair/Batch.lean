import ModRepair.Proofs.Repair.Schedule
import ModRepair.Proofs.Repair.Table

/-!
# Batches

Workers that take indices from a shared counter do together what one would do alone.

* `Batch.Invariant.over` — once all workers have stopped, all modules have come to the last stage;
* `Batch.Invariant.isOver_run`, `Batch.isOver_of_fair` — a schedule ends that lets every worker make enough steps;
* `Batch.collect_eq_ok_iff`, `Batch.collect_eq_error_iff` — what is made of the reports;
* `batch_any_schedule` — **a batch is its modules repaired one by one**.
-/

namespace ModRepair

namespace Batch

section

variable {handlers : List Handler} {ms : List Module} {done : List Nat} {b : Batch} {w i : Nat}

/-! ## When all workers have stopped -/

theorem count_range {n : Nat} (hi : i < n) : (List.range n).count i = 1 := by
  rw [List.nodup_range.count, if_pos (List.mem_range.mpr hi)]

theorem stopped_of_isOver (hover : b.isOver = true) {x : Worker} (hw : b.workers[w]? = some x) : x = .stopped := by
  have hx := List.all_eq_true.mp hover x (List.mem_of_getElem? hw)
  cases x with
  | stopped => rfl
  | ready => cases hx
  | holding i => cases hx
  | carrying i report => cases hx

theorem eq_map_of_getElem? {α β : Type} {f : α → β} {l : List α} {l' : List β} (hlength : l'.length = l.length)
    (h : ∀ (i : Nat) (x : α), l[i]? = some x → l'[i]? = some (f x)) : l' = l.map f := by
  refine List.ext_getElem? fun i => ?_
  rw [List.getElem?_map]
  cases hx : l[i]? with
  | none => exact List.getElem?_eq_none (hlength ▸ List.getElem?_eq_none_iff.mp hx)
  | some x => exact h i x hx

/-- Once all workers have stopped, the modules are what repairing each alone makes of them, all reports are there, and
    each module has been repaired once. -/
theorem Invariant.over (h : Invariant handlers ms done b) (hover : b.isOver = true)
    (hworkers : ms ≠ [] → b.workers ≠ []) :
    b.modules = ms.map (fun m => (repair handlers m).module) ∧
      b.reports = ms.map (fun m => some (repair handlers m).report) ∧ done.Perm (List.range ms.length) := by
  -- The counter has passed the end, because there is a worker, and it has stopped.
  have hcounter : ms ≠ [] → ms.length ≤ b.next := by
    intro hms
    have hpos : 0 < b.workers.length := List.length_pos_iff.mpr (hworkers hms)
    have hzero : b.workers[0]? = some b.workers[0] := List.getElem?_eq_getElem hpos
    rw [stopped_of_isOver hover hzero] at hzero
    exact h.stopped 0 hzero
  have hfree : ∀ i, b.Free i := by
    intro i w x hx
    rw [stopped_of_isOver hover hx]
    exact nofun
  have hlast : ∀ (i : Nat) (m : Module), ms[i]? = some m →
      b.modules[i]? = some (repair handlers m).module ∧ b.reports[i]? = some (some (repair handlers m).report) ∧
        done.count i = 1 := by
    intro i m hm
    have hi : i < ms.length := (List.getElem?_eq_some_iff.mp hm).1
    have hms : ms ≠ [] := List.ne_nil_of_length_pos (by omega)
    exact (h.stage i m hm).of_free (Nat.lt_of_lt_of_le hi (hcounter hms)) (hfree i)
  refine ⟨eq_map_of_getElem? h.modules fun i m hm => (hlast i m hm).1,
    eq_map_of_getElem? h.reports fun i m hm => (hlast i m hm).2.1, ?_⟩
  refine List.perm_iff_count.mpr fun i => ?_
  by_cases hi : i < ms.length
  · rw [(hlast i _ (List.getElem?_eq_getElem hi)).2.2, count_range hi]
  · rw [List.count_eq_zero_of_not_mem fun hin => hi (h.done i hin),
      List.count_eq_zero_of_not_mem fun hin => hi (List.mem_range.mp hin)]

theorem over_start {workers : Nat} {schedule : List Nat} (hworkers : ms ≠ [] → 0 < workers)
    (hover : ((start workers ms).run handlers schedule).isOver = true) :
    ((start workers ms).run handlers schedule).modules = ms.map (fun m => (repair handlers m).module) ∧
      ((start workers ms).run handlers schedule).reports = ms.map (fun m => some (repair handlers m).report) ∧
        (repairs handlers (start workers ms) schedule).Perm (List.range ms.length) := by
  refine ((start_invariant workers).run schedule).over hover fun hms => ?_
  refine List.ne_nil_of_length_pos ?_
  rw [length_workers_run, start, List.length_replicate]
  exact hworkers hms

/-! ## Schedules that end -/

/-- As many steps as a worker has yet to make, at most, in a batch of `n` modules whose counter stands at `next`: three
    for each module that nobody has taken, one to stop, and those for the module it is busy with. -/
def remaining (n next : Nat) : Worker → Nat
  | .ready => 3 * (n - next) + 1
  | .holding _ => 3 * (n - next) + 3
  | .carrying _ _ => 3 * (n - next) + 2
  | .stopped => 0

theorem remaining_mono (n : Nat) {next next' : Nat} (hle : next ≤ next') (x : Worker) :
    remaining n next' x ≤ remaining n next x := by
  cases x with
  | ready => simp only [remaining]; omega
  | holding i => simp only [remaining]; omega
  | carrying i report => simp only [remaining]; omega
  | stopped => exact Nat.le_refl 0

/-- A worker that makes a step has one step less to make. -/
theorem Invariant.remaining_step (h : Invariant handlers ms done b) {x x' : Worker} (hw : b.workers[w]? = some x)
    (hw' : (b.step handlers w).workers[w]? = some x') :
    remaining ms.length (b.step handlers w).next x' ≤ remaining ms.length b.next x - 1 := by
  cases x with
  | ready =>
      rw [step_of_ready hw] at hw' ⊢
      rw [getElem?_set_worker hw] at hw'
      cases hw'
      simp only [h.modules]
      split
      · simp only [remaining]
        omega
      · exact Nat.zero_le _
  | holding i =>
      have hm := List.getElem?_eq_getElem (h.modules.symm ▸ h.busy w _ i hw rfl)
      rw [step_of_holding hw hm] at hw' ⊢
      rw [getElem?_set_worker hw] at hw'
      cases hw'
      exact Nat.le_refl _
  | carrying i report =>
      rw [step_of_carrying hw] at hw' ⊢
      rw [getElem?_set_worker hw] at hw'
      cases hw'
      exact Nat.le_refl _
  | stopped =>
      rw [step_of_stopped hw, hw] at hw'
      cases hw'
      exact Nat.zero_le _

/-- A schedule ends that has, for every worker, as many steps as it has yet to make. -/
theorem Invariant.isOver_run (h : Invariant handlers ms done b) (schedule : List Nat)
    (hfair : ∀ (w : Nat) (x : Worker), b.workers[w]? = some x → remaining ms.length b.next x ≤ schedule.count w) :
    (b.run handlers schedule).isOver = true := by
  induction schedule generalizing done b with
  | nil =>
      refine List.all_eq_true.mpr fun x hx => ?_
      obtain ⟨w, hw⟩ := List.mem_iff_getElem?.mp hx
      have hnone := hfair w x hw
      cases x with
      | stopped => rfl
      | ready => simp [remaining] at hnone
      | holding i => simp [remaining] at hnone
      | carrying i report => simp [remaining] at hnone
  | cons v schedule ih =>
      -- The step takes one off what its own worker has yet to do and adds nothing to what the others have.
      refine ih (h.step v) fun w x' hw' => ?_
      by_cases hne : v = w
      · subst hne
        have hlt : v < b.workers.length := by
          rw [← length_workers_step]
          exact (List.getElem?_eq_some_iff.mp hw').1
        have hw := List.getElem?_eq_getElem hlt
        have hbefore := hfair v _ hw
        rw [List.count_cons_self] at hbefore
        have hless := h.remaining_step hw hw'
        omega
      · rw [getElem?_workers_step hne] at hw'
        have hbefore := hfair w x' hw'
        rw [List.count_cons_of_ne hne] at hbefore
        exact Nat.le_trans (remaining_mono ms.length workers_step.2 x') hbefore

/-- **A schedule ends** that lets every worker make as many steps as it would need to do all the work by itself. -/
theorem isOver_of_fair {workers : Nat} {schedule : List Nat}
    (hfair : ∀ w < workers, 3 * ms.length + 1 ≤ schedule.count w) :
    ((start workers ms).run handlers schedule).isOver = true := by
  refine (start_invariant workers).isOver_run schedule fun w x hw => ?_
  obtain ⟨hlt, rfl⟩ := eq_ready_of_start hw
  exact hfair w hlt

theorem count_turns {workers : Nat} (hw : w < workers) (n : Nat) : (turns workers n).count w = 3 * n + 1 := by
  rw [turns, List.count_flatten, List.map_replicate, count_range hw, List.sum_replicate_nat, Nat.mul_one]

end

/-! ## What is made of the reports -/

/-- All reports are passed on exactly if there is no failure. -/
theorem collect_eq_ok_iff {k : Nat} {l : List (Except Bytes Report)} {reports : List Report} :
    collect k (l.map some) = .ok reports ↔ l = reports.map .ok := by
  induction l generalizing k reports with
  | nil => cases reports <;> simp [collect]
  | cons outcome l ih =>
      cases outcome with
      | error reason => cases reports <;> simp [collect]
      | ok report =>
          cases reports with
          | nil => cases hrest : collect (k + 1) (l.map some) <;> simp [collect, hrest, Except.map]
          | cons report' reports =>
              simp only [List.map_cons, collect, List.cons.injEq, Except.ok.injEq]
              rw [← ih (k := k + 1)]
              cases collect (k + 1) (l.map some) <;> simp [Except.map]

/-- A failure is passed on exactly if the reports of all modules before it are there. -/
theorem collect_eq_error_iff {k index : Nat} {l : List (Except Bytes Report)} {reason : Bytes} :
    collect k (l.map some) = .error (index, reason) ↔
      ∃ before rest, l = List.map .ok before ++ .error reason :: rest ∧ index = k + before.length := by
  induction l generalizing k with
  | nil => simp [collect]
  | cons outcome l ih =>
      cases outcome with
      | error reason' =>
          constructor
          · intro h
            cases h
            exact ⟨[], l, rfl, rfl⟩
          · rintro ⟨before, rest, hl, rfl⟩
            cases before with
            | nil =>
                cases hl
                rfl
            | cons report before => cases hl
      | ok report =>
          -- A report in front takes the index one further and changes nothing else about a failure behind it.
          have hmap : collect k (List.map some (.ok report :: l)) = .error (index, reason) ↔
              collect (k + 1) (l.map some) = .error (index, reason) := by
            simp only [List.map_cons, collect]
            cases collect (k + 1) (l.map some) <;> simp [Except.map]
          rw [hmap, ih]
          constructor
          · rintro ⟨before, rest, rfl, rfl⟩
            exact ⟨report :: before, rest, rfl, by rw [List.length_cons]; omega⟩
          · rintro ⟨before, rest, hl, rfl⟩
            cases before with
            | nil => cases hl
            | cons report' before =>
                cases hl
                exact ⟨before, rest, rfl, by rw [List.length_cons]; omega⟩

/-- The modules and reports that are returned are those after the workers have taken turns. -/
theorem repairAll_eq (handlers : List Handler) (workers : Nat) (ms : List Module) :
    let b := (start workers ms).run handlers (turns workers ms.length)
    (repairAll handlers workers ms).modules = b.modules ∧
      (repairAll handlers workers ms).reports = (collect 0 b.reports).mapError (·.2) := by
  intro b
  unfold repairAll
  cases hcollect : collect 0 b.reports with
  | ok reports => exact ⟨by simp only [b, hcollect], by simp only [b, hcollect, Except.mapError]⟩
  | error failure => exact ⟨by simp only [b, hcollect], by simp only [b, hcollect, Except.mapError]⟩

end Batch

/-! ## The batch and its modules -/

/-- Whatever number of workers is wished for, there is one if there is a module. -/
theorem workerCount_pos (cores jobs : Nat) {modules : Nat} (h : 0 < modules) : 0 < workerCount cores jobs modules := by
  unfold workerCount
  refine Nat.lt_min.mpr ⟨?_, h⟩
  split
  · split
    · exact Nat.succ_pos 3
    · omega
  · omega

/-- **A batch is its modules repaired one by one**, whatever the order in which its workers make their steps. Take any
    table of handlers, list of modules, number of workers and schedule. The schedule runs until all workers have stopped
    if it gives each of them enough steps. And whenever all have stopped, every module has been repaired exactly once;
    the module and the report at each index are those that repairing that module alone gives; all reports are passed on
    if there is no failure, else the failure with the lowest index is; and this is what `repairAll` returns. -/
theorem batch_any_schedule (r : Registry) (ms : List Module) (workers : Nat) (hworkers : ms ≠ [] → 0 < workers)
    (schedule : List Nat) :
    let b := (Batch.start workers ms).run r.handlers schedule
    ((∀ w < workers, 3 * ms.length + 1 ≤ schedule.count w) → b.isOver = true) ∧
      (b.isOver = true →
        (Batch.repairs r.handlers (.start workers ms) schedule).Perm (List.range ms.length) ∧
          b.modules = ms.map (fun m => (r.repair m).module) ∧
          b.reports = ms.map (fun m => some (r.repair m).report) ∧
          (∀ reports, Batch.collect 0 b.reports = .ok reports ↔
            ms.map (fun m => (r.repair m).report) = reports.map .ok) ∧
          (∀ index reason, Batch.collect 0 b.reports = .error (index, reason) ↔
            ∃ before rest, ms.map (fun m => (r.repair m).report) = List.map .ok before ++ .error reason :: rest ∧
              index = before.length) ∧
          (r.repairAll workers ms).modules = b.modules ∧
          (r.repairAll workers ms).reports = (Batch.collect 0 b.reports).mapError (·.2)) := by
  intro b
  refine ⟨Batch.isOver_of_fair, fun hover => ?_⟩
  obtain ⟨hmodules, hreports, hdone⟩ := Batch.over_start hworkers hover
  have hoverTurns : ((Batch.start workers ms).run r.handlers (Batch.turns workers ms.length)).isOver = true :=
    Batch.isOver_of_fair fun w hw => Nat.le_of_eq (Batch.count_turns hw ms.length).symm
  obtain ⟨hmodules', hreports', -⟩ := Batch.over_start hworkers hoverTurns
  have hsome : b.reports = (ms.map fun m => (r.repair m).report).map some := by
    rw [List.map_map]
    exact hreports
  obtain ⟨hreturned, hpassed⟩ := Batch.repairAll_eq r.handlers workers ms
  refine ⟨hdone, hmodules, hreports, ?_, ?_, ?_, ?_⟩
  · intro reports
    rw [hsome, Batch.collect_eq_ok_iff]
  · intro index reason
    rw [hsome, Batch.collect_eq_error_iff]
    simp only [Nat.zero_add]
  · exact hreturned.trans (hmodules'.trans hmodules.symm)
  · rw [hreports, ← hreports']
    exact hpassed

/-- Two workers over three modules: the repair of the second module is given up, and the worker that had it goes on to
    the third while the other has not yet repaired the first. -/
theorem batch_any_schedule_sample :
    let r := (Registry.ofProfile .standard (Sample.profileOf [Sample.fieldMoved] [])).add
      ⟨.always, [], .probe ⟨.abort, ascii "nop", .dynamic, ascii "no"⟩⟩
    let ms := [[Sample.loadF], [Sample.loadF, ⟨.nop, .none⟩, Sample.loadF], [Sample.loadF]].map Sample.moduleOf
    let schedule := [0, 1, 1, 1, 1, 0, 1, 1, 1, 0, 0]
    let b := (Batch.start 2 ms).run r.handlers schedule
    (ms ≠ [] → 0 < 2) ∧ b.isOver = true ∧
      (Batch.repairs r.handlers (.start 2 ms) schedule = [1, 0, 2]) ∧
      b.modules = ms.map (fun m => (r.repair m).module) ∧
      Batch.collect 0 b.reports = .error (1, ascii "no") ∧
      (r.repairAll 2 ms).modules.map (·.instructions) =
        [[Sample.callGetP], [Sample.callGetP, ⟨.nop, .none⟩, Sample.loadF], [Sample.callGetP]] ∧
      (r.repairAll 2 ms).reports = .error (ascii "no") := by
  intro r ms schedule b
  have hover : b.isOver = true := by decide
  obtain ⟨-, hend⟩ := batch_any_schedule r ms 2 (fun _ => by decide) schedule
  obtain ⟨-, hmodules, -, -, herror, hsame, hreports⟩ := hend hover
  have hfailed : Batch.collect 0 b.reports = .error (1, ascii "no") :=
    (herror 1 (ascii "no")).mpr ⟨[⟨_, _, _, _, _, _⟩], [_], rfl, rfl⟩
  refine ⟨fun _ => by decide, hover, by decide, hmodules, hfailed, ?_, ?_⟩
  · rw [hsame]
    decide
  · rw [hreports, hfailed]
    rfl

end ModRepair
