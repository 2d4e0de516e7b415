import Mathlib.Data.List.Perm.Basic
import ModRepair.Repair.Registry

/-!
# Workers under any schedule

Workers take indices from a shared counter, in whatever order their steps fall. `Batch.Stage` says how far the module at
an index has come: it waits, is held by a worker, has been repaired and its report is carried, or all is done. One step
of one worker moves the module at one index on by one stage, at most, and leaves all others where they are.

* `Batch.Stage.frame` — what a step must leave alone for the stage of an index to stay;
* `Batch.Invariant.step`, `Batch.Invariant.run` — **the invariant** of a step and of a schedule.
-/

namespace ModRepair

/-- The index that a worker is busy with. -/
def Worker.index? : Worker → Option Nat
  | .holding index => some index
  | .carrying index _ => some index
  | _ => none

namespace Batch

/-! ## Steps -/

section

variable {handlers : List Handler} {b : Batch} {w : Nat}

theorem step_of_ready (hw : b.workers[w]? = some .ready) :
    b.step handlers w =
      { b with
        next := b.next + 1
        workers := b.workers.set w (if b.next < b.modules.length then .holding b.next else .stopped) } := by
  rw [step, hw]

theorem step_of_holding {i : Nat} {m : Module} (hw : b.workers[w]? = some (.holding i)) (hm : b.modules[i]? = some m) :
    b.step handlers w =
      { b with
        modules := b.modules.set i (repair handlers m).module
        workers := b.workers.set w (.carrying i (repair handlers m).report)
        log := b.log ++ (repair handlers m).log } := by
  rw [step, hw]
  simp only [hm]

theorem step_of_carrying {i : Nat} {report : Except Bytes Report}
    (hw : b.workers[w]? = some (.carrying i report)) :
    b.step handlers w =
      { b with
        reports := b.reports.set i (some report)
        workers := b.workers.set w .ready
        log := b.log ++ b.finishedRecords i report } := by
  rw [step, hw]

theorem step_of_stopped (hw : b.workers[w]? = some .stopped) : b.step handlers w = b := by
  rw [step, hw]

theorem step_of_none (hw : b.workers[w]? = none) : b.step handlers w = b := by
  rw [step, hw]

/-- A step sets the state of one worker, if any, and the counter never goes back. -/
theorem workers_step :
    ((b.step handlers w).workers = b.workers ∨ ∃ x, (b.step handlers w).workers = b.workers.set w x) ∧
      b.next ≤ (b.step handlers w).next := by
  unfold step
  split
  · exact ⟨.inr ⟨_, rfl⟩, Nat.le_succ b.next⟩
  · split
    · exact ⟨.inl rfl, Nat.le_refl b.next⟩
    · exact ⟨.inr ⟨_, rfl⟩, Nat.le_refl b.next⟩
  · exact ⟨.inr ⟨_, rfl⟩, Nat.le_refl b.next⟩
  · exact ⟨.inl rfl, Nat.le_refl b.next⟩
  · exact ⟨.inl rfl, Nat.le_refl b.next⟩

/-- A step of one worker leaves the others alone. -/
theorem getElem?_workers_step {w' : Nat} (hne : w ≠ w') :
    (b.step handlers w).workers[w']? = b.workers[w']? := by
  obtain ⟨hsame | ⟨x, hset⟩, -⟩ := @workers_step handlers b w
  · rw [hsame]
  · rw [hset, List.getElem?_set_ne hne]

theorem length_workers_step : (b.step handlers w).workers.length = b.workers.length := by
  obtain ⟨hsame | ⟨x, hset⟩, -⟩ := @workers_step handlers b w
  · rw [hsame]
  · rw [hset, List.length_set]

theorem length_workers_run (schedule : List Nat) :
    (b.run handlers schedule).workers.length = b.workers.length := by
  induction schedule generalizing b with
  | nil => rfl
  | cons w schedule ih => exact (ih (b := b.step handlers w)).trans length_workers_step

end

/-! ## Which modules are repaired, and when -/

/-- The index of the module that the next step of a worker repairs, if it repairs one. -/
def repairing? (b : Batch) (worker : Nat) : Option Nat :=
  match b.workers[worker]? with
  | some (.holding index) => some index
  | _ => none

/-- The indices of the modules that the steps of a schedule repair, in the order of the steps. -/
def repairs (handlers : List Handler) (b : Batch) : (schedule : List Nat) → List Nat
  | [] => []
  | worker :: schedule => (b.repairing? worker).toList ++ repairs handlers (b.step handlers worker) schedule

/-! ## Stages -/

/-- No worker is busy with an index. -/
def Free (b : Batch) (i : Nat) : Prop :=
  ∀ (w : Nat) (x : Worker), b.workers[w]? = some x → x.index? ≠ some i

/-- No worker but one is busy with an index. -/
def OnlyBy (b : Batch) (w i : Nat) : Prop :=
  ∀ (w' : Nat) (x : Worker), b.workers[w']? = some x → x.index? = some i → w' = w

/-- **How far the module `m` at the index `i` has come** in a batch whose workers have repaired the modules at the
    indices `done` so far. -/
inductive Stage (handlers : List Handler) (m : Module) (done : List Nat) (b : Batch) (i : Nat) : Prop
  /-- The counter has not come to it. -/
  | waiting (counter : b.next ≤ i) (free : b.Free i) (module : b.modules[i]? = some m)
      (report : b.reports[i]? = some none) (times : done.count i = 0)
  /-- A worker has taken it. -/
  | held (w : Nat) (counter : i < b.next) (worker : b.workers[w]? = some (.holding i)) (only : b.OnlyBy w i)
      (module : b.modules[i]? = some m) (report : b.reports[i]? = some none) (times : done.count i = 0)
  /-- A worker has repaired it and not yet handed in the report. -/
  | carried (w : Nat) (counter : i < b.next)
      (worker : b.workers[w]? = some (.carrying i (repair handlers m).report)) (only : b.OnlyBy w i)
      (module : b.modules[i]? = some (repair handlers m).module) (report : b.reports[i]? = some none)
      (times : done.count i = 1)
  /-- The report is there. -/
  | filed (counter : i < b.next) (free : b.Free i) (module : b.modules[i]? = some (repair handlers m).module)
      (report : b.reports[i]? = some (some (repair handlers m).report)) (times : done.count i = 1)

section

variable {handlers : List Handler} {m : Module} {done done' : List Nat} {b b' : Batch} {i w : Nat}

/-- **The stage of an index stays** if its place in both lists does, the counter does not pass it, and the workers that
    are busy with it are the same in the same states. -/
theorem Stage.frame (h : Stage handlers m done b i) (hcounter : b'.next ≤ i ↔ b.next ≤ i)
    (hmodule : b'.modules[i]? = b.modules[i]?) (hreport : b'.reports[i]? = b.reports[i]?)
    (htimes : done'.count i = done.count i)
    (hworkers : ∀ (w : Nat) (x : Worker), x.index? = some i → (b'.workers[w]? = some x ↔ b.workers[w]? = some x)) :
    Stage handlers m done' b' i := by
  have hfree : b.Free i → b'.Free i := fun free w x hx hi => free w x ((hworkers w x hi).mp hx) hi
  have honly : ∀ w, b.OnlyBy w i → b'.OnlyBy w i := fun w only w' x hx hi => only w' x ((hworkers w' x hi).mp hx) hi
  cases h with
  | waiting counter free module report times =>
      exact .waiting (hcounter.mpr counter) (hfree free) (hmodule.trans module) (hreport.trans report)
        (htimes.trans times)
  | held w counter worker only module report times =>
      exact .held w (by omega) ((hworkers w _ rfl).mpr worker) (honly w only) (hmodule.trans module)
        (hreport.trans report) (htimes.trans times)
  | carried w counter worker only module report times =>
      exact .carried w (by omega) ((hworkers w _ rfl).mpr worker) (honly w only) (hmodule.trans module)
        (hreport.trans report) (htimes.trans times)
  | filed counter free module report times =>
      exact .filed (by omega) (hfree free) (hmodule.trans module) (hreport.trans report) (htimes.trans times)

/-- An index that a worker holds is at the second stage. -/
theorem Stage.of_holding (h : Stage handlers m done b i) (hw : b.workers[w]? = some (.holding i)) :
    i < b.next ∧ b.OnlyBy w i ∧ b.modules[i]? = some m ∧ b.reports[i]? = some none ∧ done.count i = 0 := by
  cases h with
  | waiting counter free module report times => exact absurd rfl (free w _ hw)
  | held w' counter worker only module report times =>
      have hsame : w = w' := only w _ hw rfl
      exact ⟨counter, hsame ▸ only, module, report, times⟩
  | carried w' counter worker only module report times =>
      rw [only w _ hw rfl, worker] at hw
      cases hw
  | filed counter free module report times => exact absurd rfl (free w _ hw)

/-- An index whose report a worker carries is at the third stage, and the report is that of its module. -/
theorem Stage.of_carrying {report : Except Bytes Report} (h : Stage handlers m done b i)
    (hw : b.workers[w]? = some (.carrying i report)) :
    i < b.next ∧ b.OnlyBy w i ∧ b.modules[i]? = some (repair handlers m).module ∧ b.reports[i]? = some none ∧
      done.count i = 1 ∧ report = (repair handlers m).report := by
  cases h with
  | waiting counter free module report times => exact absurd rfl (free w _ hw)
  | held w' counter worker only module report times =>
      rw [only w _ hw rfl, worker] at hw
      cases hw
  | carried w' counter worker only module report times =>
      have hsame : w = w' := only w _ hw rfl
      rw [hsame, worker] at hw
      cases hw
      exact ⟨counter, hsame ▸ only, module, report, times, rfl⟩
  | filed counter free module report times => exact absurd rfl (free w _ hw)

/-- An index that the counter has passed and no worker is busy with is at the last stage. -/
theorem Stage.of_free (h : Stage handlers m done b i) (hcounter : i < b.next) (hfree : b.Free i) :
    b.modules[i]? = some (repair handlers m).module ∧ b.reports[i]? = some (some (repair handlers m).report) ∧
      done.count i = 1 := by
  cases h with
  | waiting counter free module report times => omega
  | held w counter worker only module report times => exact absurd rfl (hfree w _ worker)
  | carried w counter worker only module report times => exact absurd rfl (hfree w _ worker)
  | filed counter free module report times => exact ⟨module, report, times⟩

end

/-! ## The invariant -/

/-- **The invariant of a batch** of the modules `ms` whose workers have repaired those at the indices `done`. -/
structure Invariant (handlers : List Handler) (ms : List Module) (done : List Nat) (b : Batch) : Prop where
  modules : b.modules.length = ms.length
  reports : b.reports.length = ms.length
  stage : ∀ (i : Nat) (m : Module), ms[i]? = some m → Stage handlers m done b i
  busy : ∀ (w : Nat) (x : Worker) (i : Nat), b.workers[w]? = some x → x.index? = some i → i < ms.length
  stopped : ∀ w : Nat, b.workers[w]? = some Worker.stopped → ms.length ≤ b.next
  done : ∀ i ∈ done, i < ms.length

section

variable {handlers : List Handler} {ms : List Module} {done : List Nat} {b : Batch} {w i : Nat}

/-- At the start all workers are ready. -/
theorem eq_ready_of_start {workers : Nat} {x : Worker} (hw : (start workers ms).workers[w]? = some x) :
    w < workers ∧ x = .ready := by
  obtain ⟨hlt, -⟩ := List.getElem?_eq_some_iff.mp hw
  exact ⟨by simpa [start] using hlt, List.eq_of_mem_replicate (List.mem_of_getElem? hw)⟩

theorem start_invariant (workers : Nat) : Invariant handlers ms [] (start workers ms) := by
  refine ⟨rfl, List.length_map .., ?_, ?_, ?_, by simp⟩
  · intro i m hm
    refine .waiting (Nat.zero_le i) ?_ hm ?_ rfl
    · intro w x hx
      rw [(eq_ready_of_start hx).2]
      exact nofun
    · show (ms.map fun _ => none)[i]? = some none
      rw [List.getElem?_map, hm]
      rfl
  · intro w x i hx hi
    rw [(eq_ready_of_start hx).2] at hi
    cases hi
  · intro w hw
    cases (eq_ready_of_start hw).2

/-- The worker that has made a step is in its new state. -/
theorem getElem?_set_worker {x : Worker} (hw : b.workers[w]? = some x) (y : Worker) :
    (b.workers.set w y)[w]? = some y :=
  List.getElem?_set_self (List.getElem?_eq_some_iff.mp hw).1

/-- A worker whose state is set is the one that made the step, or it is as before. -/
theorem eq_or_of_getElem?_set {ws : List Worker} {y z : Worker} {w' : Nat} (h : (ws.set w y)[w']? = some z) :
    w' = w ∧ z = y ∨ w' ≠ w ∧ ws[w']? = some z := by
  by_cases hne : w = w'
  · subst hne
    rw [List.getElem?_set_self'] at h
    obtain ⟨-, -, rfl⟩ := Option.map_eq_some_iff.mp h
    exact .inl ⟨rfl, rfl⟩
  · rw [List.getElem?_set_ne hne] at h
    exact .inr ⟨Ne.symm hne, h⟩

/-- The workers that are busy with an index stay as they are when one that is not goes on to another state in which it
    is not. -/
theorem busy_set_iff {x y : Worker} (hw : b.workers[w]? = some x) (hx : x.index? ≠ some i) (hy : y.index? ≠ some i)
    (w' : Nat) (z : Worker) (hz : z.index? = some i) :
    (b.workers.set w y)[w']? = some z ↔ b.workers[w']? = some z := by
  by_cases hne : w = w'
  · subst hne
    rw [getElem?_set_worker hw, hw]
    refine iff_of_false ?_ ?_
    · rintro ⟨⟩
      exact hy hz
    · rintro ⟨⟩
      exact hx hz
  · rw [List.getElem?_set_ne hne]

/-- A worker that takes the next index. -/
theorem Invariant.ready (h : Invariant handlers ms done b) (hw : b.workers[w]? = some .ready) :
    Invariant handlers ms done (b.step handlers w) := by
  rw [step_of_ready hw]
  -- The worker takes the index of the counter if there is a module, and stops if there is none.
  generalize hy : (if b.next < b.modules.length then Worker.holding b.next else .stopped) = y
  have hindex : ∀ i, y.index? = some i → i = b.next ∧ b.next < ms.length := by
    intro i hi
    rw [← hy, h.modules] at hi
    split at hi
    · next hlt =>
        cases hi
        exact ⟨rfl, hlt⟩
    · cases hi
  refine ⟨h.modules, h.reports, ?_, ?_, ?_, h.done⟩
  · intro i m hm
    have hi : i < ms.length := (List.getElem?_eq_some_iff.mp hm).1
    by_cases hnext : i = b.next
    · -- Only the first stage is left: in all others the counter has passed the index.
      have hheld : y = .holding i := by
        rw [← hy, h.modules, ← hnext, if_pos hi]
      cases h.stage i m hm with
      | waiting counter free module report times =>
          refine .held w (by simp only; omega) (by rw [← hheld]; exact getElem?_set_worker hw y) ?_ module report times
          intro w' x hx hxi
          rcases eq_or_of_getElem?_set hx with ⟨rfl, -⟩ | ⟨-, hx⟩
          · rfl
          · exact absurd hxi (free w' x hx)
      | held w' counter worker only module report times => omega
      | carried w' counter worker only module report times => omega
      | filed counter free module report times => omega
    · refine (h.stage i m hm).frame (by simp only; omega) rfl rfl rfl ?_
      exact busy_set_iff hw nofun fun hyi => hnext (hindex i hyi).1
  · intro w' x i hx hi
    rcases eq_or_of_getElem?_set hx with ⟨-, rfl⟩ | ⟨-, hx⟩
    · obtain ⟨rfl, hlt⟩ := hindex i hi
      exact hlt
    · exact h.busy w' x i hx hi
  · intro w' hw'
    rcases eq_or_of_getElem?_set hw' with ⟨-, hstopped⟩ | ⟨-, hw'⟩
    · rw [← hy, h.modules] at hstopped
      split at hstopped
      · cases hstopped
      · simp only
        omega
    · exact Nat.le_succ_of_le (h.stopped w' hw')

/-- A worker that repairs the module at the index it has taken. -/
theorem Invariant.holding (h : Invariant handlers ms done b) (hw : b.workers[w]? = some (.holding i)) :
    Invariant handlers ms (done ++ [i]) (b.step handlers w) := by
  have hi : i < ms.length := h.busy w _ i hw rfl
  have hm : ms[i]? = some ms[i] := List.getElem?_eq_getElem hi
  obtain ⟨counter, only, module, report, times⟩ := (h.stage i _ hm).of_holding hw
  rw [step_of_holding hw module]
  refine ⟨by rw [List.length_set, h.modules], h.reports, ?_, ?_, ?_, ?_⟩
  · intro j m hj
    by_cases hne : i = j
    · subst hne
      rw [hm] at hj
      cases hj
      refine .carried w counter (getElem?_set_worker hw _) ?_ ?_ report (by rw [List.count_append, times]; simp)
      · intro w' x hx hxi
        rcases eq_or_of_getElem?_set hx with ⟨rfl, -⟩ | ⟨-, hx⟩
        · rfl
        · exact only w' x hx hxi
      · exact List.getElem?_set_self (by rw [h.modules]; exact hi)
    · have hother : ∀ x : Worker, x.index? = some i → x.index? ≠ some j := by
        intro x hx hxj
        rw [hx] at hxj
        exact hne (Option.some.inj hxj)
      refine (h.stage j m hj).frame Iff.rfl (List.getElem?_set_ne hne) rfl ?_
        (busy_set_iff hw (hother _ rfl) (hother _ rfl))
      rw [List.count_append, List.count_singleton, if_neg (by simpa using hne), Nat.add_zero]
  · intro w' x j hx hj
    rcases eq_or_of_getElem?_set hx with ⟨-, rfl⟩ | ⟨-, hx⟩
    · cases hj
      exact hi
    · exact h.busy w' x j hx hj
  · intro w' hw'
    rcases eq_or_of_getElem?_set hw' with ⟨-, hstopped⟩ | ⟨-, hw'⟩
    · cases hstopped
    · exact h.stopped w' hw'
  · intro j hj
    rcases List.mem_append.mp hj with hj | hj
    · exact h.done j hj
    · rw [List.mem_singleton.mp hj]
      exact hi

/-- A worker that hands in a report. -/
theorem Invariant.carrying {report : Except Bytes Report} (h : Invariant handlers ms done b)
    (hw : b.workers[w]? = some (.carrying i report)) : Invariant handlers ms done (b.step handlers w) := by
  have hi : i < ms.length := h.busy w _ i hw rfl
  have hm : ms[i]? = some ms[i] := List.getElem?_eq_getElem hi
  obtain ⟨counter, only, module, -, times, rfl⟩ := (h.stage i _ hm).of_carrying hw
  rw [step_of_carrying hw]
  refine ⟨h.modules, by rw [List.length_set, h.reports], ?_, ?_, ?_, h.done⟩
  · intro j m hj
    by_cases hne : i = j
    · subst hne
      rw [hm] at hj
      cases hj
      refine .filed counter ?_ module (List.getElem?_set_self (by rw [h.reports]; exact hi)) times
      intro w' x hx hxi
      rcases eq_or_of_getElem?_set hx with ⟨-, rfl⟩ | ⟨hother, hx⟩
      · cases hxi
      · exact hother (only w' x hx hxi)
    · refine (h.stage j m hj).frame Iff.rfl rfl (List.getElem?_set_ne hne) rfl
        (busy_set_iff hw (fun hj => hne (Option.some.inj hj)) nofun)
  · intro w' x j hx hj
    rcases eq_or_of_getElem?_set hx with ⟨-, rfl⟩ | ⟨-, hx⟩
    · cases hj
    · exact h.busy w' x j hx hj
  · intro w' hw'
    rcases eq_or_of_getElem?_set hw' with ⟨-, hstopped⟩ | ⟨-, hw'⟩
    · cases hstopped
    · exact h.stopped w' hw'

/-- **The invariant of one step**, of whichever worker. -/
theorem Invariant.step (h : Invariant handlers ms done b) (w : Nat) :
    Invariant handlers ms (done ++ (b.repairing? w).toList) (b.step handlers w) := by
  unfold repairing?
  cases hw : b.workers[w]? with
  | none =>
      rw [step_of_none hw]
      simpa using h
  | some x =>
      cases x with
      | ready => simpa using h.ready hw
      | holding i => exact h.holding hw
      | carrying i report => simpa using h.carrying hw
      | stopped =>
          rw [step_of_stopped hw]
          simpa using h

/-- **The invariant of a schedule**, by induction on its steps. -/
theorem Invariant.run (h : Invariant handlers ms done b) (schedule : List Nat) :
    Invariant handlers ms (done ++ repairs handlers b schedule) (b.run handlers schedule) := by
  induction schedule generalizing done b with
  | nil => simpa [repairs, Batch.run] using h
  | cons w schedule ih =>
      have hrest := ih (h.step w)
      rw [List.append_assoc] at hrest
      exact hrest

end

end Batch

end ModRepair
