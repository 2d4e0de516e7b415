import Mathlib.Data.List.Forall2
import ModRepair.Command.Run
import ModRepair.Proofs.Command.Logging
import ModRepair.Proofs.Repair.Batch
import ModRepair.Proofs.Repair.Completion
import ModRepair.Proofs.Repair.Table
import ModRepair.Proofs.Storage.Stream

/-!
# What publication does

* `prepareOutput_frame` — getting the destination ready leaves all files alone;
* `Inputs.repairAll_eq` — the modules and reports are those of the modules one by one, with any number of workers;
* `Truncated`, `Noticed` — a lack of room for a module, and the one that a run learns of;
* `Writes`, `Passes`, `Stops`, `publish_cases` — **the modules are written in order**, all of them or up to the first
  whose file cannot be opened or has too little room for that to go unnoticed.
-/

namespace ModRepair.Command

open Storage (Files Place Stream)
open Storage.Files (Keeps)

theorem run_eq_runRepair {cores : Nat} {o : Options} {s : Session} (hhelp : o.help = false)
    (hversion : o.version = false) : run cores o s = runRepair cores o s := by
  rw [run, hhelp, hversion]
  rfl

/-! ## Preparation -/

/-- **Getting the destination ready** leaves all files alone, and the streams. -/
theorem prepareOutput_frame {o : Options} {inputs : Inputs} {s s' : Session} {result : Except DestinationFault Unit}
    (h : prepareOutput o inputs s = (s', result)) :
    (∀ apart, Keeps apart s.files s'.files) ∧ s'.logPlace = s.logPlace ∧ s'.stdout = s.stdout := by
  have hkeeps : ∀ d names apart, Keeps apart s.files (Destination.prepare d names s.files).1 := by
    intro d names apart
    unfold Destination.prepare
    split
    · exact .refl apart _
    · next path =>
        split
        · exact .refl apart _
        · have hmade : Keeps apart s.files (s.files.makeDirectories path).1 := Storage.Files.keeps_makeDirectories
          split
          · next files hfiles => rwa [hfiles] at hmade
          · next files fault hfiles => rwa [hfiles] at hmade
  unfold prepareOutput at h
  split at h
  · cases h
    exact ⟨fun apart => .refl apart _, rfl, rfl⟩
  · next path =>
      cases h
      exact ⟨hkeeps _ _, rfl, rfl⟩

/-! ## Repair -/

section

variable (options : RepairOptions) (inputs : Inputs)

/-- The table that the modules are repaired with. -/
def Inputs.registry : Registry :=
  .ofProfile options inputs.profile

/-- The modules as a run leaves them. -/
def Inputs.repaired : List Module :=
  inputs.modules.map fun m => ((inputs.registry options).repair m).module

/-- The reports on the modules, in their order. -/
def Inputs.reports : List Report :=
  inputs.modules.map (reportOn (inputs.registry options).handlers)

theorem Inputs.repair_eq (m : Module) :
    ((inputs.registry options).repair m).module = settled (inputs.registry options).handlers m ∧
      ((inputs.registry options).repair m).report = .ok (reportOn (inputs.registry options).handlers m) :=
  repair_reports (Registry.not_mayAbort_ofProfile options inputs.profile) m

/-- Repairing a module by itself gives its report. -/
theorem Inputs.forall₂_reports :
    List.Forall₂ (fun m report => ((inputs.registry options).repair m).report = .ok report) inputs.modules
      (inputs.reports options) :=
  List.forall₂_map_right_iff.mpr (List.forall₂_same.mpr fun m _ => (inputs.repair_eq options m).2)

/-- Any number of workers gives the repaired modules and their reports. -/
theorem Inputs.repairAll_eq (workers : Nat) (hworkers : inputs.modules ≠ [] → 0 < workers) :
    ((inputs.registry options).repairAll workers inputs.modules).modules = inputs.repaired options ∧
      ((inputs.registry options).repairAll workers inputs.modules).reports = .ok (inputs.reports options) := by
  have hover : ((Batch.start workers inputs.modules).run (inputs.registry options).handlers
      (Batch.turns workers inputs.modules.length)).isOver = true :=
    Batch.isOver_of_fair fun w hw => Nat.le_of_eq (Batch.count_turns hw inputs.modules.length).symm
  obtain ⟨hmodules, hreports, -⟩ := Batch.over_start hworkers hover
  obtain ⟨hreturned, hpassed⟩ := Batch.repairAll_eq (inputs.registry options).handlers workers inputs.modules
  refine ⟨hreturned.trans hmodules, hpassed.trans ?_⟩
  rw [hreports]
  have hcollect : Batch.collect 0 ((inputs.modules.map fun m =>
      (ModRepair.repair (inputs.registry options).handlers m).report).map some) = .ok (inputs.reports options) := by
    rw [Batch.collect_eq_ok_iff, Inputs.reports, List.map_map]
    exact List.map_congr_left fun m _ => (inputs.repair_eq options m).2
  rw [List.map_map] at hcollect
  exact congrArg (Except.mapError (·.2)) hcollect

end

/-! ## Publication -/

/-- Writes a module to its file as far as there is room, if there is a destination. -/
def placeModule (destination : Option Destination) (m : Module) (files : Files) : Except Storage.Fault Files :=
  match destination with
  | none => .ok files
  | some d => files.write (d.pathFor m.name) (Interchange.moduleDocument m)

/-- A module for whose document there is not room enough. -/
def Truncated (destination : Option Destination) (m : Module) (files : Files) : Prop :=
  ∃ d place, destination = some d ∧ files.filePlace (d.pathFor m.name) = .ok place ∧
    ¬ Stream.Fits files place (Interchange.moduleJson m).document

/-- A lack of room for a module that is noticed, for it shows before the module's file is closed. -/
def Noticed (destination : Option Destination) (m : Module) (files : Files) : Prop :=
  ∃ d place, destination = some d ∧ files.filePlace (d.pathFor m.name) = .ok place ∧
    Stream.Short files place (Interchange.moduleJson m).document

/-- Modules are written to a destination one after another, each as far as there is room and with files as required; in
between only the log file grows. -/
inductive Placed (required : Module → Files → Prop) (log : Option Place) (destination : Option Destination) :
    Files → List Module → Files → Prop
  | none {files files' : Files} (grown : Grown log files files') : Placed required log destination files [] files'
  | cons {files files₁ files₂ files' : Files} {m : Module} {ms : List Module} (grown : Grown log files files₁)
      (meets : required m files₁) (written : placeModule destination m files₁ = .ok files₂)
      (rest : Placed required log destination files₂ ms files') : Placed required log destination files (m :: ms) files'

/-- **Modules are written** to a destination one after another. -/
abbrev Writes (log : Option Place) (destination : Option Destination) : Files → List Module → Files → Prop :=
  Placed (fun _ _ => True) log destination

/-- **Modules are written**, and no lack of room is noticed. -/
abbrev Passes (log : Option Place) (destination : Option Destination) : Files → List Module → Files → Prop :=
  Placed (fun m files => ¬ Noticed destination m files) log destination

/-- **Writing stops** at the first module whose file cannot be opened, or for which a lack of room is noticed; then it
has been written as far as there is room. Those before it have been written, and none behind it. -/
def Stops (log : Option Place) (destination : Option Destination) (files : Files) (ms : List Module) (files' : Files) :
    Prop :=
  ∃ before m after files₁, ms = before ++ m :: after ∧ Passes log destination files before files₁ ∧
    ((files' = files₁ ∧ ∃ fault, placeModule destination m files₁ = .error fault) ∨
      (placeModule destination m files₁ = .ok files' ∧ Noticed destination m files₁))

section

variable {required : Module → Files → Prop} {log : Option Place} {destination : Option Destination}
  {files files' files'' : Files} {ms ms' : List Module}

theorem Placed.grown_left (h : Grown log files files') (hplaced : Placed required log destination files' ms files'') :
    Placed required log destination files ms files'' := by
  cases hplaced with
  | none grown => exact .none (h.trans grown)
  | cons grown meets written rest => exact .cons (h.trans grown) meets written rest

/-- Modules that are written with files as required are written. -/
theorem Placed.writes (h : Placed required log destination files ms files') :
    Writes log destination files ms files' := by
  induction h with
  | none grown => exact .none grown
  | cons grown _ written _ ih => exact .cons grown trivial written ih

/-- One more module is written behind others. -/
theorem Placed.concat {m : Module} (h : Placed required log destination files ms files')
    (hmeets : required m files') (hwritten : placeModule destination m files' = .ok files'') :
    Placed required log destination files (ms ++ [m]) files'' := by
  induction h with
  | none grown => exact .cons grown hmeets hwritten (.none .refl)
  | cons grown meets written _ ih => exact .cons grown meets written (ih hmeets hwritten)

theorem Stops.grown_left (h : Grown log files files') (hstops : Stops log destination files' ms files'') :
    Stops log destination files ms files'' := by
  obtain ⟨before, m, after, files₁, hms, hpasses, hlast⟩ := hstops
  exact ⟨before, m, after, files₁, hms, hpasses.grown_left h, hlast⟩

/-- Where writing stops, a first part of the modules has been written. -/
theorem Stops.writes (h : Stops log destination files ms files') :
    ∃ written, written <+: ms ∧ Writes log destination files written files' := by
  obtain ⟨before, m, after, files₁, rfl, hpasses, ⟨rfl, -⟩ | ⟨hwritten, -⟩⟩ := h
  · exact ⟨before, List.prefix_append _ _, hpasses.writes⟩
  · exact ⟨before ++ [m], ⟨after, List.append_assoc _ _ _⟩, hpasses.writes.concat trivial hwritten⟩

/-- **Writing a module** fails if its file cannot be opened; else the module has been written as far as there is room,
    and it fails if a lack of room is noticed. -/
theorem writeModule_cases (destination : Option Destination) (m : Module) (s : Session) :
    (∃ fault, writeModule destination m s = (s, .error fault) ∧
        ∃ fault', placeModule destination m s.files = .error fault') ∨
      ∃ files, placeModule destination m s.files = .ok files ∧
        ((∃ fault, writeModule destination m s = ({ s with files }, .error fault) ∧ Noticed destination m s.files) ∨
          ∃ s', writeModule destination m s = (s', .ok ()) ∧ ({ s with files } : Session).Logs s' ∧
            ¬ Noticed destination m s.files) := by
  unfold writeModule placeModule
  cases destination with
  | none => exact .inr ⟨s.files, rfl, .inr ⟨s, rfl, .refl s, fun ⟨_, _, hnone, _⟩ => nomatch hnone⟩⟩
  | some d =>
      unfold Files.write
      simp only
      cases hplace : s.files.filePlace (d.pathFor m.name) with
      | error fault => exact .inl ⟨_, rfl, fault, rfl⟩
      | ok place =>
          have hroot : place ≠ [] := Storage.Files.ne_root_of_filePlace hplace
          obtain ⟨hfiles, hfailed⟩ := @Stream.writeLine_eq s.files place (Interchange.moduleJson m).document hroot
          have hnoticed : Noticed (some d) m s.files ↔
              Stream.Short s.files place (Interchange.moduleJson m).document := by
            constructor
            · rintro ⟨d', place', hd, hplace', hshort⟩
              cases hd
              rw [hplace] at hplace'
              cases hplace'
              exact hshort
            · exact fun hshort => ⟨d, place, rfl, hplace, hshort⟩
          refine .inr ⟨_, rfl, ?_⟩
          rw [← hnoticed] at hfailed
          simp only [hfiles]
          split
          · next hfail => exact .inl ⟨_, rfl, hfailed.mp hfail⟩
          · next hfail => exact .inr ⟨_, rfl, Session.logs_log _ _, fun h => hfail (hfailed.mpr h)⟩

theorem writeModule_ok {m : Module} {s s' : Session} (h : writeModule destination m s = (s', .ok ())) :
    ¬ Noticed destination m s.files ∧
      ∃ files, placeModule destination m s.files = .ok files ∧ ({ s with files } : Session).Logs s' := by
  rcases writeModule_cases destination m s with
    ⟨fault, heq, -⟩ | ⟨files, hplace, ⟨fault, heq, -⟩ | ⟨s₁, heq, hlogs, hn⟩⟩
  · rw [heq] at h
    cases h
  · rw [heq] at h
    cases h
  · rw [heq] at h
    cases h
    exact ⟨hn, files, hplace, hlogs⟩

theorem writeModule_error {m : Module} {s s' : Session} {fault : DestinationFault}
    (h : writeModule destination m s = (s', .error fault)) :
    (s' = s ∧ ∃ fault', placeModule destination m s.files = .error fault') ∨
      (placeModule destination m s.files = .ok s'.files ∧ Noticed destination m s.files) := by
  rcases writeModule_cases destination m s with ⟨fault, heq, hopen⟩ | ⟨files, hplace, ⟨fault, heq, hn⟩ | ⟨s₁, heq, -⟩⟩
  · rw [heq] at h
    cases h
    exact .inl ⟨rfl, hopen⟩
  · rw [heq] at h
    cases h
    exact .inr ⟨hplace, hn⟩
  · rw [heq] at h
    cases h

end

section

variable {o : Options} {destination : Option Destination} {s s' : Session} {entries : List (Module × Report)}

/-- What comes before a module is written: its report goes to the log, and what is printed of it to the output. -/
theorem logs_announce (s : Session) (report : Report) (text : Bytes) :
    Grown s.logPlace s.files ((s.logAll report.records).print text).files ∧
      ((s.logAll report.records).print text).logPlace = s.logPlace ∧
        ((s.logAll report.records).print text).stdout.text = s.stdout.text ++ text := by
  have hlogs := s.logs_logAll report.records
  refine ⟨hlogs.files, hlogs.logPlace, ?_⟩
  rw [Session.print, Transcript.text_write, hlogs.stdout]

/-- A module that is announced and written comes before those that are written after it. -/
theorem Placed.announced {m : Module} {report : Report} {text : Bytes} {ms : List Module} {files : Files}
    (hwrite : writeModule destination m ((s.logAll report.records).print text) = (s', .ok ()))
    (hpasses : Passes s'.logPlace destination s'.files ms files) :
    Passes s.logPlace destination s.files (m :: ms) files := by
  obtain ⟨hgrown, hplace, -⟩ := logs_announce s report text
  obtain ⟨hunnoticed, written, hwritten, hlogs⟩ := writeModule_ok hwrite
  have hsame : s'.logPlace = s.logPlace := hlogs.logPlace.trans hplace
  refine .cons hgrown hunnoticed hwritten (Placed.grown_left ?_ (hsame ▸ hpasses))
  rw [← hplace]
  exact hlogs.files

/-- If no module is in the way, all are written and printed. -/
theorem publishEach_ok (h : publishEach o destination entries s = (s', .ok ())) :
    Passes s.logPlace destination s.files (entries.map (·.1)) s'.files ∧
      s'.stdout.text = s.stdout.text ++ entries.flatMap fun e => printed o e.1 e.2 := by
  induction entries generalizing s with
  | nil =>
      cases h
      exact ⟨.none .refl, by simp⟩
  | cons e entries ih =>
      obtain ⟨m, report⟩ := e
      rw [publishEach] at h
      split at h
      · cases h
      · next s₁ hwrite =>
          obtain ⟨hpasses, hrest⟩ := ih h
          obtain ⟨-, -, htext⟩ := logs_announce s report (printed o m report)
          obtain ⟨-, files, -, hlogs⟩ := writeModule_ok hwrite
          refine ⟨hpasses.announced hwrite, ?_⟩
          rw [hrest, hlogs.stdout, List.flatMap_cons, ← List.append_assoc]
          exact congrArg (· ++ _) htext

/-- If one is in the way, those before it are written. -/
theorem publishEach_error {fault : DestinationFault} (h : publishEach o destination entries s = (s', .error fault)) :
    Stops s.logPlace destination s.files (entries.map (·.1)) s'.files := by
  induction entries generalizing s with
  | nil => cases h
  | cons e entries ih =>
      obtain ⟨m, report⟩ := e
      rw [publishEach] at h
      split at h
      · next s₁ fault' hwrite =>
          cases h
          obtain ⟨hgrown, -, -⟩ := logs_announce s report (printed o m report)
          refine ⟨[], m, entries.map (·.1), _, rfl, .none hgrown, ?_⟩
          rcases writeModule_error hwrite with ⟨rfl, hopen⟩ | hnoticed
          · exact .inl ⟨rfl, hopen⟩
          · exact .inr hnoticed
      · next s₁ hwrite =>
          obtain ⟨before, m', after, files₁, hms, hpasses, hlast⟩ := ih h
          exact ⟨m :: before, m', after, files₁, by rw [List.map_cons, hms]; rfl, hpasses.announced hwrite, hlast⟩

/-- **Publication** writes and prints everything, or stops at a module that is in the way. -/
theorem publish_cases {modules : List Module} {reports : List Report} {ending : Ending}
    (hlength : modules.length = reports.length) (h : publish o destination modules reports s = (s', ending)) :
    (ending = .ofReports reports ∧ Passes s.logPlace destination s.files modules s'.files ∧
        s'.stdout.text = s.stdout.text ++ ((modules.zip reports).flatMap fun e => printed o e.1 e.2) ++
          if o.format = .json then reportsDocument reports else []) ∨
      ending = .failed ∧ Stops s.logPlace destination s.files modules s'.files := by
  have hmodules : (modules.zip reports).map (·.1) = modules := List.map_fst_zip (Nat.le_of_eq hlength)
  unfold publish at h
  split at h
  · next s₁ fault hpublish =>
      cases h
      have hstops := publishEach_error hpublish
      rw [hmodules] at hstops
      exact .inr ⟨rfl, hstops⟩
  · next s₁ hpublish =>
      cases h
      obtain ⟨hpasses, htext⟩ := publishEach_ok hpublish
      rw [hmodules] at hpasses
      refine .inl ⟨rfl, ?_, ?_⟩
      · split <;> exact hpasses
      · rw [← htext]
        split
        · rw [Session.print, Transcript.text_write]
        · rw [List.append_nil]

/-- Repair comes down to the publication of the repaired modules with their reports, after some records for the log. -/
theorem repairAndPublish_eq (cores : Nat) (o : Options) (destination : Option Destination) (inputs : Inputs)
    (s : Session) : ∃ records, repairAndPublish cores o destination inputs s =
      publish o destination (inputs.repaired o.repair) (inputs.reports o.repair) (s.logAll records) := by
  obtain ⟨hmodules, hreports⟩ := inputs.repairAll_eq o.repair (workerCount cores o.jobs inputs.modules.length)
    fun hne => workerCount_pos cores o.jobs (List.length_pos_iff.mpr hne)
  unfold Inputs.registry at hmodules hreports
  unfold repairAndPublish
  simp only
  rw [hreports, hmodules]
  exact ⟨_, rfl⟩

theorem Inputs.length_repaired (inputs : Inputs) (options : RepairOptions) :
    (inputs.repaired options).length = (inputs.reports options).length := by
  rw [Inputs.repaired, Inputs.reports, List.length_map, List.length_map]

/-- **Repair and publication**: the repaired modules are written, and their reports decide on the ending. -/
theorem repairAndPublish_cases {cores : Nat} {inputs : Inputs} {ending : Ending}
    (h : repairAndPublish cores o destination inputs s = (s', ending)) :
    (ending = .ofReports (inputs.reports o.repair) ∧
        Passes s.logPlace destination s.files (inputs.repaired o.repair) s'.files ∧
        s'.stdout.text = s.stdout.text ++
          (((inputs.repaired o.repair).zip (inputs.reports o.repair)).flatMap fun e => printed o e.1 e.2) ++
          if o.format = .json then reportsDocument (inputs.reports o.repair) else []) ∨
      ending = .failed ∧ Stops s.logPlace destination s.files (inputs.repaired o.repair) s'.files := by
  obtain ⟨records, hpublish⟩ := repairAndPublish_eq cores o destination inputs s
  rw [hpublish] at h
  have hlogs := s.logs_logAll records
  rcases publish_cases (inputs.length_repaired o.repair) h with ⟨hending, hpasses, htext⟩ | ⟨hending, hstops⟩
  · rw [hlogs.logPlace] at hpasses
    rw [hlogs.stdout] at htext
    exact .inl ⟨hending, hpasses.grown_left hlogs.files, htext⟩
  · rw [hlogs.logPlace] at hstops
    exact .inr ⟨hending, hstops.grown_left hlogs.files⟩

end

end ModRepair.Command
