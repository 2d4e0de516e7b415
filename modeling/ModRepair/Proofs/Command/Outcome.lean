import ModRepair.Proofs.Command.Naming
import ModRepair.Proofs.Interchange.RoundTrip

/-!
# How a run ends

A run publishes nothing until all files are read and the destination is ready, and how it ends does not depend on how
its outcome is shown.

* `Unpublished` — sessions in which nothing has been printed and no file written but the log file;
* `Passes.not_stops` — **whether a module is in the way** does not depend on what the files hold, and so neither on the
  log nor on what is printed;
* `parse_reportsDocument` — the reports read back;
* `run_all_or_nothing` — **the ending of a run**, and `lost_unnoticed`, a run that loses a module and does not learn of
  it.
-/

namespace ModRepair.Command

open Storage (Files Place)
open Storage.Files (Alike HasFile Keeps)

/-! ## Nothing published -/

/-- Nothing has been printed, and no file written but the log file. -/
structure Unpublished (s s' : Session) : Prop where
  stdout : s'.stdout = s.stdout
  files : ∃ files, Grown s.logPlace s.files files ∧ Keeps none files s'.files

section

variable {s s' s'' : Session}

theorem Session.Logs.unpublished (h : s.Logs s') : Unpublished s s' where
  stdout := h.stdout
  files := ⟨s'.files, h.files, .refl none s'.files⟩

theorem Unpublished.printFault (h : Unpublished s s') (message : Bytes) : Unpublished s (s'.printFault message) where
  stdout := h.stdout
  files := h.files

/-- Until the destination is ready nothing is published. -/
theorem unpublished_of_prepareOutput {o : Options} {inputs : Inputs} {result : Except DestinationFault Unit}
    (h : s.Logs s') (hprepare : prepareOutput o inputs s' = (s'', result)) : Unpublished s s'' := by
  obtain ⟨hkeeps, -, hstdout⟩ := prepareOutput_frame hprepare
  exact ⟨hstdout.trans h.stdout, s'.files, h.files, hkeeps none⟩

end

/-! ## Files that differ in what they hold -/

section

variable {log : Option Place} {destination : Option Destination} {files files' other other' : Files} {m : Module}

/-- A module finds its file in both or in neither, and then leaves them alike. -/
theorem placeModule_alike (destination : Option Destination) (m : Module) (h : Alike files other) :
    (∃ fault, placeModule destination m files = .error fault ∧ placeModule destination m other = .error fault) ∨
      ∃ written written', placeModule destination m files = .ok written ∧
        placeModule destination m other = .ok written' ∧ Alike written written' := by
  cases destination with
  | none => exact .inr ⟨files, other, rfl, rfl, h⟩
  | some d =>
      simp only [placeModule, Files.write, h.filePlace]
      cases hplace : files.filePlace (d.pathFor m.name) with
      | error fault => exact .inl ⟨fault, rfl, rfl⟩
      | ok place => exact .inr ⟨_, _, rfl, rfl, h.write place _ _⟩

theorem noticed_alike (h : Alike files other) : Noticed destination m other ↔ Noticed destination m files := by
  simp only [Noticed, Storage.Stream.Short, h.filePlace, h.limit?]

/-- A log file that is there is there when a module has been written. -/
theorem Anchored.placeModule (hlog : Anchored log files) (h : placeModule destination m files = .ok files') :
    Anchored log files' := by
  intro place hplace
  have hfile := hlog place hplace
  cases destination with
  | none =>
      cases h
      exact hfile
  | some d =>
      simp only [Command.placeModule, Files.write] at h
      cases hpath : files.filePlace (d.pathFor m.name) with
      | error fault =>
          rw [hpath] at h
          cases h
      | ok target =>
          rw [hpath] at h
          cases h
          exact hfile.write

/-- **Either all modules are written or one is in the way**: which of the two depends neither on what the files hold nor
    on how the log grows. -/
theorem Passes.not_stops {ms : List Module} (hlog : Anchored log files) (hlog' : Anchored log other)
    (h : Alike files other) (hpasses : Passes log destination files ms files') :
    ¬ Stops log destination other ms other' := by
  induction hpasses generalizing other with
  | none grown =>
      rintro ⟨before, m, after, -, hms, -⟩
      cases before <;> cases hms
  | @cons _ files₁ _ _ m ms grown unnoticed written rest ih =>
      rintro ⟨before, m', after, other₁, hms, hbefore, hlast⟩
      obtain ⟨hlog₁, hfiles₁⟩ := grown.anchored_and_alike hlog
      cases hbefore with
      | none grown' =>
          -- The module that is in the way in the one has been written in the other.
          cases hms
          obtain ⟨-, hother₁⟩ := grown'.anchored_and_alike hlog'
          have halike : Alike files₁ other₁ := (hfiles₁.symm.trans h).trans hother₁
          rcases hlast with ⟨-, fault, hfault⟩ | ⟨-, hnoticed⟩
          · rcases placeModule_alike destination m halike with ⟨fault', hleft, -⟩ | ⟨_, _, -, hright, -⟩
            · cases written.symm.trans hleft
            · cases hfault.symm.trans hright
          · exact unnoticed ((noticed_alike halike).mp hnoticed)
      | @cons _ other₂ other₃ _ m₀ before grown' _ written' rest' =>
          cases hms
          obtain ⟨hlog₂, hother₂⟩ := grown'.anchored_and_alike hlog'
          have halike : Alike files₁ other₂ := (hfiles₁.symm.trans h).trans hother₂
          rcases placeModule_alike destination m halike with ⟨fault, hleft, -⟩ | ⟨files₃, other₄, hleft, hright, hnext⟩
          · cases written.symm.trans hleft
          · cases written.symm.trans hleft
            cases written'.symm.trans hright
            exact ih (hlog₁.placeModule written) (hlog₂.placeModule written') hnext
              ⟨before, m', after, other₁, rfl, rest', hlast⟩

end

section

variable {o : Options} {s s₁ s₂ : Session} {inputs : Inputs}

/-- A log file that is there from the start is there when the destination is ready. -/
theorem Anchored.of_ready {result : Except DestinationFault Unit} (hlog : Anchored s.logPlace s.files)
    (hlogs : s.Logs s₁) (hprepare : prepareOutput o inputs s₁ = (s₂, result)) : Anchored s₂.logPlace s₂.files := by
  obtain ⟨hkeeps, hplace, -⟩ := prepareOutput_frame hprepare
  rw [hplace, hlogs.logPlace]
  intro place hlogged
  exact ((hlogs.files.anchored_and_alike hlog).1 place hlogged).of_keeps (hkeeps none)

/-- **The ending is the same** for all numbers of workers, and however the outcome is shown. -/
theorem runRepair_ending (hlog : Anchored s.logPlace s.files) (cores cores' jobs : Nat) (print : Bool)
    (format : ReportFormat) :
    (runRepair cores' { o with jobs, print, format } s).2 = (runRepair cores o s).2 := by
  have hload : load { o with jobs, print, format } s = load o s := rfl
  unfold runRepair
  rw [hload]
  split
  · rfl
  next s₁ inputs hinputs =>
  have hprepared : prepareOutput { o with jobs, print, format } inputs s₁ = prepareOutput o inputs s₁ := rfl
  simp only
  rw [hprepared]
  split
  · rfl
  next s₂ hready =>
  have hanchored : Anchored s₂.logPlace s₂.files := hlog.of_ready (load_ok hinputs).1 hready
  rcases repairAndPublish_cases (o := o) (Prod.eta _).symm with ⟨hending, hpasses, -⟩ | ⟨hending, hstops⟩ <;>
    rcases repairAndPublish_cases (o := { o with jobs, print, format }) (Prod.eta _).symm with
      ⟨hending', hpasses', -⟩ | ⟨hending', hstops'⟩
  · exact hending'.trans hending.symm
  · exact absurd hstops' (hpasses.not_stops hanchored hanchored (.refl _))
  · exact absurd hstops (hpasses'.not_stops hanchored hanchored (.refl _))
  · exact hending'.trans hending.symm

end

/-! ## Reports -/

theorem plain_reportJson (r : Report) : Json.Plain 2 r.json := by
  have hstrings : ∀ texts, Json.Plain 1 (Json.strings texts) := fun texts =>
    Interchange.plain_array_map texts fun s => .string 0 s
  apply Interchange.plain_objectJson
  simp [Report.countJson, hstrings, Json.Plain.string, Json.Plain.integer]

/-- **The document of the reports reads back** as one array. -/
theorem parse_reportsDocument (reports : List Report) :
    Json.parse (reportsDocument reports) = .ok (.array (reports.map (·.json))) := by
  have hplain := Interchange.plain_array_map reports plain_reportJson
  rw [reportsDocument, Bytes.lines, List.flatMap_cons, List.flatMap_nil, List.append_nil]
  exact Json.parse_render hplain (by decide) (.indented 2) (List.forall_mem_singleton.mpr rfl)

/-- Without listings nothing is printed before the document of the reports. -/
theorem printed_eq_nil {o : Options} (hprint : o.print = false) (hformat : o.format = .json) (m : Module)
    (report : Report) : printed o m report = [] := by
  simp [printed, hprint, hformat]

/-! ## Endings -/

theorem exitCode_ofReports (reports : List Report) :
    (Ending.ofReports reports).exitCode = if ∃ r ∈ reports, r.disposition = .reject then 2 else 0 := by
  simp only [Ending.ofReports, List.any_eq_true, beq_iff_eq]
  split <;> rfl

/-- **A run is all or nothing up to the repair, and its exit code is exact.** Take any options that ask for neither help
    nor the version, and any files. If something that the options name cannot be read, or the destination cannot be
    made ready, the exit code is 1, nothing is printed, and no file is written but the log file. Else everything has
    been read and every module has its report, and the exit code is 1 exactly if writing stops at a module, because its
    file cannot be opened or a lack of room for it is noticed: then those before it have been written and no others. If
    writing has not stopped, all have been written as far as there was room, and the exit code is 2 exactly if some
    report rejects its module, else 0; and where JSON is asked for without listings, what is printed reads back as the
    array of the reports in the order of the modules. And the exit code is the same for all numbers of workers and
    cores, with listings and without, and for both formats of reports. -/
theorem run_all_or_nothing (cores : Nat) (o : Options) (files : Files) (stamp : Log.Stamp) (config : Log.Config)
    (hhelp : o.help = false) (hversion : o.version = false) :
    let s := Session.start files stamp config
    let left := (run cores o s).1
    let code := (run cores o s).2.exitCode
    (∀ s₁ fault, load o s = (s₁, .error fault) → Unloadable o s fault ∧ code = 1 ∧ Unpublished s left) ∧
      (∀ s₁ inputs, load o s = (s₁, .ok inputs) → Loaded o s inputs ∧
        (∀ s₂ fault, prepareOutput o inputs s₁ = (s₂, .error fault) → code = 1 ∧ Unpublished s left) ∧
        ∀ s₂, prepareOutput o inputs s₁ = (s₂, .ok ()) → Unpublished s s₂ ∧
          let destination := o.output.map (Destination.ofPath · inputs.modules.length)
          let registry := Registry.ofProfile o.repair inputs.profile
          let repaired := inputs.modules.map fun m => (registry.repair m).module
          ∃ reports, List.Forall₂ (fun m report => (registry.repair m).report = .ok report) inputs.modules reports ∧
            (code = 1 ↔ Stops s.logPlace destination s₂.files repaired left.files) ∧
            (code ≠ 1 → code = (if ∃ r ∈ reports, r.disposition = .reject then 2 else 0) ∧
              Passes s.logPlace destination s₂.files repaired left.files ∧
              (o.print = false → o.format = .json →
                Json.parse left.stdout.text = .ok (.array (reports.map (·.json)))))) ∧
      ∀ cores' jobs print format, (run cores' { o with jobs, print, format } s).2.exitCode = code := by
  intro s left code
  obtain ⟨hanchored, hempty⟩ := Session.start_anchored files stamp config
  have hrun : run cores o s = runRepair cores o s := run_eq_runRepair hhelp hversion
  have hleft : left = (runRepair cores o s).1 := congrArg Prod.fst hrun
  have hcode : code = (runRepair cores o s).2.exitCode := congrArg (·.2.exitCode) hrun
  refine ⟨?_, ?_, ?_⟩
  · intro s₁ fault hload
    obtain ⟨hlogs, hunloadable⟩ := load_error hload
    rw [runRepair, hload] at hleft hcode
    refine ⟨hunloadable, hcode, ?_⟩
    rw [hleft]
    exact hlogs.unpublished.printFault _
  · intro s₁ inputs hload
    obtain ⟨hlogs, hloaded⟩ := load_ok hload
    rw [runRepair, hload] at hleft hcode
    refine ⟨hloaded, ?_, ?_⟩
    · intro s₂ fault hprepare
      simp only [hprepare] at hleft hcode
      refine ⟨hcode, ?_⟩
      rw [hleft]
      exact (unpublished_of_prepareOutput hlogs hprepare).printFault _
    · intro s₂ hprepare
      have hunpublished := unpublished_of_prepareOutput hlogs hprepare
      have hready : Anchored s₂.logPlace s₂.files := hanchored.of_ready hlogs hprepare
      simp only [hprepare] at hleft hcode
      refine ⟨hunpublished, inputs.reports o.repair, inputs.forall₂_reports o.repair, ?_⟩
      have hplace : s₂.logPlace = s.logPlace := (prepareOutput_frame hprepare).2.1.trans hlogs.logPlace
      rcases repairAndPublish_cases (Prod.eta _).symm with ⟨hending, hpasses, htext⟩ | ⟨hending, hstops⟩
      · have hended : code = if ∃ r ∈ inputs.reports o.repair, r.disposition = .reject then 2 else 0 := by
          rw [hcode, hending, exitCode_ofReports]
        rw [← hleft] at hpasses
        have hgoes : ¬ Stops s₂.logPlace _ s₂.files (inputs.repaired o.repair) left.files :=
          hpasses.not_stops hready hready (.refl _)
        rw [hplace] at hpasses hgoes
        refine ⟨⟨fun h => ?_, fun hstops => absurd hstops hgoes⟩, fun _ => ⟨hended, hpasses, ?_⟩⟩
        · rw [hended] at h
          split at h <;> cases h
        · intro hprint hformat
          have hnothing : ((inputs.repaired o.repair).zip (inputs.reports o.repair)).flatMap
              (fun e => printed o e.1 e.2) = [] :=
            List.flatMap_eq_nil_iff.mpr fun e _ => printed_eq_nil hprint hformat e.1 e.2
          rw [hleft, htext, hunpublished.stdout, hempty, hnothing, if_pos hformat]
          exact parse_reportsDocument (inputs.reports o.repair)
      · have hended : code = 1 := by
          rw [hcode, hending]
          rfl
        rw [← hleft, hplace] at hstops
        exact ⟨⟨fun _ => hstops, fun _ => hended⟩, fun hne => absurd hended hne⟩
  · intro cores' jobs print format
    have hother : run cores' { o with jobs, print, format } s = runRepair cores' { o with jobs, print, format } s :=
      run_eq_runRepair hhelp hversion
    rw [hother, runRepair_ending hanchored cores cores' jobs print format]
    exact hcode.symm

/-- The files of a host without types and of a module that loads a field of one. -/
def rejectedFiles : Files :=
  let host := "\x7b\"name\":\"H\"\x7d"
  let load := "\x7b\"op\":\"ldsfld\",\"field\":\x7b\"name\":\"f\",\"type\":\"[H]A\",\"field_type\":\"[H]A\"\x7d\x7d"
  let method := "\x7b\"name\":\"m\",\"return\":\"[H]A\",\"body\":[" ++ load ++ "]\x7d"
  let module := "\x7b\"name\":\"M\",\"types\":[\x7b\"name\":\"T\",\"methods\":[" ++ method ++ "]\x7d]\x7d"
  ⟨[], [([ascii "host"], .file (ascii host)), ([ascii "mod"], .file (ascii module))], []⟩

/-- A module whose field is gone is rejected with any number of workers, and however the report is shown. -/
theorem run_all_or_nothing_sample :
    let o := { Options.initial with hosts := [ascii "host"], modules := [ascii "mod"] }
    let s := Session.start rejectedFiles ⟨[], 0⟩ .standard
    o.help = false ∧ o.version = false ∧ (run 1 o s).2.exitCode = 2 ∧
      ∀ cores jobs print format, (run cores { o with jobs, print, format } s).2.exitCode = 2 := by
  intro o s
  have hcode : (run 1 o s).2.exitCode = 2 := by decide +kernel
  obtain ⟨-, -, hsame⟩ := run_all_or_nothing 1 o rejectedFiles ⟨[], 0⟩ .standard rfl rfl
  exact ⟨rfl, rfl, hcode, fun cores jobs print format => (hsame cores jobs print format).trans hcode⟩

/-- The files of a host and of a module, and a device on which there is no room. The module's name has a zero byte, so
    that the path of its file in the directory of the device is the device's. -/
def crampedFiles : Files where
  current := []
  nodes := [([ascii "host"], .file (namedDocument "Host")), ([ascii "mod"], .file (namedDocument "full\\u0000x")),
    ([ascii "dev"], .directory), ([ascii "dev", ascii "full"], .file [])]
  limits := [([ascii "dev", ascii "full"], 0)]

/-- **A module is lost unnoticed.** It is loaded, and the run accepts it and reports that it has been written: but its
    document is too short to be handed over before the file is closed, and nothing of it is there in the end. -/
theorem lost_unnoticed :
    let o := { Options.initial with hosts := [ascii "host"], modules := [ascii "mod"], output := some (ascii "/dev") }
    let s := Session.start crampedFiles ⟨[], 0⟩ .standard
    let m := namedModule [0x66, 0x75, 0x6c, 0x6c, 0, 0x78]
    load o s = (s, .ok ⟨.watching [ascii "Host"], [m]⟩) ∧ (run 1 o s).2.exitCode = 0 ∧
      Truncated (some (.ofPath (ascii "/dev") 1)) m s.files ∧
      (run 1 o s).1.files.node? [ascii "dev", ascii "full"] = some (.file []) := by
  refine ⟨by rfl, by decide +kernel, ⟨_, [ascii "dev", ascii "full"], rfl, by rfl, by decide +kernel⟩, ?_⟩
  decide +kernel

end ModRepair.Command
