import Mathlib.Data.List.Nodup
import ModRepair.Proofs.Command.Loading
import ModRepair.Proofs.Command.Publication
import ModRepair.Proofs.Repair.Frame
import ModRepair.Proofs.Storage.Path

/-!
# Names of module files

In a directory every module has a file named for it, and names are checked for that before anything is written. The check
knows nothing of zero bytes, at which the system ends a path, and a name can have them: then two modules can share a file
after all, or a file can lack its extension.

* `Usable`, `checkNames_eq_ok_iff` — the names that pass the check;
* `Apart`, `Usable.apart_iff` — **files of their own in the directory**, and for which names the modules have them;
* `directory_run` — **what a run writes to a directory**, and `names_collide`, a run in which two modules share a file.
-/

namespace ModRepair.Command

open Storage

/-! ## Names that pass the check -/

/-- Names for files: no two are the same, and none is a path or that of a directory. -/
structure Usable (names : List Bytes) : Prop where
  distinct : names.Nodup
  names : ∀ name ∈ names, name ∉ [[], Path.here, Path.above] ∧ Bytes.slash ∉ name ∧ Bytes.backslash ∉ name

theorem isUsableName_iff {name : Bytes} : isUsableName name = true ↔
    name ∉ [[], Path.here, Path.above] ∧ Bytes.slash ∉ name ∧ Bytes.backslash ∉ name := by
  simp [isUsableName, and_assoc]

/-- **The check** passes names that are usable and not among those seen before. -/
theorem checkNames_eq_ok_iff {seen names : List Bytes} :
    checkNames seen names = .ok () ↔ Usable names ∧ ∀ name ∈ names, name ∉ seen := by
  induction names generalizing seen with
  | nil => exact ⟨fun _ => ⟨⟨.nil, nofun⟩, nofun⟩, fun _ => rfl⟩
  | cons name names ih =>
      unfold checkNames
      by_cases husable : isUsableName name = true
      · by_cases hseen : name ∈ seen
        · simp [husable, hseen]
        · rw [if_neg (by simpa using husable), if_neg (by simpa using hseen), ih]
          constructor
          · rintro ⟨⟨hdistinct, hnames⟩, hfresh⟩
            refine ⟨⟨List.nodup_cons.mpr ⟨fun hmem => hfresh name hmem List.mem_cons_self, hdistinct⟩,
              List.forall_mem_cons.mpr ⟨isUsableName_iff.mp husable, hnames⟩⟩,
              List.forall_mem_cons.mpr ⟨hseen, fun other hother hmem => ?_⟩⟩
            exact hfresh other hother (List.mem_cons_of_mem name hmem)
          · rintro ⟨⟨hdistinct, hnames⟩, hfresh⟩
            obtain ⟨hname, hdistinct⟩ := List.nodup_cons.mp hdistinct
            refine ⟨⟨hdistinct, (List.forall_mem_cons.mp hnames).2⟩, fun other hother hmem => ?_⟩
            rcases List.mem_cons.mp hmem with rfl | hmem
            · exact hname hother
            · exact (List.forall_mem_cons.mp hfresh).2 other hother hmem
      · constructor
        · intro h
          rw [if_pos (by simpa using husable)] at h
          cases h
        · rintro ⟨⟨-, hnames⟩, -⟩
          exact absurd (isUsableName_iff.mpr (hnames name List.mem_cons_self)) husable

/-! ## Files in a directory -/

/-- The path of a module's file as the system takes it, up to the first zero byte. -/
def Destination.cutPath (d : Destination) (name : Bytes) : Bytes :=
  (d.pathFor name).untilZero

/-- The name of a module's file, up to the first zero byte. -/
def fileName (name : Bytes) : Bytes :=
  (name ++ moduleExtension).untilZero

/-- **Files of their own in the directory**: no two modules have the same, and every one has the extension and is in the
    directory itself. -/
structure Apart (directory : Bytes) (names : List Bytes) : Prop where
  distinct : (names.map (Destination.directory directory).cutPath).Nodup
  inside : ∀ name ∈ names, ∃ component,
    (Destination.directory directory).cutPath name = directory ++ Path.separator directory ++ component ∧
      moduleExtension <:+ component ∧ Bytes.slash ∉ component ∧ Bytes.backslash ∉ component

section

variable {directory name : Bytes} {names : List Bytes}

theorem cutPath_eq (hzero : 0 ∉ directory) (name : Bytes) :
    (Destination.directory directory).cutPath name = directory ++ Path.separator directory ++ fileName name := by
  rw [Destination.cutPath, Destination.pathFor, Path.untilZero_join hzero, Path.join_eq]
  rfl

theorem fileName_of_not_mem (h : 0 ∉ name) : fileName name = name ++ moduleExtension := by
  rw [fileName, Bytes.untilZero_append h, Bytes.untilZero_of_not_mem (by decide)]

theorem not_mem_fileName {c : UInt8} (hname : c ∉ name) (hextension : c ∉ moduleExtension) : c ∉ fileName name := by
  intro hmem
  rcases List.mem_append.mp (Bytes.untilZero_subset _ hmem) with hmem | hmem
  · exact hname hmem
  · exact hextension hmem

/-- A name without zero bytes gives that of a file. -/
theorem isFileName_append_extension (hslash : Bytes.slash ∉ name) (hzero : 0 ∉ name) :
    Path.IsFileName (name ++ moduleExtension) := by
  have hlength : 5 ≤ (name ++ moduleExtension).length := by
    rw [List.length_append]
    exact Nat.le_add_left 5 name.length
  refine ⟨?_, ?_, ?_, ?_, ?_⟩
  · exact List.ne_nil_of_length_pos (by omega)
  · exact fun h => absurd (congrArg List.length h) (by simp only [Path.here, List.length_singleton]; omega)
  · exact fun h => absurd (congrArg List.length h) (by simp only [Path.above, List.length_cons, List.length_nil]; omega)
  · exact fun h => (List.mem_append.mp h).elim hslash (by decide)
  · exact fun h => (List.mem_append.mp h).elim hzero (by decide)

/-- **Which modules have files of their own**: all do, but for names with a zero byte that end without the extension
    there, or give the name of another module's file. -/
theorem Usable.apart_iff (h : Usable names) (hzero : 0 ∉ directory) : Apart directory names ↔
    ∀ name ∈ names, 0 ∈ name → moduleExtension <:+ fileName name ∧
      ∀ other ∈ names, fileName other = fileName name → other = name := by
  have hcancel : ∀ {a b : Bytes}, directory ++ Path.separator directory ++ a =
      directory ++ Path.separator directory ++ b → a = b := List.append_cancel_left
  constructor
  · intro hapart name hname _
    obtain ⟨component, hcut, hextension, -, -⟩ := hapart.inside name hname
    rw [cutPath_eq hzero] at hcut
    refine ⟨by rwa [hcancel hcut], fun other hother hsame => ?_⟩
    refine List.inj_on_of_nodup_map hapart.distinct hother hname ?_
    rw [cutPath_eq hzero, cutPath_eq hzero, hsame]
  · intro hnames
    refine ⟨List.Nodup.map_on ?_ h.distinct, ?_⟩
    · intro name hname other hother hsame
      rw [cutPath_eq hzero, cutPath_eq hzero] at hsame
      have hsame := hcancel hsame
      by_cases hn : 0 ∈ name
      · exact ((hnames name hname hn).2 other hother hsame.symm).symm
      · by_cases ho : 0 ∈ other
        · exact (hnames other hother ho).2 name hname hsame
        · rw [fileName_of_not_mem hn, fileName_of_not_mem ho] at hsame
          exact List.append_cancel_right hsame
    · intro name hname
      obtain ⟨-, hslash, hbackslash⟩ := h.names name hname
      refine ⟨fileName name, cutPath_eq hzero name, ?_, not_mem_fileName hslash (by decide),
        not_mem_fileName hbackslash (by decide)⟩
      by_cases hn : 0 ∈ name
      · exact (hnames name hname hn).1
      · rw [fileName_of_not_mem hn]
        exact List.suffix_append name moduleExtension

end

/-! ## Runs that write to a directory -/

section

variable {directory : Bytes} {names : List Bytes} {files : Files}

theorem prepare_of_usable (h : Usable names) :
    ((Destination.directory directory).prepare names files).1 = (files.makeDirectories directory).1 := by
  have hcheck : checkNames [] names = .ok () := checkNames_eq_ok_iff.mpr ⟨h, fun _ _ => List.not_mem_nil⟩
  simp only [Destination.prepare, hcheck]
  split <;> next hmade => rw [hmade]

theorem prepare_of_not_usable (directory : Bytes) (files : Files) (h : ¬ Usable names) :
    ∃ fault, (Destination.directory directory).prepare names files = (files, .error fault) := by
  cases hcheck : checkNames [] names with
  | ok _ => exact absurd (checkNames_eq_ok_iff.mp hcheck).1 h
  | error fault => exact ⟨fault, by simp only [Destination.prepare, hcheck]⟩

theorem Inputs.names_repaired (inputs : Inputs) (options : RepairOptions) :
    (inputs.repaired options).map (·.name) = inputs.modules.map (·.name) := by
  rw [Inputs.repaired, List.map_map]
  refine List.map_congr_left fun m _ => ?_
  rw [Function.comp_apply, (inputs.repair_eq options m).1]
  exact frame_settled.name

theorem Usable.of_first {first all : List Bytes} (h : Usable all) (hfirst : first <+: all) : Usable first where
  distinct := h.distinct.sublist hfirst.sublist
  names name hname := h.names name (hfirst.subset hname)

/-- Where the files are of modules that are written to a directory. -/
structure Housed (directory : Bytes) (written : List Module) : Prop where
  /-- Every path is the directory's, a separator if needed, and one more step. -/
  paths : ∀ m ∈ written, (Destination.directory directory).cutPath m.name =
      directory ++ Path.separator directory ++ fileName m.name ∧
    Bytes.slash ∉ fileName m.name ∧ Bytes.backslash ∉ fileName m.name
  apart_iff : Apart directory (written.map (·.name)) ↔
    ∀ name ∈ written.map (·.name), 0 ∈ name → moduleExtension <:+ fileName name ∧
      ∀ other ∈ written.map (·.name), fileName other = fileName name → other = name
  /-- The file of a module whose name has no zero byte is in the directory, under that name. -/
  places : ∀ m ∈ written, 0 ∉ m.name → ∀ (files : Files) (place : Place),
    files.filePlace ((Destination.directory directory).pathFor m.name) = .ok place →
      ∃ parent, files.walk (files.startOf directory) (Path.names directory) = .ok parent ∧
        place = parent ++ [m.name ++ moduleExtension]

theorem Usable.housed {written : List Module} (h : Usable (written.map (·.name))) (hzero : 0 ∉ directory) :
    Housed directory written where
  paths m hm := by
    obtain ⟨-, hslash, hbackslash⟩ := h.names m.name (List.mem_map_of_mem hm)
    exact ⟨cutPath_eq hzero m.name, not_mem_fileName hslash (by decide), not_mem_fileName hbackslash (by decide)⟩
  apart_iff := h.apart_iff hzero
  places m hm hname files place hplace := by
    obtain ⟨-, hslash, -⟩ := h.names m.name (List.mem_map_of_mem hm)
    exact Files.filePlace_join (isFileName_append_extension hslash hname) hzero hplace

/-- **What a run writes to a directory.** Take any options with an output path that is not the file of a single module,
    and modules that have been loaded. If their names are not usable, the run fails with the files as they were after
    loading, and loading only logs. If they are, the directory is made and a first part of the modules written as far
    as there is room, all of them if the run does not fail; each path is the directory's with one more step, which has
    no slash or backslash. These modules have files of their own with the right extension unless a name among them has
    a zero byte and the part before it does not end with the extension or is the name of another one's file. And the
    file of a module whose name has no zero byte is in the place of the directory, under its name. -/
theorem directory_run (cores : Nat) {o : Options} {s s₁ : Session} {inputs : Inputs} (hhelp : o.help = false)
    (hversion : o.version = false) (houtput : o.output = some directory) (hzero : 0 ∉ directory)
    (hload : load o s = (s₁, .ok inputs))
    (hdirectory : inputs.modules.length ≠ 1 ∨ Path.extension directory ≠ moduleExtension) :
    let left := (run cores o s).1
    let ending := (run cores o s).2
    let names := inputs.modules.map (·.name)
    s.Logs s₁ ∧ (¬ Usable names → ending = .failed ∧ left.files = s₁.files) ∧
      (Usable names → ∃ written : List Module, written.map (·.name) <+: names ∧
        (ending ≠ .failed → written.map (·.name) = names) ∧
        Writes s.logPlace (some (.directory directory)) (s₁.files.makeDirectories directory).1 written left.files ∧
        Housed directory written) := by
  intro left ending names
  obtain ⟨hlogs, -⟩ := load_ok hload
  have hdestination : Destination.ofPath directory inputs.modules.length = .directory directory := by
    rw [Destination.ofPath, if_neg (not_and_or.mpr hdirectory)]
  have hprepare : prepareOutput o inputs s₁ =
      ({ s₁ with files := ((Destination.directory directory).prepare names s₁.files).1 },
        ((Destination.directory directory).prepare names s₁.files).2) := by
    rw [prepareOutput, houtput]
    simp only [hdestination]
    rfl
  have hrun : run cores o s = runRepair cores o s := run_eq_runRepair hhelp hversion
  have hleft : left = (runRepair cores o s).1 := congrArg Prod.fst hrun
  have hending : ending = (runRepair cores o s).2 := congrArg Prod.snd hrun
  simp only [runRepair, hload, hprepare] at hleft hending
  refine ⟨hlogs, fun hunusable => ?_, fun husable => ?_⟩
  · obtain ⟨fault, hfault⟩ := prepare_of_not_usable directory s₁.files hunusable
    simp only [hfault] at hleft hending
    exact ⟨hending, by rw [hleft]; rfl⟩
  · have hmade : ((Destination.directory directory).prepare names s₁.files).1 =
        (s₁.files.makeDirectories directory).1 := prepare_of_usable husable
    rw [hmade] at hleft hending
    cases hresult : ((Destination.directory directory).prepare names s₁.files).2 with
    | error fault =>
        simp only [hresult] at hleft hending
        refine ⟨[], List.nil_prefix, fun hne => absurd hending hne, ?_, Usable.housed ⟨.nil, nofun⟩ hzero⟩
        rw [hleft]
        exact .none .refl
    | ok _ =>
        simp only [hresult, houtput, Option.map_some, hdestination] at hleft hending
        have hnames := inputs.names_repaired o.repair
        have hplace : s₁.logPlace = s.logPlace := hlogs.logPlace
        rcases repairAndPublish_cases (Prod.eta _).symm with ⟨hended, hpasses, -⟩ | ⟨hended, hstops⟩
        · rw [← hleft] at hpasses
          refine ⟨inputs.repaired o.repair, hnames ▸ List.prefix_rfl, fun _ => hnames, hplace ▸ hpasses.writes, ?_⟩
          exact Usable.housed (by rwa [hnames]) hzero
        · rw [← hleft] at hstops
          obtain ⟨written, hpart, hwrites⟩ := hstops.writes
          have hfirst : written.map (·.name) <+: names := by
            rw [show names = _ from hnames.symm]
            exact hpart.map _
          exact ⟨written, hfirst, fun hne => absurd (hending.trans hended) hne, hplace ▸ hwrites,
            (husable.of_first hfirst).housed hzero⟩

end

/-! ## Two runs -/

/-- A document with a name, given as it is written, and nothing else. -/
def namedDocument (name : String) : Bytes :=
  ascii "\x7b\"name\": \"" ++ ascii name ++ ascii "\"\x7d"

/-- The files of a host and of two modules with names. -/
def namedFiles (first second : String) : Files :=
  ⟨[], [([ascii "host"], .file (namedDocument "Host")), ([ascii "first"], .file (namedDocument first)),
    ([ascii "second"], .file (namedDocument second))], []⟩

/-- Two modules that are written to a directory. -/
def namedOptions : Options :=
  { Options.initial with
    hosts := [ascii "host"], modules := [ascii "first", ascii "second"], output := some (ascii "out") }

/-- A session with these files. -/
def namedSession (first second : String) : Session :=
  .start (namedFiles first second) ⟨[], 0⟩ .standard

/-- A module with a name, bound to the host, and nothing else. -/
def namedModule (name : Bytes) : Module :=
  { name, host := some (Host.empty.add ⟨ascii "Host", []⟩), types := [], imports := ⟨[], [], [], []⟩ }

/-- What is loaded of these files. -/
def namedInputs (first second : Bytes) : Inputs :=
  ⟨.watching [ascii "Host"], [namedModule first, namedModule second]⟩

/-- Two modules with names that have no zero byte have files of their own. -/
theorem directory_run_sample :
    load namedOptions (namedSession "a" "b") =
        (namedSession "a" "b", .ok (namedInputs (ascii "a") (ascii "b"))) ∧
      (namedInputs (ascii "a") (ascii "b")).modules.length ≠ 1 ∧ 0 ∉ ascii "out" ∧
        (run 1 namedOptions (namedSession "a" "b")).2 = .accepted ∧ Apart (ascii "out") [ascii "a", ascii "b"] := by
  have hload : load namedOptions (namedSession "a" "b") =
      (namedSession "a" "b", .ok (namedInputs (ascii "a") (ascii "b"))) := by rfl
  have hlength : (namedInputs (ascii "a") (ascii "b")).modules.length ≠ 1 := by decide
  have hending : (run 1 namedOptions (namedSession "a" "b")).2 = .accepted := by decide +kernel
  obtain ⟨-, -, hwritten⟩ := directory_run 1 rfl rfl rfl (by decide) hload (.inl hlength)
  have hcheck : checkNames [] [ascii "a", ascii "b"] = .ok () := by rfl
  obtain ⟨written, -, hall, -, hhoused⟩ := hwritten (checkNames_eq_ok_iff.mp hcheck).1
  have hnames : written.map (·.name) = [ascii "a", ascii "b"] := hall (by rw [hending]; decide)
  have hapart := hhoused.apart_iff
  rw [hnames] at hapart
  exact ⟨hload, hlength, by decide, hending, hapart.mpr (by decide)⟩

/-- **Two modules share a file.** Their names differ behind a zero byte, and the run accepts both: each is written to the
    same path, which has lost its extension, and only the second is there in the end. -/
theorem names_collide :
    let first : Bytes := [0x61, 0, 0x62]
    let second : Bytes := [0x61, 0, 0x63]
    let s := namedSession "a\\u0000b" "a\\u0000c"
    let inputs := namedInputs first second
    load namedOptions s = (s, .ok inputs) ∧ inputs.modules.map (·.name) = [first, second] ∧
      (run 1 namedOptions s).2.exitCode = 0 ∧
      (Destination.directory (ascii "out")).cutPath first = ascii "out/a" ∧
      (Destination.directory (ascii "out")).cutPath second = ascii "out/a" ∧
      (run 1 namedOptions s).1.files.node? [ascii "out", ascii "a"] =
        some (.file (Interchange.moduleDocument (namedModule second))) ∧
      ¬ Apart (ascii "out") (inputs.modules.map (·.name)) := by
  have hshared : ¬ ([[0x61, 0, 0x62], [0x61, 0, 0x63]].map (Destination.directory (ascii "out")).cutPath).Nodup := by
    decide
  exact ⟨by rfl, rfl, by decide +kernel, by decide, by decide, by decide +kernel, fun hapart => hshared hapart.distinct⟩

end ModRepair.Command
