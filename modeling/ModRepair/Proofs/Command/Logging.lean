import Mathlib.Logic.Relation
import ModRepair.Command.Session
import ModRepair.Proofs.Storage.Shape

/-!
# What logging does to files

Most steps of a run only log, and logging touches nothing but the log file and the error stream.

* `Grown` — files that differ at most in what has been put at the end of the log file: all others are kept
  (`Grown.keeps`), and paths lead where they did if the log file is there (`Grown.anchored_and_alike`);
* `Session.Logs` — **sessions that come from another by logging**, with one lemma for each operation;
* `Session.start_anchored` — the log file is there from the start.
-/

namespace ModRepair.Command

open Storage (Files Place Stream)
open Storage.Files (Alike HasFile Keeps)

/-! ## Logging -/

/-- A text is put at the end of the log file. -/
def Appends (log : Option Place) (files files' : Files) : Prop :=
  ∃ place text, log = some place ∧ files' = files.appendAt place text

/-- Any number of texts are put at the end of the log file. -/
def Grown (log : Option Place) : Files → Files → Prop :=
  Relation.ReflTransGen (Appends log)

/-- The log file is there. -/
def Anchored (log : Option Place) (files : Files) : Prop :=
  ∀ place, log = some place → files.HasFile place

section

variable {log : Option Place} {files files' files'' : Files}

theorem Grown.refl : Grown log files files :=
  Relation.ReflTransGen.refl

theorem Grown.trans (h : Grown log files files') (h' : Grown log files' files'') : Grown log files files'' :=
  Relation.ReflTransGen.trans h h'

theorem Grown.append {place : Place} {text : Bytes} (hlog : log = some place) :
    Grown log files (files.appendAt place text) :=
  Relation.ReflTransGen.single ⟨place, text, hlog, rfl⟩

/-- Only the log file grows. -/
theorem Grown.keeps (h : Grown log files files') : Keeps log files files' := by
  induction h with
  | refl => exact .refl log files
  | tail _ happend ih =>
      obtain ⟨place, text, rfl, rfl⟩ := happend
      exact ih.trans Storage.Files.keeps_appendAt

theorem Grown.anchored_and_alike (h : Grown log files files') (hlog : Anchored log files) :
    Anchored log files' ∧ Alike files files' := by
  induction h with
  | refl => exact ⟨hlog, .refl files⟩
  | tail _ happend ih =>
      obtain ⟨place, text, rfl, rfl⟩ := happend
      obtain ⟨hanchored, halike⟩ := ih
      have hfile := hanchored place rfl
      refine ⟨?_, halike.trans hfile.alike_appendAt⟩
      intro place' hplace'
      cases hplace'
      exact hfile.put

end

/-! ## Streams -/

/-- What is done with a stream and the files puts texts at the end of the stream's file, and does nothing else. -/
def Appending (act : Stream → Files → Stream × Files) : Prop :=
  ∀ stream files, (act stream files).1.place = stream.place ∧ Grown (some stream.place) files (act stream files).2

namespace Appending

theorem pass (text : Bytes) : Appending (·.pass text ·) := by
  intro stream files
  refine ⟨?_, .append rfl⟩
  show (if _ then _ else _ : Stream).place = stream.place
  split <;> rfl

theorem write (text : Bytes) : Appending (·.write text ·) := by
  intro stream files
  simp only [Stream.write]
  split
  · exact ⟨rfl, .refl⟩
  · split
    · exact ⟨rfl, .refl⟩
    · exact pass text stream files

theorem flush : Appending Stream.flush := by
  intro stream files
  unfold Stream.flush
  split
  · exact ⟨rfl, .refl⟩
  · exact pass [] stream files

theorem writeLine (line : Bytes) : Appending fun stream files =>
    ((stream.write line files).1.put Bytes.newline, (stream.write line files).2) := by
  intro stream files
  obtain ⟨hsame, hgrown⟩ := write line stream files
  refine ⟨?_, hgrown⟩
  show (Stream.put (stream.write line files).1 Bytes.newline).place = stream.place
  rw [← hsame, Stream.put]
  split <;> rfl

end Appending

namespace Session

/-- Where the log file is. -/
def logPlace (s : Session) : Option Place :=
  s.logFile.map (·.place)

/-- A session that has come from another by logging. -/
structure Logs (s s' : Session) : Prop where
  files : Grown s.logPlace s.files s'.files
  logPlace : s'.logPlace = s.logPlace
  stdout : s'.stdout = s.stdout

variable {s s' s'' : Session}

theorem Logs.refl (s : Session) : s.Logs s where
  files := .refl
  logPlace := rfl
  stdout := rfl

theorem Logs.trans (h : s.Logs s') (h' : s'.Logs s'') : s.Logs s'' where
  files := h.files.trans (h.logPlace ▸ h'.files)
  logPlace := h'.logPlace.trans h.logPlace
  stdout := h'.stdout.trans h.stdout

theorem logs_printError (s : Session) (text : Bytes) : s.Logs (s.printError text) where
  files := .refl
  logPlace := rfl
  stdout := rfl

/-- What puts texts at the end of the file of a stream, and nothing else, is logging. -/
theorem logs_withLogFile {act : Stream → Files → Stream × Files} (hact : Appending act) (s : Session) :
    s.Logs (s.withLogFile act) := by
  unfold withLogFile
  split
  · exact .refl s
  · next stream hstream =>
      have hplace : s.logPlace = some stream.place := by rw [logPlace, hstream, Option.map_some]
      obtain ⟨hsame, hgrown⟩ := hact stream s.files
      refine ⟨?_, ?_, rfl⟩
      · rw [hplace]
        exact hgrown
      · rw [hplace, ← hsame]
        rfl

theorem logs_flush (s : Session) : s.Logs s.flush :=
  logs_withLogFile .flush s

theorem logs_writeLogLine (s : Session) (line : Bytes) : s.Logs (s.writeLogLine line) :=
  logs_withLogFile (.writeLine line) s

theorem logs_deliver (s : Session) (entry : Log.Sink × Log.Record) : s.Logs (s.deliver entry) := by
  obtain ⟨sink, r⟩ := entry
  cases sink with
  | memory => exact .refl s
  | console format => exact logs_printError s _
  | file format =>
      have hheld := logs_writeLogLine s (r.line format s.stamp)
      simp only [deliver]
      split
      · exact hheld.trans (logs_flush _)
      · exact hheld

theorem Logs.foldl {α : Type} {f : Session → α → Session} (hf : ∀ (s : Session) (a : α), s.Logs (f s a)) (s : Session)
    (as : List α) : s.Logs (as.foldl f s) := by
  induction as generalizing s with
  | nil => exact .refl s
  | cons a as ih => exact (hf s a).trans (ih (f s a))

theorem logs_log (s : Session) (r : Log.Record) : s.Logs (s.log r) :=
  .foldl logs_deliver s _

theorem logs_logAll (s : Session) (rs : List Log.Record) : s.Logs (s.logAll rs) :=
  .foldl logs_log s rs

/-- **A session starts** with its log file in place and nothing printed. -/
theorem start_anchored (files : Files) (stamp : Log.Stamp) (config : Log.Config) :
    let s := start files stamp config
    Anchored s.logPlace s.files ∧ s.stdout = .empty := by
  intro s
  simp only [s, start]
  split
  · exact ⟨nofun, rfl⟩
  · unfold openLogFile
    split
    · next place hplace =>
        refine ⟨?_, rfl⟩
        intro place' hplace'
        cases hplace'
        exact Storage.Files.hasFile_appendAt (Storage.Files.ne_root_of_filePlace hplace)
    · exact ⟨nofun, rfl⟩

/-- Files as a session may find them later if it does nothing but log. -/
def Later (s : Session) (files : Files) : Prop :=
  Grown s.logPlace s.files files

theorem Logs.later {files : Files} (h : s.Logs s') (hlater : s'.Later files) : s.Later files :=
  h.files.trans (h.logPlace ▸ hlater)

end Session

end ModRepair.Command
