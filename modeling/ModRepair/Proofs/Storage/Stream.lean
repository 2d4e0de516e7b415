import ModRepair.Proofs.Storage.Shape
import ModRepair.Storage.Stream

/-!
# What a stream leaves in a file, and what it tells

A line written through a stream reaches its file as far as there is room, however it is divided between what is handed
over at once and what is held back. Whether it is noticed that the room is short depends on that division.

* `Files.appendAt_appendAt` — what is put at the end of a file in two parts is there as if it had been put there at
  once, and `Files.appendAt_of_not_fitting`, that nothing fits where something has not;
* `Stream.Short`, `Stream.writeLine_eq` — **a line reaches its file** as far as there is room, and which lack of room is
  noticed;
* `Stream.Fits`, `Stream.not_fits_and_not_short_iff` — **which goes unnoticed**.
-/

namespace ModRepair.Storage

namespace Files

variable {fs : Files} {place : Place} {text more : Bytes}

/-! ## Texts at the end of a file -/

theorem putNode_putNode (place : Place) (node node' : Node) (nodes : List (Place × Node)) :
    putNode place node' (putNode place node nodes) = putNode place node' nodes := by
  induction nodes with
  | nil => simp [putNode]
  | cons e rest ih =>
      obtain ⟨p, n⟩ := e
      by_cases hp : p = place
      · simp [putNode, hp]
      · simp [putNode, hp, ih]

/-- What is put last is there. -/
theorem put_put (fs : Files) (place : Place) (node node' : Node) :
    (fs.put place node).put place node' = fs.put place node' := by
  rw [put, put, put, putNode_putNode]

theorem contentAt_put (hroot : place ≠ []) : (fs.put place (.file text)).contentAt place = text := by
  rw [contentAt, node?_put fs hroot, if_pos rfl]

/-- A text fits that is not longer than the room there is. -/
theorem fitting_eq_self_iff : fs.fitting place text = text ↔
    ∀ limit, fs.limit? place = some limit → text.length ≤ limit - (fs.contentAt place).length := by
  unfold fitting
  cases fs.limit? place with
  | none => simp
  | some limit =>
      simp only [Option.some.injEq, forall_eq']
      refine ⟨fun h => ?_, List.take_of_length_le⟩
      have hlength := congrArg List.length h
      rw [List.length_take] at hlength
      omega

/-- A text fits as far as its first part does, and then as far as the rest fits behind that. -/
theorem fitting_append (hroot : place ≠ []) :
    fs.fitting place (text ++ more) = fs.fitting place text ++ (fs.appendAt place text).fitting place more := by
  have hcontent : (fs.appendAt place text).contentAt place = fs.contentAt place ++ fs.fitting place text :=
    contentAt_put hroot
  have hlimit : (fs.appendAt place text).limit? place = fs.limit? place := rfl
  unfold fitting at *
  rw [hlimit]
  cases hfs : fs.limit? place with
  | none => rfl
  | some limit =>
      rw [hfs] at hcontent
      -- The room for the rest is what the first part has left, which may be nothing.
      have hroom : limit - (fs.contentAt place).length - text.length =
          limit - ((fs.appendAt place text).contentAt place).length := by
        simp only [hcontent, List.length_append, List.length_take]
        omega
      simp only [List.take_append, hroom]

/-- **Two parts of a text** are put at the end of a file as the whole is. -/
theorem appendAt_appendAt (hroot : place ≠ []) :
    (fs.appendAt place text).appendAt place more = fs.appendAt place (text ++ more) := by
  have hcontent : (fs.appendAt place text).contentAt place = fs.contentAt place ++ fs.fitting place text :=
    contentAt_put hroot
  rw [appendAt, hcontent, List.append_assoc, ← fitting_append hroot]
  exact put_put fs place _ _

/-- Where a text has not fitted, there is no room for more. -/
theorem appendAt_of_not_fitting (hroot : place ≠ []) (h : fs.fitting place text ≠ text) :
    fs.appendAt place (text ++ more) = fs.appendAt place text := by
  have hfull : (fs.appendAt place text).fitting place more = [] := by
    rw [Ne, fitting_eq_self_iff] at h
    obtain ⟨limit, h⟩ := Classical.not_forall.mp h
    obtain ⟨hlimit, hshort⟩ := Classical.not_imp.mp h
    have hcontent : (fs.appendAt place text).contentAt place = fs.contentAt place ++ fs.fitting place text :=
      contentAt_put hroot
    have hafter : (fs.appendAt place text).limit? place = some limit := hlimit
    rw [fitting, hafter, hcontent, fitting, hlimit]
    simp only [List.length_append, List.length_take, List.take_eq_nil_iff]
    omega
  rw [appendAt, fitting_append hroot, hfull, List.append_nil]
  rfl

end Files

namespace Stream

variable {files : Files} {place : Place} {line : Bytes}

/-! ## Lines -/

/-- **A lack of room that is noticed**: the line with its end fills the stream, so that some of it is handed over before
    the file is closed, and there is no room for that. What is handed over then is the line alone if it fills the stream
    by itself, and else the line with its end. -/
def Short (files : Files) (place : Place) (line : Bytes) : Prop :=
  ∃ limit, files.limit? place = some limit ∧ capacity ≤ line.length + 1 ∧ limit < max capacity line.length

/-- There is room for a line with its end. -/
def Fits (files : Files) (place : Place) (line : Bytes) : Prop :=
  ∀ limit, files.limit? place = some limit → line.length < limit

instance (files : Files) (place : Place) (line : Bytes) : Decidable (Fits files place line) :=
  decidable_of_iff ((files.limit? place).all (line.length < ·) = true) (by
    cases h : files.limit? place <;> simp [Fits, h])

/-- **Which lack of room goes unnoticed**: that for a line which with its end does not fill the stream, and that for the
    end alone of a line which fills the stream by itself. -/
theorem not_fits_and_not_short_iff : ¬ Fits files place line ∧ ¬ Short files place line ↔
    ∃ limit, files.limit? place = some limit ∧
      (limit ≤ line.length ∧ line.length + 1 < capacity ∨ limit = line.length ∧ capacity ≤ line.length) := by
  unfold Fits Short
  cases files.limit? place with
  | none => simp
  | some limit =>
      simp only [Option.some.injEq, forall_eq', exists_eq_left']
      omega

/-- A text fits into a file that has just been emptied if it is not longer than the file can be. -/
theorem fitting_create_eq_self_iff (hroot : place ≠ []) {text : Bytes} :
    (files.create place).fitting place text = text ↔
      ∀ limit, files.limit? place = some limit → text.length ≤ limit := by
  have hempty : (files.create place).contentAt place = [] := Files.contentAt_put hroot
  rw [Files.fitting_eq_self_iff, hempty]
  rfl

/-- Closing hands over what is held back. -/
theorem close_eq (hroot : place ≠ []) (pending : Bytes) (failed : Bool) (text : Bytes) :
    (⟨place, pending, failed⟩ : Stream).close (files.appendAt place text) = files.appendAt place (text ++ pending) := by
  unfold close
  split
  · next hnone =>
      obtain rfl : pending = [] := List.isEmpty_iff.mp hnone
      rw [List.append_nil]
  · exact Files.appendAt_appendAt hroot

/-- A lack of room for a line that fills the stream by itself. -/
theorem short_iff_of_le (h : capacity ≤ line.length) :
    Short files place line ↔ ∃ limit, files.limit? place = some limit ∧ limit < line.length := by
  refine exists_congr fun limit => and_congr_right fun _ => ?_
  omega

/-- A lack of room for a line that fills the stream with its end. -/
theorem short_iff_of_eq (h : line.length + 1 = capacity) :
    Short files place line ↔ ∃ limit, files.limit? place = some limit ∧ limit < line.length + 1 := by
  refine exists_congr fun limit => and_congr_right fun _ => ?_
  omega

/-- **A line reaches its file** with its end as far as there is room, and a lack of room is noticed only if it shows
    before the file is closed. -/
theorem writeLine_eq (hroot : place ≠ []) :
    (writeLine place line files).1 = (files.create place).appendAt place (line ++ [Bytes.newline]) ∧
      ((writeLine place line files).2 = true ↔ Short files place line) := by
  have hfits : ∀ text : Bytes, (files.create place).fitting place text ≠ text ↔
      ∃ limit, files.limit? place = some limit ∧ limit < text.length := by
    intro text
    rw [Ne, fitting_create_eq_self_iff hroot]
    simp
  by_cases hfills : capacity ≤ line.length
  · -- The line is handed over by itself, and its end when the file is closed.
    have hwritten : (new place).write line (files.create place) = (new place).pass line (files.create place) := by
      rw [write, if_neg (by simp [new]), if_neg (by simpa [new] using hfills)]
    rw [short_iff_of_le hfills, ← hfits, writeLine, hwritten]
    by_cases hfit : (files.create place).fitting place line = line
    · have hheld : (⟨place, [], false⟩ : Stream).write [Bytes.newline] ((files.create place).appendAt place line) =
          (⟨place, [Bytes.newline], false⟩, (files.create place).appendAt place line) := rfl
      simp only [pass, new, List.nil_append, hfit, if_true, hheld, close_eq hroot]
      simp
    · have hfailed : (⟨place, [], true⟩ : Stream).write [Bytes.newline] ((files.create place).appendAt place line) =
          (⟨place, [], true⟩, (files.create place).appendAt place line) := rfl
      simp only [pass, new, List.nil_append, hfit, if_false, hfailed, close_eq hroot, List.append_nil]
      exact ⟨(Files.appendAt_of_not_fitting hroot hfit).symm, by simp [hfit]⟩
  · have hheld : (new place).write line (files.create place) = (⟨place, line, false⟩, files.create place) := by
      rw [write, if_neg (by simp [new]), if_pos (by simpa [new] using hfills)]
      rfl
    rw [writeLine, hheld]
    by_cases hfull : capacity ≤ line.length + 1
    · -- The line is handed over with its end.
      have hwritten : (⟨place, line, false⟩ : Stream).write [Bytes.newline] (files.create place) =
          (⟨place, line, false⟩ : Stream).pass [Bytes.newline] (files.create place) := by
        rw [write, if_neg (by simp), if_neg (by simpa using hfull)]
      have hlength : (line ++ [Bytes.newline]).length = line.length + 1 := List.length_append
      rw [short_iff_of_eq (by omega), ← hlength, ← hfits]
      by_cases hfit : (files.create place).fitting place (line ++ [Bytes.newline]) = line ++ [Bytes.newline]
      · simp only [hwritten, pass, hfit, if_true, close_eq hroot]
        simp
      · simp only [hwritten, pass, hfit, if_false, close_eq hroot]
        exact ⟨Files.appendAt_of_not_fitting hroot hfit, by simp [hfit]⟩
    · -- All is handed over when the file is closed.
      have hheld' : (⟨place, line, false⟩ : Stream).write [Bytes.newline] (files.create place) =
          (⟨place, line ++ [Bytes.newline], false⟩, files.create place) := by
        rw [write, if_neg (by simp), if_pos (by simpa using hfull)]
      have hshort : ¬ Short files place line := fun ⟨limit, _, hcapacity, _⟩ => hfull hcapacity
      simp [hheld', close, hshort]

/-- The file holds the line with its end exactly if there is room for it. -/
theorem contentAt_writeLine_iff (hroot : place ≠ []) :
    (writeLine place line files).1.contentAt place = line ++ [Bytes.newline] ↔ Fits files place line := by
  have hempty : (files.create place).contentAt place = [] := Files.contentAt_put hroot
  rw [(writeLine_eq hroot).1, Files.appendAt, Files.contentAt_put hroot, hempty, List.nil_append,
    fitting_create_eq_self_iff hroot, List.length_append]
  rfl

end Stream

end ModRepair.Storage
