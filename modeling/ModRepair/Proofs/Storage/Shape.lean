import ModRepair.Storage.Files

/-!
# Files apart from their content

Whether a path leads anywhere, and where, depends on the directories and files that there are, and not on what is in the
files. This module states that, and what each operation does to the files there are.

* `Alike` — the same directories and files, and the operations that give the same answers then, up to
  `Alike.filePlace`;
* `HasFile` — a file at a place, which writing, appending and making directories leave there;
* `Keeps` — no file but one is new, gone or changed, and `keeps_makeDirectories`.
-/

namespace ModRepair.Storage

def Node.isFile : Node → Bool
  | .directory => false
  | .file _ => true

namespace Files

variable {fs fs' fs'' : Files} {place place' : Place} {node : Node} {path content content' text : Bytes}

/-- What is put at the root is not found, and what is put anywhere else is found there and only there. -/
theorem node?_put_eq : (fs.put place node).node? place' =
    if place ≠ [] ∧ place = place' then some node else fs.node? place' := by
  by_cases hroot : place = []
  · subst hroot
    by_cases h : place' = []
    · simp [node?, h]
    · simp [node?, put, lookup_putNode, Ne.symm h]
  · simp [node?_put fs hroot, hroot]

/-! ## The same answers -/

/-- The same directories and files, with the same room for them, the content of the files aside. -/
structure Alike (fs fs' : Files) : Prop where
  current : fs'.current = fs.current
  limits : fs'.limits = fs.limits
  nodes : ∀ place, (fs'.node? place).map Node.isFile = (fs.node? place).map Node.isFile

namespace Alike

theorem refl (fs : Files) : Alike fs fs where
  current := rfl
  limits := rfl
  nodes _ := rfl

theorem symm (h : Alike fs fs') : Alike fs' fs where
  current := h.current.symm
  limits := h.limits.symm
  nodes place := (h.nodes place).symm

theorem trans (h : Alike fs fs') (h' : Alike fs' fs'') : Alike fs fs'' where
  current := h'.current.trans h.current
  limits := h'.limits.trans h.limits
  nodes place := (h'.nodes place).trans (h.nodes place)

theorem node?_eq_none (h : Alike fs fs') : fs'.node? place = none ↔ fs.node? place = none := by
  rw [← Option.map_eq_none_iff (f := Node.isFile), h.nodes, Option.map_eq_none_iff]

theorem node?_eq_directory (h : Alike fs fs') :
    fs'.node? place = some .directory ↔ fs.node? place = some .directory := by
  have hnode := h.nodes place
  cases hfs : fs.node? place with
  | none => simp [h.node?_eq_none.mpr hfs]
  | some node =>
      rw [hfs] at hnode
      obtain ⟨node', hfs', hkind⟩ := Option.map_eq_some_iff.mp hnode
      rw [hfs']
      cases node <;> cases node' <;> simp_all [Node.isFile]

theorem enter (h : Alike fs fs') (place : Place) (name : Bytes) : fs'.enter place name = fs.enter place name := by
  have hnext : (fs'.node? (place ++ [name])).isSome = (fs.node? (place ++ [name])).isSome := by
    rw [Bool.eq_iff_iff, ← Option.ne_none_iff_isSome, ← Option.ne_none_iff_isSome, Ne, Ne, h.node?_eq_none]
  unfold Files.enter
  rw [hnext]
  cases hfs : fs.node? place with
  | none => rw [h.node?_eq_none.mpr hfs]
  | some node =>
      cases node with
      | directory => rw [h.node?_eq_directory.mpr hfs]
      | file c =>
          have hnode := h.nodes place
          rw [hfs] at hnode
          obtain ⟨node', hfs', hkind⟩ := Option.map_eq_some_iff.mp hnode
          cases node' with
          | directory => cases hkind
          | file c' => rw [hfs']

theorem walk (h : Alike fs fs') (place : Place) (way : List Bytes) : fs'.walk place way = fs.walk place way := by
  induction way generalizing place with
  | nil => rfl
  | cons name way ih =>
      simp only [Files.walk, h.enter]
      cases fs.enter place name with
      | error fault => rfl
      | ok next => exact ih next

theorem placeOfNew (h : Alike fs fs') (place : Place) (way : List Bytes) :
    fs'.placeOfNew place way = fs.placeOfNew place way := by
  simp only [Files.placeOfNew, h.walk, h.enter]

/-- A path names the same file. -/
theorem filePlace (h : Alike fs fs') (path : Bytes) : fs'.filePlace path = fs.filePlace path := by
  simp only [Files.filePlace, startOf, h.current, h.placeOfNew, h.node?_eq_directory]

theorem limit? (h : Alike fs fs') (place : Place) : fs'.limit? place = fs.limit? place := by
  rw [Files.limit?, Files.limit?, h.limits]

theorem put (h : Alike fs fs') : Alike (fs.put place (.file content)) (fs'.put place (.file content')) where
  current := h.current
  limits := h.limits
  nodes place' := by
    rw [node?_put_eq, node?_put_eq]
    split
    · rfl
    · exact h.nodes place'

/-- What is written to the same place of both leaves them alike. -/
theorem write (h : Alike fs fs') (place : Place) (content content' : Bytes) :
    Alike ((fs.create place).appendAt place content) ((fs'.create place).appendAt place content') :=
  Alike.put (Alike.put h)

end Alike

/-! ## Files that stay -/

/-- There is a file at a place. -/
def HasFile (fs : Files) (place : Place) : Prop :=
  ∃ content, fs.node? place = some (.file content)

theorem HasFile.put (h : fs.HasFile place) : (fs.put place' (.file content)).HasFile place := by
  obtain ⟨c, hc⟩ := h
  unfold HasFile
  rw [node?_put_eq]
  split
  · exact ⟨_, rfl⟩
  · exact ⟨c, hc⟩

theorem HasFile.write (h : fs.HasFile place) : ((fs.create place').appendAt place' text).HasFile place :=
  h.put.put

/-- The place of a file that can be written is not the root, which is a directory. -/
theorem ne_root_of_filePlace (h : fs.filePlace path = .ok place) : place ≠ [] := by
  rintro rfl
  unfold filePlace at h
  cases husable : usable path with
  | error fault =>
      rw [husable] at h
      cases h
  | ok path =>
      rw [husable] at h
      simp only [bind, Except.bind] at h
      split at h
      · cases h
      · split at h
        · cases h
        · next hnode =>
            cases h
            exact hnode rfl

theorem hasFile_appendAt (hroot : place ≠ []) : (fs.appendAt place text).HasFile place :=
  ⟨_, by rw [appendAt, node?_put fs hroot, if_pos rfl]⟩

/-- A file that is there grows and is there. -/
theorem HasFile.alike_appendAt (h : fs.HasFile place) : Alike fs (fs.appendAt place text) where
  current := rfl
  limits := rfl
  nodes place' := by
    obtain ⟨c, hc⟩ := h
    rw [appendAt, node?_put_eq]
    split
    · next hplace =>
        rw [← hplace.2, hc]
        rfl
    · rfl

/-! ## Files that are kept -/

/-- Apart from a place there are the same files, with the same content. -/
def Keeps (apart : Option Place) (fs fs' : Files) : Prop :=
  ∀ place, apart ≠ some place →
    ∀ content, fs'.node? place = some (.file content) ↔ fs.node? place = some (.file content)

theorem Keeps.refl (apart : Option Place) (fs : Files) : Keeps apart fs fs :=
  fun _ _ _ => Iff.rfl

theorem Keeps.trans {apart : Option Place} (h : Keeps apart fs fs') (h' : Keeps apart fs' fs'') : Keeps apart fs fs'' :=
  fun place hplace content => (h' place hplace content).trans (h place hplace content)

theorem keeps_appendAt : Keeps (some place) fs (fs.appendAt place text) := by
  intro place' hplace content
  rw [appendAt, node?_put_eq, if_neg fun h => hplace (congrArg some h.2)]

theorem keeps_makeDirectory {apart : Option Place} {way : List Bytes} (h : fs.makeDirectory place way = .ok fs') :
    Keeps apart fs fs' := by
  unfold makeDirectory at h
  cases hplace : fs.placeOfNew place way with
  | error fault =>
      rw [hplace] at h
      cases h
  | ok target =>
      rw [hplace] at h
      simp only [bind, Except.bind] at h
      split at h
      · next hnone =>
          cases h
          intro place' _ content
          rw [node?_put_eq]
          split
          · next hsame =>
              rw [← hsame.2, hnone]
              simp
          · rfl
      · cases h
        exact .refl apart fs
      · cases h

theorem keeps_makeEach {apart : Option Place} {ways : List (List Bytes)} :
    Keeps apart fs (fs.makeEach place ways).1 := by
  induction ways generalizing fs with
  | nil => exact .refl apart fs
  | cons way ways ih =>
      rw [makeEach]
      cases hmake : fs.makeDirectory place way with
      | ok made => exact (keeps_makeDirectory hmake).trans ih
      | error fault => exact .refl apart fs

/-- **Making directories** leaves all files alone, also where not all can be made. -/
theorem keeps_makeDirectories {apart : Option Place} : Keeps apart fs (fs.makeDirectories path).1 := by
  unfold makeDirectories
  split
  · exact .refl apart fs
  · exact .refl apart fs
  · exact .refl apart fs
  · split
    · exact .refl apart fs
    · simp only
      split
      · exact .refl apart fs
      · exact keeps_makeEach

theorem HasFile.of_keeps (h : Keeps none fs fs') (hfile : fs.HasFile place) : fs'.HasFile place :=
  hfile.imp fun content hcontent => (h place nofun content).mpr hcontent

end Files

end ModRepair.Storage
