import Mathlib.Data.List.Basic
import ModRepair.Proofs.Text.Split
import ModRepair.Storage.Files

/-!
# Paths of files in a directory

A path that is put together from that of a directory and a name is the two, with a slash between them if there is none
(`join_eq`). If the name is that of a file, the path leads to a file of that name in the directory and nowhere else
(`filePlace_join`).
-/

namespace ModRepair.Storage

namespace Path

/-- What stands between the path of a directory and the name of what is in it. -/
def separator (directory : Bytes) : Bytes :=
  if directory = [] ∨ directory.getLast? = some Bytes.slash then [] else [Bytes.slash]

theorem join_eq (directory name : Bytes) : join directory name = directory ++ separator directory ++ name := by
  unfold join separator
  split
  · next hlast =>
      rw [List.getLast?_eq_none_iff.mp hlast]
      rfl
  · next c hlast =>
      have hne : directory ≠ [] := by
        rintro rfl
        cases hlast
      by_cases hc : c = Bytes.slash
      · simp [hc, hlast]
      · simp [hc, hlast, hne]

/-- Of a path in a directory that has no zero byte, the name is cut. -/
theorem untilZero_join {directory : Bytes} (hzero : 0 ∉ directory) (name : Bytes) :
    (join directory name).untilZero = join directory name.untilZero := by
  have hseparator : 0 ∉ separator directory := by
    unfold separator
    split <;> decide
  rw [join_eq, join_eq]
  exact Bytes.untilZero_append (by simp [hzero, hseparator]) name

/-- A name that can be that of a file: one step of a path, which does not lead to a directory by itself. -/
structure IsFileName (name : Bytes) : Prop where
  nonempty : name ≠ []
  not_here : name ≠ here
  not_above : name ≠ above
  no_slash : Bytes.slash ∉ name
  no_zero : 0 ∉ name

section

variable {directory name : Bytes}

theorem names_of_isFileName (h : IsFileName name) : names name = [name] := by
  rw [names, Bytes.splitAll_of_not_mem h.no_slash]
  simp [h.nonempty]

/-- The name is the last along the path. -/
theorem names_join (directory : Bytes) (h : IsFileName name) :
    names (join directory name) = names directory ++ [name] := by
  have hname := names_of_isFileName h
  have hslash : ∀ d, names (d ++ Bytes.slash :: name) = names d ++ [name] := by
    intro d
    rw [names, Bytes.splitAll_append_cons, List.filter_append]
    exact congrArg (names d ++ ·) hname
  unfold join
  split
  · next hlast =>
      rw [List.getLast?_eq_none_iff.mp hlast, hname]
      rfl
  · next c hlast =>
      split
      · next hc =>
          subst hc
          obtain ⟨d, rfl⟩ := List.getLast?_eq_some_iff.mp hlast
          have hclosed : names (d ++ [Bytes.slash]) = names d := by
            rw [names, Bytes.splitAll_append_cons, List.filter_append]
            exact List.append_nil (names d)
          rw [List.append_assoc, List.singleton_append, hslash, hclosed]
      · exact hslash directory

theorem steps_join (directory : Bytes) (h : IsFileName name) :
    steps (join directory name) = names directory ++ [name] := by
  have hlast : (join directory name).getLast? ≠ some Bytes.slash := by
    rw [join_eq, List.getLast?_append_of_ne_nil _ h.nonempty]
    exact fun hslash => h.no_slash (List.mem_of_getLast? hslash)
  rw [steps, names_join directory h, if_neg hlast, List.append_nil]

theorem isAbsolute_join (directory : Bytes) (h : IsFileName name) :
    isAbsolute (join directory name) = isAbsolute directory := by
  rw [join_eq]
  cases directory with
  | nil =>
      obtain ⟨c, rest, rfl⟩ := List.exists_cons_of_ne_nil h.nonempty
      have hc : c ≠ Bytes.slash := fun hslash => h.no_slash (hslash ▸ List.mem_cons_self)
      simp [separator, isAbsolute, hc]
  | cons c rest => rfl

end

end Path

namespace Files

variable {fs : Files} {place target : Place} {directory name path : Bytes} {way : List Bytes}

/-- A step that leads on leads to a place of the name. -/
theorem eq_of_enter (hhere : name ≠ Path.here) (habove : name ≠ Path.above) (h : fs.enter place name = .ok target) :
    target = place ++ [name] := by
  unfold enter at h
  split at h
  · cases h
  · cases h
  · rw [if_neg hhere, if_neg habove] at h
    split at h
    · cases h
    · split at h
      · exact (Except.ok.inj h).symm
      · cases h

/-- The place at the end of a way is one of the last name, in the place that the way before it leads to. -/
theorem eq_of_placeOfNew (hhere : name ≠ Path.here) (habove : name ≠ Path.above)
    (h : fs.placeOfNew place (way ++ [name]) = .ok target) :
    ∃ parent, fs.walk place way = .ok parent ∧ target = parent ++ [name] := by
  simp only [placeOfNew, List.getLast?_concat, List.dropLast_concat] at h
  cases hwalk : fs.walk place way with
  | error fault =>
      rw [hwalk] at h
      cases h
  | ok parent =>
      simp only [hwalk, bind, Except.bind] at h
      refine ⟨parent, rfl, ?_⟩
      split at h
      · exact (Except.ok.inj h).symm
      · exact eq_of_enter hhere habove h

/-- A path that names a file is of use up to its first zero byte, and leads there. -/
theorem placeOfNew_of_filePlace (h : fs.filePlace path = .ok place) :
    fs.placeOfNew (fs.startOf path.untilZero) (Path.steps path.untilZero) = .ok place := by
  unfold filePlace usable at h
  simp only at h
  split at h
  · cases h
  split at h
  · cases h
  simp only [bind, Except.bind] at h
  split at h
  · cases h
  · next target htarget =>
      split at h
      · cases h
      · cases h
        exact htarget

/-- **The path of a name in a directory** leads to a file of that name in the place of the directory. -/
theorem filePlace_join (h : Path.IsFileName name) (hzero : 0 ∉ directory)
    (hplace : fs.filePlace (Path.join directory name) = .ok place) :
    ∃ parent, fs.walk (fs.startOf directory) (Path.names directory) = .ok parent ∧ place = parent ++ [name] := by
  have hcut : (Path.join directory name).untilZero = Path.join directory name := by
    rw [Path.untilZero_join hzero, Bytes.untilZero_of_not_mem h.no_zero]
  have hnew := placeOfNew_of_filePlace hplace
  rw [hcut, Path.steps_join directory h, startOf, Path.isAbsolute_join directory h] at hnew
  exact eq_of_placeOfNew h.not_here h.not_above hnew

end Files

end ModRepair.Storage
