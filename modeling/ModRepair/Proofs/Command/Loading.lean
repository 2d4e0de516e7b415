import Mathlib.Data.List.Forall2
import ModRepair.Command.Loading
import ModRepair.Proofs.Command.Logging
import ModRepair.Proofs.Interchange.Reading

/-!
# What loading does

Loading reads one file after another, each as it stands by then: the log file may be among them, and it grows. So what a
file has given is said of files that differ from those at the start in what has been logged.

* `load_ok` — **loading only logs**, and if it succeeds every file that the options name has been read (`Loaded`);
* `load_error` — and if it fails one of them cannot be read (`Unloadable`).
-/

namespace ModRepair.Command

open Storage (Files)

/-- Every path is that of a file which was read, as it stood by then, and gave the part at the same place of a list. -/
def Reads {α : Type} (s : Session) (read : Files → Bytes → Except LoadFault α) : List Bytes → List α → Prop :=
  List.Forall₂ fun path a => ∃ files, s.Later files ∧ read files path = .ok a

/-- The profile is that of the file at a path, or without one that which watches the host. -/
def Chosen (s : Session) (host : Host) (profile : Profile) : Option Bytes → Prop
  | none => profile = .watching (host.assemblies.map (·.name))
  | some path => ∃ files, s.Later files ∧ loadProfile files path = .ok profile

/-- Everything that the options name has been read. -/
def Loaded (o : Options) (s : Session) (inputs : Inputs) : Prop :=
  ∃ assemblies : List Assembly,
    let host := assemblies.foldl Host.add .empty
    Reads s loadAssembly o.hosts assemblies ∧ Chosen s host inputs.profile o.profile ∧
      Reads s (loadModule · host) o.modules inputs.modules

/-- Something that the options name cannot be read. -/
def Unloadable (o : Options) (s : Session) (fault : LoadFault) : Prop :=
  ∃ files, s.Later files ∧
    ((∃ path ∈ o.hosts, loadAssembly files path = .error fault) ∨
      (∃ path, o.profile = some path ∧ loadProfile files path = .error fault) ∨
      ∃ host, ∃ path ∈ o.modules, loadModule files host path = .error fault)

section

variable {o : Options} {s s' : Session} {host host' : Host}

theorem Reads.mono {α : Type} {read : Files → Bytes → Except LoadFault α} {paths : List Bytes} {as : List α}
    (h : s.Logs s') (hreads : Reads s' read paths as) : Reads s read paths as :=
  hreads.imp fun _ _ ⟨files, hlater, hread⟩ => ⟨files, h.later hlater, hread⟩

theorem Chosen.mono {profile : Profile} {path : Option Bytes} (h : s.Logs s') (hchosen : Chosen s' host profile path) :
    Chosen s host profile path := by
  cases path with
  | none => exact hchosen
  | some path => exact hchosen.imp fun files ⟨hlater, hread⟩ => ⟨h.later hlater, hread⟩

theorem loadHost_ok {paths : List Bytes} (h : loadHost host paths s = (s', .ok host')) :
    s.Logs s' ∧ ∃ assemblies, Reads s loadAssembly paths assemblies ∧ host' = assemblies.foldl Host.add host := by
  induction paths generalizing host s with
  | nil =>
      cases h
      exact ⟨.refl _, [], .nil, rfl⟩
  | cons path paths ih =>
      rw [loadHost] at h
      split at h
      · cases h
      · next a ha =>
          have hlog := Session.logs_log s (loadedRecord a path)
          obtain ⟨hlogs, as, hreads, hhost⟩ := ih h
          exact ⟨hlog.trans hlogs, a :: as, .cons ⟨s.files, .refl, ha⟩ (hreads.mono hlog), hhost⟩

theorem loadHost_error {paths : List Bytes} {fault : LoadFault} (h : loadHost host paths s = (s', .error fault)) :
    s.Logs s' ∧ ∃ files, s.Later files ∧ ∃ path ∈ paths, loadAssembly files path = .error fault := by
  induction paths generalizing host s with
  | nil => cases h
  | cons path paths ih =>
      rw [loadHost] at h
      split at h
      · next hfault =>
          cases h
          exact ⟨.refl _, _, .refl, path, List.mem_cons_self, hfault⟩
      · next a ha =>
          have hlog := Session.logs_log s (loadedRecord a path)
          obtain ⟨hlogs, files, hlater, path', hmem, hfault⟩ := ih h
          exact ⟨hlog.trans hlogs, files, hlog.later hlater, path', List.mem_cons_of_mem path hmem, hfault⟩

theorem loadModules_ok {files : Files} {paths : List Bytes} {ms : List Module}
    (h : loadModules files host paths = .ok ms) :
    List.Forall₂ (fun path m => loadModule files host path = .ok m) paths ms := by
  induction paths generalizing ms with
  | nil =>
      cases h
      exact .nil
  | cons path paths ih =>
      obtain ⟨m, hm, h⟩ := ok_of_bind h
      obtain ⟨ms, hms, h⟩ := ok_of_bind h
      cases h
      exact .cons hm (ih hms)

theorem loadModules_error {files : Files} {paths : List Bytes} {fault : LoadFault}
    (h : loadModules files host paths = .error fault) : ∃ path ∈ paths, loadModule files host path = .error fault := by
  induction paths with
  | nil => cases h
  | cons path paths ih =>
      rw [loadModules] at h
      cases hm : loadModule files host path with
      | error fault' =>
          rw [hm] at h
          cases h
          exact ⟨path, List.mem_cons_self, hm⟩
      | ok m =>
          rw [hm] at h
          cases hms : loadModules files host paths with
          | error fault' =>
              rw [hms] at h
              cases h
              obtain ⟨path', hmem, hfault⟩ := ih hms
              exact ⟨path', List.mem_cons_of_mem path hmem, hfault⟩
          | ok ms =>
              rw [hms] at h
              cases h

theorem chooseProfile_ok {path : Option Bytes} {profile : Profile}
    (h : chooseProfile host path s = (s', .ok profile)) : s.Logs s' ∧ Chosen s host profile path := by
  unfold chooseProfile at h
  split at h
  · cases h
    exact ⟨.refl s, rfl⟩
  · next path =>
      split at h
      · cases h
      · next hread =>
          cases h
          exact ⟨Session.logs_log s _, s.files, .refl, hread⟩

theorem chooseProfile_error {path : Option Bytes} {fault : LoadFault}
    (h : chooseProfile host path s = (s', .error fault)) :
    s.Logs s' ∧ ∃ path', path = some path' ∧ loadProfile s.files path' = .error fault := by
  unfold chooseProfile at h
  split at h
  · cases h
  · next path =>
      split at h
      · next hread =>
          cases h
          exact ⟨Session.logs_logAll s _, path, rfl, hread⟩
      · cases h

/-- **Loading only logs**, and if it succeeds everything has been read. -/
theorem load_ok {inputs : Inputs} (h : load o s = (s', .ok inputs)) : s.Logs s' ∧ Loaded o s inputs := by
  unfold load at h
  split at h
  · cases h
  next s₁ host hhost =>
  obtain ⟨hlogs₁, assemblies, hassemblies, rfl⟩ := loadHost_ok hhost
  split at h
  · cases h
  next s₂ profile hprofile =>
  obtain ⟨hlogs₂, hchosen⟩ := chooseProfile_ok hprofile
  have hlogs := hlogs₁.trans hlogs₂
  simp only [Prod.mk.injEq] at h
  obtain ⟨rfl, h⟩ := h
  obtain ⟨ms, hms, rfl⟩ := ok_of_map h
  exact ⟨hlogs, assemblies, hassemblies, hchosen.mono hlogs₁,
    (loadModules_ok hms).imp fun _ _ hm => ⟨_, hlogs.files, hm⟩⟩

/-- **Loading only logs**, and if it fails something cannot be read. -/
theorem load_error {fault : LoadFault} (h : load o s = (s', .error fault)) : s.Logs s' ∧ Unloadable o s fault := by
  unfold load at h
  split at h
  · next hhost =>
      cases h
      obtain ⟨hlogs, files, hlater, hfault⟩ := loadHost_error hhost
      exact ⟨hlogs, files, hlater, .inl hfault⟩
  next s₁ host hhost =>
  obtain ⟨hlogs₁, -⟩ := loadHost_ok hhost
  split at h
  · next hprofile =>
      cases h
      obtain ⟨hlogs₂, hfault⟩ := chooseProfile_error hprofile
      exact ⟨hlogs₁.trans hlogs₂, s₁.files, hlogs₁.files, .inr (.inl hfault)⟩
  next s₂ profile hprofile =>
  have hlogs := hlogs₁.trans (chooseProfile_ok hprofile).1
  simp only [Prod.mk.injEq] at h
  obtain ⟨rfl, h⟩ := h
  cases hms : loadModules s₂.files host o.modules with
  | error fault' =>
      rw [hms] at h
      cases h
      exact ⟨hlogs, s₂.files, hlogs.files, .inr (.inr ⟨host, loadModules_error hms⟩)⟩
  | ok ms =>
      rw [hms] at h
      cases h

end

end ModRepair.Command
