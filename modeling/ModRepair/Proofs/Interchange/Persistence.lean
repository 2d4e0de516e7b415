import ModRepair.Proofs.Interchange.Reading
import ModRepair.Proofs.Interchange.RoundTrip
import ModRepair.Proofs.Profile.Reading

/-!
# Repaired modules survive on disk

`parse_repaired_module` puts the pieces together: readers accept only what can be written, runs keep it so, and what
can be written reads back from its text.
-/

namespace ModRepair.Interchange

/-- A host whose assemblies have been read, one after another. -/
def Accepted (host : Host) : Prop :=
  ∃ docs as, readAll readAssembly docs = .ok as ∧ host = as.foldl Host.add Host.empty

theorem Accepted.written {host : Host} (h : Accepted host) : host.Written := by
  obtain ⟨docs, as, hread, rfl⟩ := h
  refine Host.Written.foldl_add ?_ (readAll_all (fun _ _ => readAssembly_written) hread)
  intro a ha
  cases ha

/-- **A repaired module survives being written and read again.** Take any module that was read, with any host whose
    assemblies were, and a profile that was read or is the default one. Then any number of completed runs, with any
    options, leaves a module whose document reads back as that module, with or without the line feed at its end. -/
theorem parse_repaired_module {host : Option Host} (hhost : ∀ h, host = some h → Accepted h)
    {doc : Json} {start : Module} (hstart : readModule host doc = .ok start)
    {p : Profile} (hp : (∃ profile, Profile.read profile = .ok p) ∨ ∃ scopes, p = .watching scopes)
    (options : RepairOptions) {m : Module} (hruns : (Registry.ofProfile options p).Leads start m) :
    ∃ j, Json.parse (moduleJson m).document = .ok j ∧ Json.parse (moduleDocument m) = .ok j ∧
      readModule host j = .ok m := by
  obtain ⟨hbound, hwritten⟩ := readModule_written hstart
  have hrules : ∀ e ∈ p.platformShims ++ p.relocations ++ p.patchEngineShims, e.rule.Written := by
    rcases hp with ⟨profile, hread⟩ | ⟨scopes, rfl⟩
    · exact Profile.read_written hread
    · exact Profile.watching_written scopes
  have hhosts : ∀ h, start.host = some h → h.Written := by
    intro h hh
    rw [hbound] at hh
    exact (hhost h hh).written
  obtain ⟨hsame, hleft⟩ := hruns.written (Registry.written_ofProfile hrules) hhosts hwritten
  obtain ⟨hbare, hfile⟩ := parse_moduleJson m
  refine ⟨moduleJson m, hbare, hfile, ?_⟩
  have hread := readModule_moduleJson hleft
  rwa [hsame, hbound] at hread

/-- The document of the assembly of the small host. -/
def sampleHostJson : Json :=
  objectJson
    [("name", .literal "Host"), ("types", .array ([Sample.declA, Sample.declB].map typeDeclJson))]

/-- The document of a profile that moves the field `f` of `A` to the property `p` of `B`. -/
def sampleProfileJson : Json :=
  objectJson
    [("watched_scopes", Json.strings [ascii "Host"]), ("paranoid_detectors", .array []),
      ("relocations", .array [objectJson
        [("kind", .literal "field_to_property"), ("type", typeJson Sample.typeA), ("member", .literal "f"),
          ("to_type", typeJson Sample.typeB), ("to_member", .literal "p")]])]

theorem accepted_sampleHost : Accepted Sample.host :=
  ⟨[sampleHostJson], [⟨ascii "Host", [Sample.declA, Sample.declB]⟩], rfl, rfl⟩

/-- The module in which a run has replaced the load survives. -/
theorem parse_repaired_module_sample :
    let left := ((Registry.ofProfile .standard (Sample.profileOf [Sample.fieldMoved] [])).repair
      (Sample.moduleOf [Sample.loadF])).module
    left.instructions = [Sample.callGetP] ∧
      ∃ j, Json.parse (moduleJson left).document = .ok j ∧ Json.parse (moduleDocument left) = .ok j ∧
        readModule (some Sample.host) j = .ok left := by
  intro left
  have hhost : ∀ h, some Sample.host = some h → Accepted h := by
    intro h hh
    rw [← Option.some.inj hh]
    exact accepted_sampleHost
  have hstart : readModule (some Sample.host) (moduleJson (Sample.moduleOf [Sample.loadF])) =
      .ok (Sample.moduleOf [Sample.loadF]) := rfl
  have hprofile : Profile.read sampleProfileJson = .ok (Sample.profileOf [Sample.fieldMoved] []) := rfl
  have hruns : (Registry.ofProfile .standard (Sample.profileOf [Sample.fieldMoved] [])).Leads
      (Sample.moduleOf [Sample.loadF]) left := .run .none rfl
  exact ⟨by decide, parse_repaired_module hhost hstart (.inl ⟨_, hprofile⟩) .standard hruns⟩

end ModRepair.Interchange
