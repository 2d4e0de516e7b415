import ModRepair.Command.Arguments
import ModRepair.Proofs.Log.Argument

/-!
# Two readers of one list of arguments

The options of the program and those about logging are read from the same arguments by two readers, each with its own
idea of which arguments are about logging. Neither disturbs the other: an argument for one of them makes no difference to
the other, wherever it stands. Only behind an option that waits for its value does the reader of the program's options
take an argument whatever it looks like.

* `Options.awaiting`, `Options.mem_awaiting` — the arguments that wait for a value, and that there are no others;
* `Options.take_append` — **reading goes on** from where the first arguments lead, unless they end with one that waits;
* `readers_do_not_interfere` — **both directions**.
-/

namespace ModRepair.Command

namespace Options

/-! ## Arguments that wait for a value -/

/-- The arguments that take the next one as their value. -/
def awaiting : List Bytes :=
  ["--host", "--profile", "--output", "--report-format", "--jobs", "-j"].map ascii

/-- The arguments do not end with one that waits for a value. -/
def Complete (args : List Bytes) : Prop :=
  ∀ last, args.getLast? = some last → last ∉ awaiting

theorem Complete.of_cons {arg : Bytes} {args : List Bytes} (h : Complete (arg :: args)) : Complete args := by
  intro last hlast
  refine h last ?_
  rw [List.getLast?_cons, hlast]
  rfl

theorem mem_awaiting_of_setting {arg : Bytes} {s : Setting} (h : Setting.ofArgument? arg = some (s, none)) :
    arg ∈ awaiting := by
  unfold Setting.ofArgument? at h
  split at h
  · next hshort =>
      rw [hshort]
      decide
  · obtain ⟨⟨name, s'⟩, hname, h⟩ := List.exists_of_findSome?_eq_some h
    have hnames : ∀ e ∈ settings, ascii e.1 ∈ awaiting := by decide
    simp only at h
    split at h
    · next hafter =>
        rw [Bytes.after?_eq_some_iff.mp hafter, List.append_nil]
        exact hnames _ hname
    · split at h <;> cases h
    · cases h

/-- **An option without its value waits for it**: it is one of those names and nothing else. -/
theorem mem_awaiting {arg : Bytes} {s : Setting} (h : Argument.ofBytes arg = .setting s none) : arg ∈ awaiting := by
  unfold Argument.ofBytes at h
  split at h
  · cases h
  split at h
  · cases h
  split at h
  · next hsetting =>
      cases h
      exact mem_awaiting_of_setting hsetting
  · split at h <;> cases h

/-! ## Reading -/

/-- **Reading goes on** from where the first arguments lead, unless they end with one that waits for a value. -/
theorem take_append {before : List Bytes} (h : Complete before) (o : Options) (after : List Bytes) :
    o.take (before ++ after) = (o.take before).bind fun o => o.take after := by
  -- Induction along the reader: an option that waits takes two arguments at once.
  fun_induction Options.take o before with
  | case1 => rfl
  | case2 o arg rest hkind ih =>
      rw [List.cons_append, take]
      simp only [hkind]
      exact ih h.of_cons
  | case3 o arg rest s hkind ih =>
      rw [List.cons_append, take]
      simp only [hkind]
      exact ih h.of_cons
  | case4 o arg rest s value hkind ih =>
      rw [List.cons_append, take]
      simp only [hkind]
      cases o.set s value with
      | error => rfl
      | ok o => exact ih o h.of_cons
  | case5 o arg s hkind => exact absurd (mem_awaiting hkind) (h arg rfl)
  | case6 o arg s hkind value rest ih =>
      rw [List.cons_append, List.cons_append, take]
      simp only [hkind]
      cases o.set s value with
      | error => rfl
      | ok o => exact ih o h.of_cons.of_cons
  | case7 o arg rest hkind =>
      rw [List.cons_append, take]
      simp only [hkind]
      rfl
  | case8 o arg rest hkind ih =>
      rw [List.cons_append, take]
      simp only [hkind]
      exact ih h.of_cons

/-- An argument about logging is skipped. -/
theorem take_logging {arg : Bytes} (h : Log.isLogging arg = true) (o : Options) (after : List Bytes) :
    o.take (arg :: after) = o.take after := by
  have hkind : Argument.ofBytes arg = .logging := if_pos h
  rw [take]
  simp only [hkind]

end Options

/-- **The readers do not interfere.** An argument about logging put anywhere but behind an option that waits for its
value makes no difference to the options that are read, or to the fault that reading ends with. Any other argument put
anywhere makes no difference to what is configured for the log. -/
theorem readers_do_not_interfere (before after : List Bytes) (arg : Bytes) :
    (Log.isLogging arg = true → (∀ last, before.getLast? = some last → last ∉ Options.awaiting) →
      Options.ofArguments (before ++ arg :: after) = Options.ofArguments (before ++ after)) ∧
    (Log.isLogging arg = false → ∀ environment,
      Log.Config.ofArguments (before ++ arg :: after) environment =
        Log.Config.ofArguments (before ++ after) environment) := by
  constructor
  · intro hlogging hcomplete
    have htake : Options.initial.take (before ++ arg :: after) = Options.initial.take (before ++ after) := by
      rw [Options.take_append hcomplete, Options.take_append hcomplete]
      simp only [Options.take_logging hlogging]
    rw [Options.ofArguments, htake]
    rfl
  · intro hother environment
    have hsilent : Log.LogOption.ofArgument? arg = none := Log.ofArgument?_eq_none_iff.mpr hother
    rw [Log.Config.ofArguments, List.filterMap_append, List.filterMap_cons_none hsilent, ← List.filterMap_append]
    rfl

/-- A `-v` that is the value of `--host` is passed by, and `-q` behind it is skipped, up to the same fault at the end;
for the log the value of `--host` counts, and `--host` before it does not. -/
theorem readers_do_not_interfere_sample :
    let hosts := ["--host", "-v"].map ascii
    let rest := ["a.json", "--jobs"].map ascii
    Options.ofArguments (hosts ++ ascii "-q" :: rest) = Options.ofArguments (hosts ++ rest) ∧
      Options.ofArguments (hosts ++ rest) = .error .invalidJobs ∧
      Log.Config.ofArguments ([] ++ ascii "--host" :: [ascii "-v"]) (some (ascii "cil=trace")) =
        Log.Config.ofArguments [ascii "-v"] (some (ascii "cil=trace")) := by
  intro hosts rest
  have hcomplete : ∀ last, hosts.getLast? = some last → last ∉ Options.awaiting := by
    intro last hlast
    cases hlast
    decide
  exact ⟨(readers_do_not_interfere hosts rest (ascii "-q")).1 (by decide) hcomplete, rfl,
    (readers_do_not_interfere [] [ascii "-v"] (ascii "--host")).2 (by decide) _⟩

end ModRepair.Command
