import ModRepair.Log.Options

/-!
# Arguments about logging

How the arguments about logging are written, as a relation between an argument and what it says. There are two readers
of them, one that takes what they say and one that only asks whether they say anything; both know the same arguments.

* `LogOption.Says` — **the arguments**, one constructor for each way of writing one;
* `LogOption.ofArgument?_eq_some_iff` — the reader takes from an argument what it says;
* `isLogging_iff` — the test, in the words in which it is made: names that are followed by a value, whole words, and
  hyphens with letters; `isLogging_iff_exists`: it finds those that say something.
-/

namespace ModRepair.Log

namespace LogOption

variable {arg : Bytes} {option : LogOption}

/-- What an argument says about logging. -/
inductive Says : Bytes → LogOption → Prop
  | level (name : Bytes) : Says (ascii "--log-level=" ++ name) (.level (.ofName name))
  | filter (spec : Bytes) : Says (ascii "--log-filter=" ++ spec) (.filter spec)
  | file (path : Bytes) : Says (ascii "--log-file=" ++ path) (.file path)
  | format (name : Bytes) : Says (ascii "--log-format=" ++ name) (.format (formatOfName name))
  | quiet {arg : Bytes} (h : arg = ascii "-q" ∨ arg = ascii "--quiet") : Says arg (.level .error)
  | verbose : Says (ascii "--verbose") (.verbosity 1)
  /-- A hyphen and one `v` or more. -/
  | letters (n : Nat) : Says (Bytes.minus :: List.replicate (n + 1) 0x76) (.verbosity (n + 1))

theorem verboseFlag?_eq_some_iff {amount : Nat} :
    verboseFlag? arg = some amount ↔ ∃ n, amount = n + 1 ∧ arg = Bytes.minus :: List.replicate (n + 1) 0x76 := by
  constructor
  · intro h
    unfold verboseFlag? at h
    split at h
    · next c v rest =>
        split at h
        · next hflag =>
            obtain ⟨rfl, hall⟩ := hflag
            cases h
            refine ⟨rest.length, rfl, congrArg _ (List.eq_replicate_iff.mpr ⟨rfl, fun b hb => ?_⟩)⟩
            exact beq_iff_eq.mp (List.all_eq_true.mp hall b hb)
        · cases h
    · cases h
  · rintro ⟨n, rfl, rfl⟩
    rw [List.replicate_succ, verboseFlag?, if_pos ⟨rfl, by simp⟩, List.length_replicate]

/-- The options with a value are told by their names. -/
theorem named_eq_some (h : named.findSome? (fun e => (Bytes.after? (ascii e.1) arg).map e.2) = some option) :
    Says arg option := by
  obtain ⟨e, he, h⟩ := List.exists_of_findSome?_eq_some h
  obtain ⟨value, hvalue, rfl⟩ := Option.map_eq_some_iff.mp h
  obtain rfl := Bytes.after?_eq_some_iff.mp hvalue
  simp only [named, List.mem_cons, List.not_mem_nil, or_false] at he
  rcases he with rfl | rfl | rfl | rfl
  · exact .level value
  · exact .filter value
  · exact .file value
  · exact .format value

/-- **The reader takes from an argument what it says.** -/
theorem ofArgument?_eq_some_iff : ofArgument? arg = some option ↔ Says arg option := by
  constructor
  · intro h
    unfold ofArgument? at h
    split at h
    · next hnamed =>
        cases h
        exact named_eq_some hnamed
    split at h
    · next hquiet =>
        cases h
        exact .quiet hquiet
    split at h
    · next hverbose =>
        subst hverbose
        cases h
        exact .verbose
    · obtain ⟨amount, hflag, rfl⟩ := Option.map_eq_some_iff.mp h
      obtain ⟨n, rfl, rfl⟩ := verboseFlag?_eq_some_iff.mp hflag
      exact .letters n
  · intro h
    cases h with
    | level => rfl
    | filter => rfl
    | file => rfl
    | format => rfl
    | quiet h => rcases h with rfl | rfl <;> rfl
    | verbose => rfl
    | letters n =>
        have hflag := verboseFlag?_eq_some_iff.mpr ⟨n, rfl, rfl⟩
        -- No word has a `v` behind its first hyphen.
        have hword : ∀ word : Bytes, word[1]? ≠ some 0x76 → Bytes.minus :: List.replicate (n + 1) 0x76 ≠ word := by
          rintro word hsecond rfl
          exact hsecond rfl
        have hquiet := not_or.mpr ⟨hword (ascii "-q") (by decide), hword (ascii "--quiet") (by decide)⟩
        unfold ofArgument?
        split
        · next hnamed => cases hnamed
        · rw [if_neg hquiet, if_neg (hword (ascii "--verbose") (by decide)), hflag]
          rfl

end LogOption

/-- **The test**, in the words in which it is made. -/
theorem isLogging_iff {arg : Bytes} : isLogging arg = true ↔
    (∃ name ∈ ["--log-level=", "--log-filter=", "--log-file=", "--log-format="], ∃ value, arg = ascii name ++ value) ∨
      (∃ word ∈ ["-q", "--quiet", "--verbose"], arg = ascii word) ∨
      ∃ n, arg = Bytes.minus :: List.replicate (n + 1) 0x76 := by
  simp only [isLogging, Bool.or_eq_true, List.any_eq_true, Option.isSome_iff_exists, Bytes.after?_eq_some_iff, beq_iff_eq,
    LogOption.verboseFlag?_eq_some_iff, or_assoc]
  refine or_congr Iff.rfl (or_congr Iff.rfl ?_)
  constructor
  · rintro ⟨_, n, -, h⟩
    exact ⟨n, h⟩
  · rintro ⟨n, h⟩
    exact ⟨n + 1, n, rfl, h⟩

/-- **The test finds the arguments that say something.** -/
theorem isLogging_iff_exists {arg : Bytes} : isLogging arg = true ↔ ∃ option, LogOption.Says arg option := by
  rw [isLogging_iff]
  constructor
  · rintro (⟨name, hname, value, rfl⟩ | ⟨word, hword, rfl⟩ | ⟨n, rfl⟩)
    · simp only [List.mem_cons, List.not_mem_nil, or_false] at hname
      rcases hname with rfl | rfl | rfl | rfl
      · exact ⟨_, .level value⟩
      · exact ⟨_, .filter value⟩
      · exact ⟨_, .file value⟩
      · exact ⟨_, .format value⟩
    · simp only [List.mem_cons, List.not_mem_nil, or_false] at hword
      rcases hword with rfl | rfl | rfl
      · exact ⟨_, .quiet (.inl rfl)⟩
      · exact ⟨_, .quiet (.inr rfl)⟩
      · exact ⟨_, .verbose⟩
    · exact ⟨_, .letters n⟩
  · rintro ⟨option, h⟩
    cases h with
    | level name => exact .inl ⟨"--log-level=", by simp, name, rfl⟩
    | filter spec => exact .inl ⟨"--log-filter=", by simp, spec, rfl⟩
    | file path => exact .inl ⟨"--log-file=", by simp, path, rfl⟩
    | format name => exact .inl ⟨"--log-format=", by simp, name, rfl⟩
    | quiet h =>
        rcases h with rfl | rfl
        · exact .inr (.inl ⟨"-q", by simp, rfl⟩)
        · exact .inr (.inl ⟨"--quiet", by simp, rfl⟩)
    | verbose => exact .inr (.inl ⟨"--verbose", by simp, rfl⟩)
    | letters n => exact .inr (.inr ⟨n, rfl⟩)

/-- An argument of which the test says no says nothing to the reader. -/
theorem ofArgument?_eq_none_iff {arg : Bytes} : LogOption.ofArgument? arg = none ↔ isLogging arg = false := by
  rw [← Bool.not_eq_true, isLogging_iff_exists, Option.eq_none_iff_forall_ne_some, not_exists]
  exact forall_congr' fun option => not_congr LogOption.ofArgument?_eq_some_iff

end ModRepair.Log
