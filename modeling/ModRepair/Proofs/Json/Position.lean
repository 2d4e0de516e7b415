import ModRepair.Json.ErrorReport
import ModRepair.Proofs.Json.Refusal

/-!
# Where errors are placed

The place that an error report gives, for the faults that are about one byte. That byte is the first that rules the
text out: what stands before it is the start of a JSON text (`Grammar.Viable`), and with it there is none.

* `parse_refused` — the reader stops at that byte, in front of it or behind it;
* `error_location_iff` — **the place of the byte** is reported for the faults in front of it, and for all others the
  place behind it, unless the text has ended.
-/

namespace ModRepair.Json

open Grammar

/-! ## Starts of texts -/

/-- A text that can go on to a JSON text. -/
def Grammar.Viable (p : Bytes) : Prop :=
  ∃ s n j, Document n (p ++ s) j

/-- The value of a document is read with as many levels as it needs, or more. -/
theorem value_of_document {n m : Nat} {s : Bytes} {j : Json} (h : Document n s j) (hnm : n ≤ m) :
    ∃ rest, Parser.value m (Parser.skipBlanks s) = .ok (j, rest) := by
  obtain ⟨before, hvalue, after⟩ := h
  rename_i w t w'
  have hends : Parser.Ends w' := by
    simpa using Parser.ends_blanks after (show Parser.Ends [] from nofun)
  have hvalue := denotes_mono hnm hvalue
  refine ⟨w', ?_⟩
  rw [(Parser.reads_value m).skipBlanks before hvalue, (Parser.reads_value m).accepts hvalue hends]

/-- What is refused, and not for its depth, is no document under any limit. -/
theorem not_document_of_refused {s : Bytes} {fault : Fault}
    (h : Parser.value Parser.maxLevels (Parser.skipBlanks s) = .error fault) (hcause : fault.cause ≠ .tooDeep)
    (n : Nat) (j : Json) : ¬ Document n s j := by
  intro hdocument
  obtain ⟨rest, hread⟩ := value_of_document hdocument (Nat.le_max_left n Parser.maxLevels)
  rcases Parser.value_of_more_levels (Nat.le_max_right n Parser.maxLevels) (Parser.skipBlanks s) with
    heq | ⟨rest, hdeep⟩
  · rw [hread, h] at heq
    cases heq
  · rw [h] at hdeep
    cases hdeep
    exact hcause rfl

/-- **The reader stops at the first byte that rules the text out.** -/
theorem parse_refused {s : Bytes} {fault : Fault} (h : parse s = .error fault) (hcause : fault.cause ∈ Cause.atByte) :
    ∃ pre suf, s = pre ++ suf ∧ fault.rest = fault.cause.remaining suf ∧ Viable pre ∧
      ∀ c ∈ suf.head?, ¬ Viable (pre ++ [c]) := by
  simp only [parse, bind, Except.bind] at h
  split at h
  · next hvalue =>
      cases h
      obtain ⟨w, hw, hs, hskip⟩ := Parser.exists_skipped s
      obtain ⟨pre, suf, hpre, ⟨t, j, ht⟩, hrefuses⟩ := (Parser.steady_value Parser.maxLevels).refused hvalue hcause
      refine ⟨w ++ pre, suf, by rw [List.append_assoc, ← hpre, ← hs], ?_, ⟨t, Parser.maxLevels + 1, j, ?_⟩, ?_⟩
      · have hself := hrefuses suf rfl
        rw [← hpre, hvalue] at hself
        exact congrArg Fault.rest (Except.error.inj hself)
      · have hdocument := Document.text hw ht Parser.blanks_nil
        simpa using hdocument
      · -- A document with the byte would be read as the text is up to the byte, and refused there.
        rintro c hc ⟨u, n, j', hdocument⟩
        have hhead : (c :: u).head? = suf.head? := hc.symm
        have hread := hrefuses (c :: u) hhead
        have hskip' : Parser.skipBlanks (w ++ pre ++ [c] ++ u) = pre ++ c :: u := by
          simp only [List.append_assoc, List.singleton_append]
          refine hskip _ ?_
          rw [hpre]
          exact Parser.head?_append_congr hhead pre
        rw [← hskip'] at hread
        refine not_document_of_refused hread ?_ n j' hdocument
        rintro heq
        rw [heq] at hcause
        exact absurd hcause (by decide)
  · split at h
    · cases h
    · cases h
      exact absurd hcause (show Cause.trailingContent ∉ Cause.atByte by decide)

/-! ## Places -/

/-- A byte moves the place on: a line feed to the start of the next line, any other by a column. -/
theorem Location.after_concat (s : Bytes) (c : UInt8) :
    Location.after (s ++ [c]) =
      if c = Bytes.newline then ⟨(Location.after s).line + 1, 1⟩
      else ⟨(Location.after s).line, (Location.after s).column + 1⟩ := by
  by_cases hc : c = Bytes.newline
  · simp [Location.after, hc, Nat.add_assoc]
  · simp [Location.after, hc, Nat.add_assoc]

theorem Location.after_concat_ne (s : Bytes) (c : UInt8) : Location.after (s ++ [c]) ≠ Location.after s := by
  rw [Location.after_concat]
  split
  · exact fun h => Nat.succ_ne_self _ (congrArg Location.line h)
  · exact fun h => Nat.succ_ne_self _ (congrArg Location.column h)

/-- The message tells the cause, if that is about one byte. -/
theorem Cause.eq_of_message {c c' : Cause} (hc' : c' ∈ atByte) (h : c.message = c'.message) : c = c' := by
  -- The messages that quote a byte start with other letters.
  have hstart : ∀ c ∈ atByte, c.message.head? ≠ some 0x55 ∧ c.message.head? ≠ some 0x49 := by decide
  cases c with
  | unexpectedCharacter b => exact absurd (by rw [← h]; rfl) (hstart c' hc').1
  | invalidEscape b => exact absurd (by rw [← h]; rfl) (hstart c' hc').2
  | _ =>
      revert c'
      decide

theorem Cause.message_mem_map_iff {causes : List Cause} (h : causes ⊆ atByte) {c : Cause} :
    c.message ∈ causes.map message ↔ c ∈ causes := by
  constructor
  · intro hmessage
    obtain ⟨c', hc', heq⟩ := List.mem_map.mp hmessage
    rwa [eq_of_message (h hc') heq.symm]
  · exact List.mem_map_of_mem

/-- The place of a fault in a text: that of the byte which is not accepted, or the one behind it. -/
theorem Fault.location_report {pre suf : Bytes} {fault : Fault} (h : fault.rest = fault.cause.remaining suf) :
    (fault.report (pre ++ suf)).location =
      Location.after (if fault.cause ∈ Cause.behind then pre ++ suf.take 1 else pre) := by
  have hconsumed : ∀ p, pre ++ suf = p ++ fault.rest →
      (pre ++ suf).take ((pre ++ suf).length - fault.rest.length) = p := by
    intro p hp
    rw [hp]
    simp
  refine congrArg Location.after (hconsumed _ ?_)
  rw [h, Cause.remaining]
  split
  · cases suf <;> simp
  · rfl

/-- **Where errors are placed.** A text that is refused with one of seven messages has a first byte that no JSON text
has there, or it has ended. With the first four of the messages the place of that byte or end is reported, with the
other three the place behind the byte: that is the right one only if the text has ended. -/
theorem error_location_iff {text : Bytes} {report : ErrorReport} (hread : read text = .error report)
    (hmessage : report.message ∈ Cause.atByte.map Cause.message) :
    ∃ accepted refused, text = accepted ++ refused ∧ Viable accepted ∧
      (∀ c ∈ refused.head?, ¬ Viable (accepted ++ [c])) ∧
      (report.message ∈ Cause.inFront.map Cause.message → report.location = Location.after accepted) ∧
      (report.message ∈ Cause.behind.map Cause.message →
        report.location = Location.after (accepted ++ refused.take 1)) ∧
      (report.location = Location.after accepted ↔
        report.message ∈ Cause.inFront.map Cause.message ∨ refused = []) := by
  rw [read] at hread
  cases hparse : parse text with
  | ok j =>
      rw [hparse] at hread
      cases hread
  | error fault =>
      rw [hparse] at hread
      cases hread
      have hcause := (Cause.message_mem_map_iff (List.Subset.refl _)).mp hmessage
      obtain ⟨pre, suf, rfl, hrest, hviable, hfirst⟩ := parse_refused hparse hcause
      have hfront : (fault.report (pre ++ suf)).message ∈ Cause.inFront.map Cause.message ↔
          fault.cause ∈ Cause.inFront := Cause.message_mem_map_iff (List.subset_append_left _ _)
      have hbehind : (fault.report (pre ++ suf)).message ∈ Cause.behind.map Cause.message ↔
          fault.cause ∈ Cause.behind := Cause.message_mem_map_iff (List.subset_append_right _ _)
      rw [hfront, hbehind, Fault.location_report hrest]
      refine ⟨pre, suf, rfl, hviable, hfirst, ?_⟩
      rcases List.mem_append.mp hcause with hcause | hcause
      · have hnot : fault.cause ∉ Cause.behind := Cause.not_behind_of_inFront hcause
        rw [if_neg hnot]
        exact ⟨fun _ => rfl, fun h => absurd h hnot, iff_of_true rfl (.inl hcause)⟩
      · have hnot : fault.cause ∉ Cause.inFront := fun h => Cause.not_behind_of_inFront h hcause
        rw [if_pos hcause]
        refine ⟨fun h => absurd h hnot, fun _ => rfl, ?_⟩
        rw [or_iff_right hnot]
        cases suf with
        | nil => simp
        | cons c suf => exact iff_of_false (Location.after_concat_ne pre c) (List.cons_ne_nil c suf)

/-- An object with a missing colon behind a line feed: the place is that of the `1`. -/
theorem error_location_iff_sample :
    read (ascii "\x7b\"a\"\n 1\x7d") = .error ⟨Cause.message .expectedColon, ⟨2, 2⟩, 6⟩ ∧
      ∃ accepted refused, ascii "\x7b\"a\"\n 1\x7d" = accepted ++ refused ∧ Viable accepted ∧
        (∀ c ∈ refused.head?, ¬ Viable (accepted ++ [c])) ∧ Location.after accepted = ⟨2, 2⟩ := by
  have hread : read (ascii "\x7b\"a\"\n 1\x7d") = .error ⟨Cause.message .expectedColon, ⟨2, 2⟩, 6⟩ := by rfl
  obtain ⟨accepted, refused, htext, hviable, hfirst, hplace, -⟩ := error_location_iff hread (by decide +kernel)
  exact ⟨hread, accepted, refused, htext, hviable, hfirst, (hplace (by decide +kernel)).symm⟩

/-- **A byte behind which the error is placed**: with `[1 x` the reader stops for the `x` in column 4, and says column
5. -/
theorem error_located_behind :
    read (ascii "[1 x") = .error ⟨Cause.message .expectedArraySeparator, ⟨1, 5⟩, 4⟩ ∧
      Viable (ascii "[1 ") ∧ ¬ Viable (ascii "[1 x") ∧ Location.after (ascii "[1 ") = ⟨1, 4⟩ := by
  have hrefused : ∀ s, Parser.value Parser.maxLevels (Parser.skipBlanks (ascii "[1 x" ++ s)) =
      .error ⟨.expectedArraySeparator, s⟩ := fun s => by rfl
  refine ⟨by rfl, ⟨ascii "]", 512, .array [.integer 1], document_of_parse (by rfl)⟩, ?_, by rfl⟩
  rintro ⟨s, n, j, hdocument⟩
  exact not_document_of_refused (hrefused s) nofun n j hdocument

end ModRepair.Json
