import Mathlib.Data.Bool.AllAny
import ModRepair.Log.Record
import ModRepair.Proofs.Json.RoundTrip

/-!
# Log lines as JSON

A line in JSON format is to be one JSON object. The printer of log lines has an escape of its own for quotes,
backslashes, line feeds, carriage returns and tabs, but none for the other control bytes, which JSON does not allow in a
string. So a line reads back exactly if its message has no such byte.

* `escape_eq` — the two ways of writing strings agree on all other bytes;
* `line_eq_render`, `parse_line` — **lines that read back** as the object of their four members;
* `parse_line_of_raw` — **lines that do not**: they are refused at the first byte without an escape;
* `line_reads_back_iff` — both, with what is in a line;
* `raw_byte_refused` — a message that makes a line unreadable.
-/

namespace ModRepair.Log

open Json Json.Grammar

/-! ## Bytes of a message -/

/-- A byte that a log line can hold in its message: no control byte, or one that has an escape. -/
def Escapable (c : UInt8) : Prop :=
  0x20 ≤ c ∨ c ∈ [Bytes.newline, 0x0D, 0x09]

instance (c : UInt8) : Decidable (Escapable c) :=
  inferInstanceAs (Decidable (_ ∨ _))

/-- **Log lines and documents write such a byte alike.** -/
theorem escape_eq {c : UInt8} (h : Escapable c) : escape c = Json.escape c := by
  have hraw : ¬ (c < 0x20) ∨ c ∈ [Bytes.newline, 0x0D, 0x09] := h.imp_left UInt8.not_lt.mpr
  unfold escape Json.escape
  by_cases hcontrol : c < 0x20
  · have hc := hraw.resolve_left (not_not.mpr hcontrol)
    simp only [List.mem_cons, List.not_mem_nil, or_false] at hc
    rcases hc with rfl | rfl | rfl <;> rfl
  · have hne : ∀ d : UInt8, d < 0x20 → c ≠ d := by
      rintro d hd rfl
      exact hcontrol hd
    simp only [if_neg hcontrol, if_neg (hne 0x0A (by decide)), if_neg (hne 0x0D (by decide)),
      if_neg (hne 0x09 (by decide)), if_neg (hne 0x08 (by decide)), if_neg (hne 0x0C (by decide))]

theorem flatMap_escape_eq {message : Bytes} (h : ∀ c ∈ message, Escapable c) :
    message.flatMap escape = message.flatMap Json.escape := by
  rw [List.flatMap_def, List.flatMap_def, List.map_congr_left fun c hc => escape_eq (h c hc)]

/-- A byte that has no escape stands for itself. -/
theorem escape_of_not_escapable {c : UInt8} (h : ¬ Escapable c) : escape c = [c] ∧ c < 0x20 := by
  obtain ⟨hcontrol, hother⟩ := not_or.mp h
  simp only [List.mem_cons, List.not_mem_nil, or_false, not_or] at hother
  have hcontrol : c < 0x20 := UInt8.not_le.mp hcontrol
  have hne : ∀ d : UInt8, ¬ d < 0x20 → c ≠ d := by
    rintro d hd rfl
    exact hd hcontrol
  unfold escape
  rw [if_neg (hne 0x22 (by decide)), if_neg (hne 0x5C (by decide)), if_neg hother.1, if_neg hother.2.1,
    if_neg hother.2.2]
  exact ⟨rfl, hcontrol⟩

/-- What is written for a byte has no control byte exactly if the byte can be held. -/
theorem escape_visible_iff (c : UInt8) : (∀ d ∈ escape c, 0x20 ≤ d) ↔ Escapable c := by
  by_cases h : Escapable c
  · refine iff_of_true ?_ h
    rw [escape_eq h]
    have hall : ∀ k < 256, (Json.escape (.ofNat k)).all (0x20 ≤ ·) := by decide +kernel
    have hc := hall c.toNat c.toNat_lt
    rwa [UInt8.ofNat_toNat, List.all_iff_forall_prop] at hc
  · obtain ⟨hescape, hcontrol⟩ := escape_of_not_escapable h
    refine iff_of_false (fun hvisible => ?_) h
    rw [hescape] at hvisible
    exact UInt8.not_le.mpr hcontrol (hvisible c (List.mem_singleton.mpr rfl))

/-! ## The parts of a line -/

/-- The tags of the parts of the program that report something. -/
def tags : List Bytes :=
  [ascii "cil", ascii "rewrite", ascii "registry", ascii "profile", ascii "cli"]

/-- The members of a line before the message. -/
def headMembers (levelName tag : Bytes) (millis : Int64) : List (Bytes × Json) :=
  [(ascii "ts", .integer millis), (ascii "level", .string levelName), (ascii "module", .string tag)]

/-- The members of a line, in the order in which they are written. -/
def members (levelName tag : Bytes) (millis : Int64) (message : Bytes) : List (Bytes × Json) :=
  headMembers levelName tag millis ++ [(ascii "msg", .string message)]

/-- A text that a string literal holds as it is. -/
def Verbatim (s : Bytes) : Prop :=
  s.flatMap Json.escape = s

instance (s : Bytes) : Decidable (Verbatim s) :=
  inferInstanceAs (Decidable (_ = _))

theorem Verbatim.stringText {s : Bytes} (h : Verbatim s) : stringText s = Bytes.quote :: (s ++ [Bytes.quote]) := by
  rw [Json.stringText, h, List.cons_append]

theorem verbatim_of_mem_tags {tag : Bytes} (h : tag ∈ tags) : Verbatim tag := by
  have hall : ∀ tag ∈ tags, Verbatim tag := by decide
  exact hall tag h

theorem verbatim_name (level : Level) : Verbatim level.name := by
  cases level <;> decide

/-- The text of the members before the message. -/
def headText (levelName tag : Bytes) (millis : Int64) : Bytes :=
  itemLines .compact 0 (Json.memberText .compact 1 (ascii "ts", .integer millis))
    ([(ascii "level", .string levelName), (ascii "module", .string tag)].map (Json.memberText .compact 1))

/-- The text of the member for the message, `rest` being what follows the opening quote of its literal. -/
def messageText (rest : Bytes) : Bytes :=
  stringText (ascii "msg") ++ (Bytes.colon :: Bytes.quote :: rest)

theorem messageText_opens (rest : Bytes) : ∃ c t, messageText rest = c :: t ∧ Parser.Opens c :=
  ⟨_, _, rfl, rfl, by decide, by decide⟩

/-- The member is read as its literal is. -/
theorem member_messageText (item : Bytes → Parsed Json) (rest : Bytes) :
    Parser.member item (messageText rest) =
      (item (Bytes.quote :: rest)).map fun (j, rest) => ((ascii "msg", j), rest) := by
  have hskip : Parser.skipBlanks ([] ++ Bytes.quote :: rest) = Bytes.quote :: rest :=
    Parser.skipBlanks_of_not_blank rfl rest
  exact Parser.member_of_name (denotes_stringText _) Parser.blanks_nil hskip

theorem denotes_plain {v : Json} (h : Plain 0 v) (n level : Nat) : Denotes (n + 1) (render .compact level v) v :=
  denotes_render h (fun _ _ hw => Nat.lt_succ_of_le (Nat.le_trans (h.le_of_inside hw) (Nat.zero_le n))) .compact level

theorem plain_of_mem_members {levelName tag message : Bytes} {millis : Int64} {e : Bytes × Json}
    (h : e ∈ members levelName tag millis message) : Plain 0 e.2 := by
  simp only [members, headMembers, List.cons_append, List.nil_append, List.mem_cons, List.not_mem_nil, or_false] at h
  rcases h with rfl | rfl | rfl | rfl
  · exact .integer 0 millis
  · exact .string 0 levelName
  · exact .string 0 tag
  · exact .string 0 message

section

variable {level : Level} {tag message clock : Bytes} {millis : Int64}

/-- **A line, part by part**: only the message is written in the manner of log lines. -/
theorem line_eq (htag : Verbatim tag) :
    Record.line ⟨level, tag, message⟩ .json ⟨clock, millis.toInt⟩ =
      Bytes.openBrace :: (headText level.name tag millis ++
        Bytes.comma :: messageText (message.flatMap escape ++ [Bytes.quote, Bytes.closeBrace])) := by
  have hts : Verbatim (ascii "ts") := by decide
  have hlevel : Verbatim (ascii "level") := by decide
  have hmodule : Verbatim (ascii "module") := by decide
  have hmsg : Verbatim (ascii "msg") := by decide
  simp only [Record.line, Format.line, headText, messageText, itemLines, laterLines, List.map_cons, List.map_nil,
    List.flatMap_cons, List.flatMap_nil, Json.memberText, Layout.lineStart, Layout.keySeparator, render, numberText,
    hts.stringText, hlevel.stringText, hmodule.stringText, hmsg.stringText, htag.stringText,
    (verbatim_name level).stringText]
  simp [ascii]

/-- A line whose message can be held is what the printer of documents writes. -/
theorem line_eq_render (htag : Verbatim tag) (h : ∀ c ∈ message, Escapable c) :
    Record.line ⟨level, tag, message⟩ .json ⟨clock, millis.toInt⟩ =
      render .compact 0 (.object (members level.name tag millis message)) := by
  rw [line_eq htag, flatMap_escape_eq h]
  show _ = render .compact 0 (.object ((ascii "ts", .integer millis) :: _))
  rw [render_object]
  simp [headText, messageText, itemLines, laterLines, Json.memberText, Layout.lineStart, Layout.keySeparator, render,
    stringText, ascii]

/-! ## Lines that read back -/

/-- **A line whose message can be held reads back** as the object of its members. -/
theorem parse_line (htag : Verbatim tag) (h : ∀ c ∈ message, Escapable c) :
    parse (Record.line ⟨level, tag, message⟩ .json ⟨clock, millis.toInt⟩) =
      .ok (.ofMembers (members level.name tag millis message)) := by
  have hitems : ∀ e ∈ members level.name tag millis message,
      MemberText (Denotes 511) (Json.memberText .compact 1 e) e :=
    fun e he => denotes_memberText (denotes_plain (plain_of_mem_members he) 510 1)
  have hvalue : Denotes 512 (render .compact 0 (.object (members level.name tag millis message)))
      (.ofMembers (members level.name tag millis message)) := by
    show ValueText _ (render .compact 0 (.object (_ :: _))) _
    rw [render_object]
    exact .object (listed_itemLines hitems) (Parser.lastWins_iff.mpr rfl)
  rw [line_eq_render htag h]
  have hdocument := Document.text Parser.blanks_nil hvalue Parser.blanks_nil
  rw [List.nil_append, List.append_nil] at hdocument
  exact parse_of_document hdocument

/-! ## Lines that do not -/

/-- The members before the message are read. -/
theorem listed_headText (levelName tag : Bytes) (millis : Int64) :
    Listed (MemberText (Denotes 511)) (headText levelName tag millis) (headMembers levelName tag millis) := by
  refine listed_itemLines fun e he => denotes_memberText (denotes_plain ?_ 510 1)
  have hmember : e ∈ members levelName tag millis [] := List.mem_append_left _ he
  exact plain_of_mem_members hmember

/-- **A line is refused at the first byte of its message without an escape.** -/
theorem parse_line_of_raw {before after : Bytes} {c : UInt8} (htag : Verbatim tag)
    (hbefore : ∀ d ∈ before, Escapable d) (hc : ¬ Escapable c) :
    parse (Record.line ⟨level, tag, before ++ c :: after⟩ .json ⟨clock, millis.toInt⟩) =
      .error ⟨.controlCharacter, after.flatMap escape ++ [Bytes.quote, Bytes.closeBrace]⟩ := by
  obtain ⟨hescape, hcontrol⟩ := escape_of_not_escapable hc
  generalize hrest : after.flatMap escape ++ [Bytes.quote, Bytes.closeBrace] = rest
  -- The literal of the message breaks off at the byte, and with it the member and the object.
  have hstring : Parser.string (before.flatMap Json.escape ++ c :: rest) = .error ⟨.controlCharacter, rest⟩ :=
    Parser.string_eq_control_iff.mpr ⟨_, before, c, characters_escape before, hcontrol, rfl⟩
  have hmember : Parser.member (Parser.value 511) (messageText (before.flatMap Json.escape ++ c :: rest)) =
      .error ⟨.controlCharacter, rest⟩ := by
    rw [member_messageText, Parser.value, if_neg (by decide), if_neg (by decide), if_pos rfl, hstring]
    rfl
  have hobject := Parser.object_of_fault (Parser.reads_value 511) (listed_headText level.name tag millis)
    (messageText_opens _) hmember
  have hline : Record.line ⟨level, tag, before ++ c :: after⟩ .json ⟨clock, millis.toInt⟩ = Bytes.openBrace ::
      (headText level.name tag millis ++ Bytes.comma :: messageText (before.flatMap Json.escape ++ c :: rest)) := by
    rw [line_eq htag, List.flatMap_append, List.flatMap_cons, hescape, flatMap_escape_eq hbefore, List.append_assoc,
      List.append_assoc, hrest]
    rfl
  rw [hline, parse, Parser.skipBlanks_of_not_blank rfl, Parser.maxLevels, Parser.value, if_pos rfl, hobject]
  rfl

/-! ## What is in a line -/

theorem visible_decimalInt (i : Int) : ∀ c ∈ Numeral.decimalInt i, 0x20 ≤ c := by
  have hdigit : ∀ c, Numeral.isDigit c = true → (0x20 : UInt8) ≤ c := by
    intro c hc
    have hc : (0x30 : UInt8) ≤ c := by
      rw [Numeral.isDigit, Bool.and_eq_true, decide_eq_true_iff] at hc
      exact hc.1
    exact UInt8.le_trans (by decide) hc
  have hdecimal : ∀ n, ∀ c ∈ Numeral.decimal n, (0x20 : UInt8) ≤ c :=
    fun n c hc => hdigit c (Numeral.isDigit_of_mem_decimal n c hc)
  rw [Numeral.decimalInt]
  split
  · exact List.forall_mem_cons.mpr ⟨by decide, hdecimal _⟩
  · exact hdecimal _

/-- **A line has no control bytes** exactly if its message can be held. -/
theorem line_visible_iff (htag : tag ∈ tags) :
    (∀ c ∈ Record.line ⟨level, tag, message⟩ .json ⟨clock, millis.toInt⟩, 0x20 ≤ c) ↔ ∀ c ∈ message, Escapable c := by
  have htags : ∀ tag ∈ tags, tag.all (0x20 ≤ ·) := by decide
  have hname : level.name.all (0x20 ≤ ·) := by cases level <;> decide
  have hmessage : (∀ c ∈ message.flatMap escape, 0x20 ≤ c) ↔ ∀ c ∈ message, Escapable c := by
    simp only [List.mem_flatMap, ← escape_visible_iff]
    exact ⟨fun h c hc d hd => h d ⟨c, hc, hd⟩, fun h d ⟨c, hc, hd⟩ => h c hc d hd⟩
  have hparts : (ascii "\x7b\"ts\":").all (0x20 ≤ ·) ∧ (ascii ",\"level\":\"").all (0x20 ≤ ·) ∧
      (ascii "\",\"module\":\"").all (0x20 ≤ ·) ∧ (ascii "\",\"msg\":\"").all (0x20 ≤ ·) ∧
      (ascii "\"\x7d").all (0x20 ≤ ·) := by
    decide
  simp only [List.all_iff_forall_prop] at htags hname hparts
  obtain ⟨hts, hlevel, hmodule, hmsg, hend⟩ := hparts
  simp only [Record.line, Format.line, List.forall_mem_append, hmessage]
  exact ⟨fun h => h.1.2,
    fun h => ⟨⟨⟨⟨⟨⟨⟨⟨hts, visible_decimalInt _⟩, hlevel⟩, hname⟩, hmodule⟩, htags tag htag⟩, hmsg⟩, h⟩, hend⟩⟩

theorem exists_first_raw (h : ¬ ∀ c ∈ message, Escapable c) :
    ∃ before c after, message = before ++ c :: after ∧ (∀ d ∈ before, Escapable d) ∧ ¬ Escapable c := by
  have hsome : (message.find? fun c => !decide (Escapable c)).isSome := by simpa using h
  obtain ⟨c, hc⟩ := Option.isSome_iff_exists.mp hsome
  obtain ⟨hraw, before, after, heq, hbefore⟩ := List.find?_eq_some_iff_append.mp hc
  exact ⟨before, c, after, heq, by simpa using hbefore, by simpa using hraw⟩

end

/-- **Which log lines are JSON.** A line of the program in JSON format has no control bytes exactly if every control
byte of its message has an escape of its own, and exactly then it reads back as the object of its time, level, tag and
message. Otherwise it is refused at the first byte that has none, as a control character in a string. -/
theorem line_reads_back_iff {tag : Bytes} (htag : tag ∈ tags) (level : Level) (message clock : Bytes)
    (millis : Int64) :
    let line := Record.line ⟨level, tag, message⟩ .json ⟨clock, millis.toInt⟩
    ((∀ c ∈ line, 0x20 ≤ c) ↔ ∀ c ∈ message, Escapable c) ∧
      (parse line = .ok (.ofMembers [(ascii "ts", .integer millis), (ascii "level", .string level.name),
        (ascii "module", .string tag), (ascii "msg", .string message)]) ↔ ∀ c ∈ message, Escapable c) ∧
      ((¬ ∀ c ∈ message, Escapable c) → ∃ before c after, message = before ++ c :: after ∧
        (∀ d ∈ before, Escapable d) ∧ ¬ Escapable c ∧
          parse line = .error ⟨.controlCharacter, after.flatMap escape ++ ascii "\"\x7d"⟩) := by
  intro line
  have hverbatim := verbatim_of_mem_tags htag
  have hrefused : (¬ ∀ c ∈ message, Escapable c) → ∃ before c after, message = before ++ c :: after ∧
      (∀ d ∈ before, Escapable d) ∧ ¬ Escapable c ∧
        parse line = .error ⟨.controlCharacter, after.flatMap escape ++ ascii "\"\x7d"⟩ := by
    intro h
    obtain ⟨before, c, after, rfl, hbefore, hc⟩ := exists_first_raw h
    exact ⟨before, c, after, rfl, hbefore, hc, parse_line_of_raw hverbatim hbefore hc⟩
  refine ⟨line_visible_iff htag, ⟨fun hok => ?_, parse_line hverbatim⟩, hrefused⟩
  refine Decidable.byContradiction fun h => ?_
  obtain ⟨before, c, after, -, -, -, herror⟩ := hrefused h
  rw [hok] at herror
  cases herror

/-- A message in two lines with a quote, and bytes that are no text at all, reads back. -/
theorem line_reads_back_iff_sample :
    ascii "cli" ∈ tags ∧
      parse (Record.line ⟨.warn, ascii "cli", ascii "wrote \"a\"\n" ++ [0xFF, 0x7F]⟩ .json ⟨[], -1⟩) =
        .ok (.ofMembers [(ascii "ts", .integer (-1)), (ascii "level", .string (ascii "WARN")),
          (ascii "module", .string (ascii "cli")), (ascii "msg", .string (ascii "wrote \"a\"\n" ++ [0xFF, 0x7F]))]) :=
  ⟨by decide, (line_reads_back_iff (by decide) .warn _ [] (-1)).2.1.mpr
    (List.all_iff_forall_prop.mp (by decide))⟩

/-- **A line that is no JSON**: the byte 1 in a message stands in the line as it is, and the line is refused. -/
theorem raw_byte_refused :
    let line := Record.line ⟨.info, ascii "cil", [0x01]⟩ .json ⟨[], 0⟩
    (0x01 : UInt8) ∈ line ∧ ∀ j, parse line ≠ .ok j := by
  intro line
  have hrefused : parse (Record.line ⟨.info, ascii "cil", [] ++ 0x01 :: []⟩ .json ⟨[], (0 : Int64).toInt⟩) =
      .error ⟨.controlCharacter, _⟩ := parse_line_of_raw (verbatim_of_mem_tags (by decide)) nofun (by decide)
  change parse line = _ at hrefused
  refine ⟨by decide, fun j hok => ?_⟩
  rw [hrefused] at hok
  cases hok

end ModRepair.Log
