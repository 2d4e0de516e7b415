import ModRepair.Json.Printer
import ModRepair.Proofs.Json.Acceptance
import ModRepair.Proofs.Text.Numeral

/-!
# Values read back

The text of a value, in any layout, is a text of the grammar that denotes the value. This is so for values without
doubles whose objects are in order; `Plain` collects these conditions.

* `Inside` — a value within another, with the number of arrays and objects around it;
* `denotes_render` — **values**, by induction on `Plain`: the levels that the text needs are those of the value;
* `parse_printed` — **the round trip of documents**, with blanks allowed at the end; `parse_render` takes its bound
  from `Plain`.
-/

namespace ModRepair.Json

open Grammar

/-! ## Values within values -/

/-- `Inside k w v`: the value `w` stands in `v`, with `k` of the arrays and objects of `v` around it. -/
inductive Inside : Nat → Json → Json → Prop
  | self (v : Json) : Inside 0 v v
  | item {k : Nat} {w v : Json} {items : List Json} (mem : v ∈ items) (inside : Inside k w v) :
      Inside (k + 1) w (.array items)
  | member {k : Nat} {w : Json} {e : Bytes × Json} {members : List (Bytes × Json)} (mem : e ∈ members)
      (inside : Inside k w e.2) : Inside (k + 1) w (.object members)

/-- What is inside a value inside another is inside the other, with the arrays and objects around both. -/
theorem Inside.trans {k l : Nat} {u w v : Json} (hu : Inside l u w) (hw : Inside k w v) : Inside (l + k) u v := by
  induction hw with
  | self => exact hu
  | item mem _ ih => exact .item mem (ih hu)
  | member mem _ ih => exact .member mem (ih hu)

/-- What is further inside stands in what is just inside. -/
theorem Inside.exists_outermost {k : Nat} {w v : Json} (h : Inside (k + 1) w v) :
    ∃ u, Inside 1 u v ∧ Inside k w u := by
  cases h with
  | @item _ _ u _ mem inside => exact ⟨u, .item mem (.self u), inside⟩
  | @member _ _ e _ mem inside => exact ⟨e.2, .member mem (.self e.2), inside⟩

theorem Inside.mem_items {w : Json} {items : List Json} (h : Inside 1 w (.array items)) : w ∈ items := by
  cases h with
  | item mem inside =>
      cases inside with
      | self => exact mem

theorem Inside.mem_members {w : Json} {members : List (Bytes × Json)} (h : Inside 1 w (.object members)) :
    ∃ e ∈ members, e.2 = w := by
  cases h with
  | member mem inside =>
      cases inside with
      | self => exact ⟨_, mem, rfl⟩

/-- **Plain values**: no doubles, objects in ascending order, and at most `n` arrays and objects one within another. -/
inductive Plain : Nat → Json → Prop
  | null (n : Nat) : Plain n .null
  | bool (n : Nat) (b : Bool) : Plain n (.bool b)
  | integer (n : Nat) (i : Int64) : Plain n (.integer i)
  | string (n : Nat) (s : Bytes) : Plain n (.string s)
  | array {n : Nat} {items : List Json} (plain : ∀ j ∈ items, Plain n j) : Plain (n + 1) (.array items)
  | object {n : Nat} {members : List (Bytes × Json)} (ascending : Dictionary.Ascending members)
      (plain : ∀ e ∈ members, Plain n e.2) : Plain (n + 1) (.object members)

/-- An object of plain values is plain, in whatever order its members are given. -/
theorem Plain.ofMembers {n : Nat} {members : List (Bytes × Json)} (h : ∀ e ∈ members, Plain n e.2) :
    Plain (n + 1) (.ofMembers members) :=
  .object (Dictionary.ascending_ofList members) fun e he => h e (Dictionary.mem_of_mem_ofList he)

/-- No value within has more arrays and objects around it than are within one another. -/
theorem Plain.le_of_inside {n k : Nat} {v w : Json} (h : Plain n v) (hw : Inside k w v) : k ≤ n := by
  induction h generalizing k with
  | array _ ih =>
      cases hw with
      | self => exact Nat.zero_le _
      | item mem inside => exact Nat.succ_le_succ (ih _ mem inside)
  | object _ _ ih =>
      cases hw with
      | self => exact Nat.zero_le _
      | member mem inside => exact Nat.succ_le_succ (ih _ mem inside)
  | _ =>
      cases hw with
      | self => exact Nat.zero_le _

/-- What is inside a plain value is plain. -/
theorem Plain.inside {n k : Nat} {v w : Json} (h : Plain n v) (hw : Inside k w v) : ∃ m, Plain m w := by
  induction hw generalizing n with
  | self => exact ⟨n, h⟩
  | item mem _ ih =>
      cases h with
      | array plain => exact ih (plain _ mem)
  | member mem _ ih =>
      cases h with
      | object _ plain => exact ih (plain _ mem)

/-! ## Strings -/

/-- A control byte without an escape of its own is written as a code unit. -/
theorem character_control {c : UInt8} (hc : c < 0x20) : Character (ascii "\\u" ++ Numeral.hex 4 c.toNat) [c] := by
  have hhex : ∀ k < 0x20, ∃ c₁ ∈ ascii "01", ∃ c₂ ∈ ascii "0123456789abcdef", Numeral.hex 4 k = [0x30, 0x30, c₁, c₂] ∧
      HexDigit c₁ (k / 16) ∧ HexDigit c₂ (k % 16) := by
    unfold HexDigit
    decide
  have hlt : c.toNat < 0x20 := hc
  obtain ⟨c₁, -, c₂, -, htext, h₁, h₂⟩ := hhex c.toNat hlt
  have hzero : HexDigit 0x30 0 := .inl rfl
  have hunit : UnitBytes (((0 * 16 + 0) * 16 + c.toNat / 16) * 16 + c.toNat % 16) [c] := by
    rw [show ((0 * 16 + 0) * 16 + c.toNat / 16) * 16 + c.toNat % 16 = c.toNat by omega, Parser.unitBytes_iff,
      Parser.codeUnitBytes, if_pos (by omega), UInt8.ofNat_toNat]
  rw [htext]
  exact .codeUnit hzero hzero h₁ h₂ hunit

/-- **A byte is denoted by its escape.** -/
theorem character_escape (c : UInt8) : Character (escape c) [c] := by
  unfold escape
  -- The seven bytes that have an escape of one letter, the other control bytes, and the rest.
  iterate 7
    split
    · next hc =>
        subst hc
        exact .short (by decide)
  split
  · next hc => exact character_control hc
  · next hquote hbackslash _ _ _ _ _ hcontrol => exact .plain (UInt8.not_lt.mp hcontrol) hquote hbackslash

theorem characters_escape (s : Bytes) : Characters (s.flatMap escape) s := by
  induction s with
  | nil => exact .nil
  | cons c s ih => exact .cons (character_escape c) ih

theorem denotes_stringText (s : Bytes) : StringText (stringText s) s :=
  .quoted (characters_escape s)

/-! ## Integers -/

theorem digits_decimal (n : Nat) : Digits (Numeral.decimal n) :=
  ⟨Numeral.decimal_ne_nil n, Numeral.isDigit_of_mem_decimal n⟩

/-- The literal of an integer. -/
def integerLiteral (i : Int) : NumberLiteral where
  negative := decide (i < 0)
  whole := Numeral.decimal i.natAbs
  fraction := none
  exponent := none
  wholeDigits := digits_decimal i.natAbs
  noLeadingZero := by
    intro hhead
    by_cases hzero : i.natAbs = 0
    · rw [hzero]
      rfl
    · exact absurd hhead (Numeral.head?_decimal hzero)
  fractionDigits := nofun

theorem text_integerLiteral (i : Int) : (integerLiteral i).text = Numeral.decimalInt i := by
  rw [Numeral.decimalInt]
  split
  · next hi =>
      simp [NumberLiteral.text, integerLiteral, NumberLiteral.signText, hi, NumberLiteral.fractionText,
        NumberLiteral.exponentText]
  · next hi =>
      simp [NumberLiteral.text, integerLiteral, NumberLiteral.signText, hi, NumberLiteral.fractionText,
        NumberLiteral.exponentText]

theorem denotes_integerLiteral (i : Int64) : (integerLiteral i.toInt).Denotes (.integer i) := by
  have hpart : (integerLiteral i.toInt).integerPart = i.toInt := by
    rw [NumberLiteral.integerPart]
    simp only [integerLiteral, Numeral.value_decimal, decide_eq_true_eq]
    split <;> omega
  refine .integer ⟨rfl, rfl, ?_, ?_⟩ hpart.symm
  · rw [hpart]
    exact Int64.le_toInt i
  · rw [hpart]
    exact Int.le_sub_one_of_lt (Int64.toInt_lt i)

/-! ## Layout -/

theorem blanks_lineStart (layout : Layout) (level : Nat) : Blanks (layout.lineStart level) := by
  cases layout with
  | compact => exact Parser.blanks_nil
  | indented width =>
      intro c hc
      rcases List.mem_cons.mp hc with rfl | hc
      · decide
      · rw [List.eq_of_mem_replicate hc]
        decide

theorem keySeparator_eq (layout : Layout) : ∃ w, Blanks w ∧ layout.keySeparator = Bytes.colon :: w := by
  cases layout with
  | compact => exact ⟨[], Parser.blanks_nil, rfl⟩
  | indented width => exact ⟨[Bytes.space], by simp [Blanks], rfl⟩

/-- The text of a member. -/
def memberText (layout : Layout) (level : Nat) (e : Bytes × Json) : Bytes :=
  stringText e.1 ++ (layout.keySeparator ++ render layout level e.2)

theorem denotes_memberText {Item : Bytes → Json → Prop} {layout : Layout} {level : Nat} {e : Bytes × Json}
    (h : Item (render layout level e.2) e.2) : MemberText Item (memberText layout level e) e := by
  obtain ⟨w, hw, hseparator⟩ := keySeparator_eq layout
  rw [memberText, hseparator]
  exact .member (denotes_stringText e.1) Parser.blanks_nil hw h

/-- The texts of items after the first one, each on a line of its own after a comma. -/
def laterLines (layout : Layout) (level : Nat) (texts : List Bytes) : Bytes :=
  texts.flatMap fun text => Bytes.comma :: (layout.lineStart level ++ text)

theorem renderItems_eq (layout : Layout) (level : Nat) (items : List Json) :
    renderItems layout level items = laterLines layout level (items.map (render layout level)) := by
  induction items with
  | nil => rfl
  | cons j items ih =>
      rw [renderItems, ih]
      simp [laterLines, ascii]

theorem renderMembers_eq (layout : Layout) (level : Nat) (members : List (Bytes × Json)) :
    renderMembers layout level members = laterLines layout level (members.map (memberText layout level)) := by
  induction members with
  | nil => rfl
  | cons e members ih =>
      obtain ⟨key, j⟩ := e
      rw [renderMembers, ih]
      simp [laterLines, memberText, ascii]

/-- The texts of items up to the closing bracket: one line for each. -/
def itemLines (layout : Layout) (level : Nat) (text : Bytes) (texts : List Bytes) : Bytes :=
  layout.lineStart (level + 1) ++ (text ++ (laterLines layout (level + 1) texts ++ layout.lineStart level))

theorem render_array (layout : Layout) (level : Nat) (j : Json) (items : List Json) :
    render layout level (.array (j :: items)) = Bytes.openBracket ::
      (itemLines layout level (render layout (level + 1) j) (items.map (render layout (level + 1))) ++
        [Bytes.closeBracket]) := by
  rw [render, renderItems_eq]
  simp [itemLines, ascii]

theorem render_object (layout : Layout) (level : Nat) (e : Bytes × Json) (members : List (Bytes × Json)) :
    render layout level (.object (e :: members)) = Bytes.openBrace ::
      (itemLines layout level (memberText layout (level + 1) e) (members.map (memberText layout (level + 1))) ++
        [Bytes.closeBrace]) := by
  obtain ⟨key, j⟩ := e
  rw [render, renderMembers_eq]
  simp [itemLines, memberText, ascii]

/-- **Lines of items are a list of them.** -/
theorem listed_itemLines {α : Type} {Item : Bytes → α → Prop} {text : α → Bytes} {layout : Layout} {level : Nat} {a : α}
    {as : List α} (h : ∀ b ∈ a :: as, Item (text b) b) :
    Listed Item (itemLines layout level (text a) (as.map text)) (a :: as) := by
  induction as generalizing a with
  | nil => exact .last (blanks_lineStart _ _) (h a (List.mem_cons_self ..)) (blanks_lineStart _ _)
  | cons b as ih =>
      obtain ⟨ha, has⟩ := List.forall_mem_cons.mp h
      have htext : itemLines layout level (text a) ((b :: as).map text) = layout.lineStart (level + 1) ++
          (text a ++ ([] ++ Bytes.comma :: itemLines layout level (text b) (as.map text))) := by
        simp [itemLines, laterLines]
      rw [htext]
      exact .more (blanks_lineStart _ _) ha Parser.blanks_nil (ih has)

/-! ## Values -/

/-- The text of a plain value is one of the grammar, if the texts of its items are. -/
theorem valueText_render {Item : Bytes → Json → Prop} {n : Nat} {v : Json} (h : Plain n v) {layout : Layout}
    {level : Nat} (hitems : ∀ w, Inside 1 w v → Item (render layout (level + 1) w) w) :
    ValueText Item (render layout level v) v := by
  cases h with
  | null => exact .null
  | bool n b =>
      cases b with
      | false => exact .false
      | true => exact .true
  | integer n i =>
      rw [render, numberText, ← text_integerLiteral]
      exact .number (denotes_integerLiteral i)
  | string n s => exact .string (denotes_stringText s)
  | @array n items plain =>
      cases items with
      | nil => exact .emptyArray Parser.blanks_nil
      | cons j items =>
          rw [render_array]
          exact .array (listed_itemLines fun b hb => hitems b (.item hb (.self b)))
  | @object n members ascending plain =>
      cases members with
      | nil => exact .emptyObject Parser.blanks_nil
      | cons e members =>
          rw [render_object]
          refine .object (listed_itemLines fun b hb => ?_) (Parser.lastWins_iff.mpr ascending.ofList_eq.symm)
          exact denotes_memberText (hitems b.2 (.member hb (.self b.2)))

/-- **The text of a plain value denotes it**, with a level for each array and object around a value within. -/
theorem denotes_render {n levels : Nat} {v : Json} (h : Plain n v) (hlevels : ∀ k w, Inside k w v → k < levels)
    (layout : Layout) (level : Nat) : Denotes levels (render layout level v) v := by
  induction levels generalizing n v level with
  | zero => exact absurd (hlevels 0 v (.self v)) (Nat.not_lt_zero _)
  | succ levels ih =>
      refine valueText_render h fun w hw => ?_
      obtain ⟨m, hplain⟩ := h.inside hw
      refine ih hplain (fun k u hu => ?_) (level + 1)
      exact Nat.lt_of_succ_lt_succ (hlevels (k + 1) u (hu.trans hw))

/-! ## Documents -/

/-- **The round trip of documents.** The text of a plain value reads back, blanks at its end allowed, if no value within
has too many arrays and objects around it. -/
theorem parse_printed {n : Nat} {j : Json} (h : Plain n j) (hlevels : ∀ k w, Inside k w j → k < 512) (layout : Layout)
    {blanks : Bytes} (hblanks : Blanks blanks) : parse (render layout 0 j ++ blanks) = .ok j :=
  parse_of_document (.text Parser.blanks_nil (denotes_render h hlevels layout 0) hblanks)

/-- Values with few arrays and objects one within another read back. -/
theorem parse_render {n : Nat} {j : Json} (h : Plain n j) (hn : n < Parser.maxLevels) (layout : Layout)
    {blanks : Bytes} (hblanks : ∀ c ∈ blanks, Parser.isBlank c = true) :
    parse (render layout 0 j ++ blanks) = .ok j :=
  parse_printed h (fun _ _ hw => Nat.lt_of_le_of_lt (h.le_of_inside hw) hn) layout
    fun c hc => Parser.isBlank_iff.mp (hblanks c hc)

end ModRepair.Json
