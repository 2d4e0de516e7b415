import ModRepair.Json.ErrorReport
import ModRepair.Proofs.Json.RoundTrip

/-!
# The depth at which reading stops

The other side of the round trip. A value that stands in too many arrays and objects is refused as too deep, and the
values printed before it do not get in the way: they read back.

* `listed_tooDeep` — the loop over items stops at the first one that is too deep;
* `value_tooDeep` — **values**, by induction on the levels that are left;
* `read_printed` — **the round trip with its limit**: what is printed reads back, unless a value has 512 arrays and
  objects around it or more, and then it is refused for its depth.
-/

namespace ModRepair.Json

open Grammar

namespace Parser

/-- A text that the reader refuses for its depth, whatever follows it. -/
def TooDeep {α : Type} (item : Bytes → Parsed α) (s : Bytes) : Prop :=
  ∀ rest, ∃ t, item (s ++ rest) = .error ⟨.tooDeep, t⟩

theorem tooDeep_map {α β : Type} {x : Parsed α} {f : α × Bytes → β × Bytes} (h : ∃ t, x = .error ⟨.tooDeep, t⟩) :
    ∃ t, x.map f = .error ⟨.tooDeep, t⟩ := by
  obtain ⟨t, rfl⟩ := h
  exact ⟨t, rfl⟩

/-! ## How printed values start -/

theorem render_opens {n : Nat} {v : Json} (h : Plain n v) (layout : Layout) (level : Nat) :
    ∃ c t, render layout level v = c :: t ∧ Opens c := by
  have htext : ValueText (fun _ _ => True) (render layout level v) v := valueText_render h fun _ _ => trivial
  exact opens_of_valueText htext

theorem memberText_opens (layout : Layout) (level : Nat) (e : Bytes × Json) :
    ∃ c t, memberText layout level e = c :: t ∧ Opens c :=
  ⟨_, _, rfl, rfl, by decide, by decide⟩

theorem itemLines_opens {text : Bytes} (h : ∃ c t, text = c :: t ∧ Opens c) (layout : Layout) (level : Nat)
    (texts : List Bytes) (rest : Bytes) :
    ∃ c u, skipBlanks (itemLines layout level text texts ++ rest) = c :: u ∧ Opens c := by
  obtain ⟨c, t, rfl, hc⟩ := h
  rw [itemLines, List.append_assoc, List.append_assoc, List.cons_append,
    skipBlanks_up_to (blanks_lineStart layout (level + 1)) hc.1]
  exact ⟨c, _, rfl, hc⟩

/-! ## Items -/

section

variable {α β : Type} {item : Bytes → Parsed α} {Item : Bytes → α → Prop} {close : UInt8} {separator trailing : Cause}
  {add : β → α → β} {read : β} {bound rest : Bytes}

theorem listed_tooDeep_first {b : UInt8} {w s : Bytes} (before : Blanks w) (hopens : ∃ c t, s = c :: t ∧ Opens c)
    (hdeep : TooDeep item s) :
    ∃ t, listed close separator trailing item add (b :: bound) read (w ++ (s ++ rest)) = .error ⟨.tooDeep, t⟩ := by
  obtain ⟨t, ht⟩ := hdeep rest
  obtain ⟨c, u, rfl, hc⟩ := hopens
  rw [List.cons_append] at ht ⊢
  refine ⟨t, ?_⟩
  rw [listed, skipBlanks_up_to before hc.1, ht]

/-- **The loop stops at the first item that is too deep**: those before it are read. -/
theorem listed_tooDeep (h : Reads item Item) (hclose : close = Bytes.closeBracket ∨ close = Bytes.closeBrace)
    {text : α → Bytes} {layout : Layout} {level : Nat} {a : α} {as : List α}
    (hopens : ∀ b ∈ a :: as, ∃ c t, text b = c :: t ∧ Opens c)
    (hitems : ∀ b ∈ a :: as, Item (text b) b ∨ TooDeep item (text b)) (hdeep : ∃ b ∈ a :: as, TooDeep item (text b))
    {s : Bytes} (hs : s = itemLines layout level (text a) (as.map text) ++ rest) (hbound : s.length < bound.length) :
    ∃ t, listed close separator trailing item add bound read s = .error ⟨.tooDeep, t⟩ := by
  subst hs
  -- Induction on the items after the first; each turn of the loop takes one off the bound.
  induction as generalizing a bound read with
  | nil =>
      obtain ⟨b, hb, hdeep⟩ := hdeep
      obtain rfl := List.mem_singleton.mp hb
      obtain ⟨x, bound, rfl⟩ := List.exists_cons_of_length_pos (Nat.zero_lt_of_lt hbound)
      rw [itemLines, List.append_assoc, List.append_assoc]
      exact listed_tooDeep_first (blanks_lineStart layout (level + 1)) (hopens b hb) hdeep
  | cons a' as ih =>
      obtain ⟨x, bound, rfl⟩ := List.exists_cons_of_length_pos (Nat.zero_lt_of_lt hbound)
      have htext : itemLines layout level (text a) ((a' :: as).map text) ++ rest = layout.lineStart (level + 1) ++
          (text a ++ ([] ++ Bytes.comma :: (itemLines layout level (text a') (as.map text) ++ rest))) := by
        simp [itemLines, laterLines]
      rw [htext] at hbound ⊢
      by_cases hfirst : TooDeep item (text a)
      · exact listed_tooDeep_first (blanks_lineStart layout (level + 1)) (hopens a (List.mem_cons_self ..)) hfirst
      · have ha : Item (text a) a := (hitems a (List.mem_cons_self ..)).resolve_right hfirst
        obtain ⟨b, hb, hb'⟩ := hdeep
        have hlater : ∃ b ∈ a' :: as, TooDeep item (text b) := by
          rcases List.mem_cons.mp hb with rfl | hb
          · exact absurd hb' hfirst
          · exact ⟨b, hb, hb'⟩
        have hopens := fun b hb => hopens b (List.mem_cons_of_mem a hb)
        rw [listed_more h hclose (blanks_lineStart layout (level + 1)) ha blanks_nil
          (itemLines_opens (hopens a' (List.mem_cons_self ..)) ..)]
        refine ih hopens (fun b hb => hitems b (List.mem_cons_of_mem a hb)) hlater ?_
        simp only [List.length_append, List.length_cons] at hbound ⊢
        omega

end

/-! ## Arrays and objects -/

section

variable {item : Bytes → Parsed Json} {Item : Bytes → Json → Prop} {layout : Layout} {level : Nat}

theorem member_tooDeep {e : Bytes × Json} (hopens : ∃ c t, render layout level e.2 = c :: t ∧ Opens c)
    (hdeep : TooDeep item (render layout level e.2)) : TooDeep (member item) (memberText layout level e) := by
  intro rest
  obtain ⟨w, hw, hseparator⟩ := keySeparator_eq layout
  obtain ⟨c, u, hcu, hc⟩ := hopens
  have htext : memberText layout level e ++ rest =
      stringText e.1 ++ ([] ++ Bytes.colon :: (w ++ (render layout level e.2 ++ rest))) := by
    simp [memberText, hseparator]
  have hskip : skipBlanks (w ++ (render layout level e.2 ++ rest)) = render layout level e.2 ++ rest := by
    rw [hcu]
    exact skipBlanks_up_to hw hc.1 _
  rw [htext, member_of_name (denotes_stringText e.1) blanks_nil hskip]
  exact tooDeep_map (hdeep rest)

/-- An array is too deep if an element is. -/
theorem array_tooDeep (h : Reads item Item) {j : Json} {items : List Json}
    (hopens : ∀ a ∈ j :: items, ∃ c t, render layout (level + 1) a = c :: t ∧ Opens c)
    (hitems : ∀ a ∈ j :: items, Item (render layout (level + 1) a) a ∨ TooDeep item (render layout (level + 1) a))
    (hdeep : ∃ a ∈ j :: items, TooDeep item (render layout (level + 1) a)) {s rest : Bytes}
    (hs : s = itemLines layout level (render layout (level + 1) j) (items.map (render layout (level + 1))) ++ rest) :
    ∃ t, array item s = .error ⟨.tooDeep, t⟩ := by
  have hstart : Bytes.after? [Bytes.closeBracket] (skipBlanks s) = none := by
    rw [hs]
    exact after?_skipBlanks_of_opens (.inl rfl) (itemLines_opens (hopens j (List.mem_cons_self ..)) ..)
  have hbound : s.length < (Bytes.openBracket :: s).length := Nat.lt_succ_self _
  rw [array, hstart]
  simp only [elements_eq]
  exact tooDeep_map (tooDeep_map (listed_tooDeep h (.inl rfl) hopens hitems hdeep hs hbound))

/-- An object is too deep if the value of a member is. -/
theorem object_tooDeep (h : Reads item Item) {e : Bytes × Json} {members : List (Bytes × Json)}
    (hopens : ∀ a ∈ e :: members, ∃ c t, render layout (level + 1) a.2 = c :: t ∧ Opens c)
    (hitems : ∀ a ∈ e :: members, Item (render layout (level + 1) a.2) a.2 ∨
      TooDeep item (render layout (level + 1) a.2))
    (hdeep : ∃ a ∈ e :: members, TooDeep item (render layout (level + 1) a.2)) {s rest : Bytes}
    (hs : s = itemLines layout level (memberText layout (level + 1) e) (members.map (memberText layout (level + 1))) ++
      rest) :
    ∃ t, object item s = .error ⟨.tooDeep, t⟩ := by
  have hitems : ∀ a ∈ e :: members, MemberText Item (memberText layout (level + 1) a) a ∨
      TooDeep (member item) (memberText layout (level + 1) a) := by
    intro a ha
    rcases hitems a ha with ha' | ha'
    · exact .inl (denotes_memberText ha')
    · exact .inr (member_tooDeep (hopens a ha) ha')
  have hdeep : ∃ a ∈ e :: members, TooDeep (member item) (memberText layout (level + 1) a) := by
    obtain ⟨a, ha, ha'⟩ := hdeep
    exact ⟨a, ha, member_tooDeep (hopens a ha) ha'⟩
  have hstart : Bytes.after? [Bytes.closeBrace] (skipBlanks s) = none := by
    rw [hs]
    exact after?_skipBlanks_of_opens (.inr rfl) (itemLines_opens (memberText_opens ..) ..)
  have hbound : s.length < (Bytes.openBrace :: s).length := Nat.lt_succ_self _
  have hopens : ∀ a ∈ e :: members, ∃ c t, memberText layout (level + 1) a = c :: t ∧ Opens c :=
    fun a _ => memberText_opens layout (level + 1) a
  rw [object, hstart]
  simp only [members_eq]
  exact tooDeep_map (listed_tooDeep (member_reads h) (.inr rfl) hopens hitems hdeep hs hbound)

end

/-! ## Values -/

/-- **A plain value with one within that has too many arrays and objects around it is too deep.** -/
theorem value_tooDeep {n levels : Nat} {v : Json} (h : Plain n v) (hdeep : ∃ k w, Inside k w v ∧ levels ≤ k)
    (layout : Layout) (level : Nat) : TooDeep (value levels) (render layout level v) := by
  induction levels generalizing n v level with
  | zero => exact fun rest => ⟨_, rfl⟩
  | succ levels ih =>
      -- With one level less every item is read or too deep, and one of them is too deep.
      have hitems : ∀ w, Inside 1 w v → Denotes levels (render layout (level + 1) w) w ∨
          TooDeep (value levels) (render layout (level + 1) w) := by
        intro w hw
        obtain ⟨m, hplain⟩ := h.inside hw
        by_cases hlevels : ∀ k u, Inside k u w → k < levels
        · exact .inl (denotes_render hplain hlevels layout (level + 1))
        · simp only [not_forall, Nat.not_lt] at hlevels
          obtain ⟨k, u, hu, hk⟩ := hlevels
          exact .inr (ih hplain ⟨k, u, hu, hk⟩ (level + 1))
      have hdeep : ∃ w, Inside 1 w v ∧ TooDeep (value levels) (render layout (level + 1) w) := by
        obtain ⟨k, u, hu, hk⟩ := hdeep
        obtain ⟨k, rfl⟩ := Nat.exists_eq_add_of_le' (Nat.zero_lt_of_lt hk)
        obtain ⟨w, hw, huw⟩ := hu.exists_outermost
        obtain ⟨m, hplain⟩ := h.inside hw
        exact ⟨w, hw, ih hplain ⟨k, u, huw, Nat.le_of_succ_le_succ hk⟩ (level + 1)⟩
      intro rest
      obtain ⟨w, hw, hdeepItem⟩ := hdeep
      cases h with
      | @array n items plain =>
          cases items with
          | nil => cases hw.mem_items
          | cons j items =>
              rw [render_array, List.cons_append, List.append_assoc, value, if_neg (by decide), if_pos rfl]
              exact array_tooDeep (reads_value levels) (fun a ha => render_opens (plain a ha) layout (level + 1))
                (fun a ha => hitems a (.item ha (.self a))) ⟨w, hw.mem_items, hdeepItem⟩ rfl
      | @object n members ascending plain =>
          obtain ⟨e', he', rfl⟩ := hw.mem_members
          cases members with
          | nil => cases he'
          | cons e members =>
              rw [render_object, List.cons_append, List.append_assoc, value, if_pos rfl]
              exact object_tooDeep (reads_value levels) (fun a ha => render_opens (plain a ha) layout (level + 1))
                (fun a ha => hitems a.2 (.member ha (.self a.2))) ⟨e', he', hdeepItem⟩ rfl
      | _ => cases hw

end Parser

/-! ## Values without doubles -/

theorem ordered_of_mem_items {j : Json} {items : List Json} (h : OrderedItems items) (hj : j ∈ items) : j.Ordered := by
  induction items with
  | nil => cases hj
  | cons a items ih =>
      rw [OrderedItems] at h
      rcases List.mem_cons.mp hj with rfl | hj
      · exact h.1
      · exact ih h.2 hj

theorem ordered_of_mem_members {e : Bytes × Json} {members : List (Bytes × Json)} (h : OrderedMembers members)
    (he : e ∈ members) : e.2.Ordered := by
  induction members with
  | nil => cases he
  | cons a members ih =>
      rw [OrderedMembers] at h
      rcases List.mem_cons.mp he with rfl | he
      · exact h.1
      · exact ih h.2 he

theorem height_le_heightItems {j : Json} {items : List Json} (hj : j ∈ items) : height j ≤ heightItems items := by
  induction items with
  | nil => cases hj
  | cons a items ih =>
      rw [heightItems]
      rcases List.mem_cons.mp hj with rfl | hj
      · exact Nat.le_max_left ..
      · exact Nat.le_trans (ih hj) (Nat.le_max_right ..)

theorem height_le_heightMembers {e : Bytes × Json} {members : List (Bytes × Json)} (he : e ∈ members) :
    height e.2 ≤ heightMembers members := by
  induction members with
  | nil => cases he
  | cons a members ih =>
      rw [heightMembers]
      rcases List.mem_cons.mp he with rfl | he
      · exact Nat.le_max_left ..
      · exact Nat.le_trans (ih he) (Nat.le_max_right ..)

/-- A value in order and without doubles is plain. -/
theorem plain_of_ordered {n : Nat} {v : Json} (hheight : height v ≤ n) (hordered : v.Ordered)
    (hdouble : ∀ k d, ¬ Inside k (.number (.double d)) v) : Plain n v := by
  -- Induction on the bound and not on the value, whose items stand in lists.
  induction n using Nat.strongRecOn generalizing v with
  | ind n ih =>
      cases v with
      | null => exact .null n
      | bool b => exact .bool n b
      | number number =>
          cases number with
          | integer i => exact .integer n i
          | double d => exact absurd (.self _) (hdouble 0 d)
      | string s => exact .string n s
      | array items =>
          rw [height] at hheight
          rw [Ordered] at hordered
          obtain ⟨n, rfl⟩ := Nat.exists_eq_add_of_le' (Nat.zero_lt_of_lt hheight)
          refine .array fun j hj => ih n (Nat.lt_succ_self n) ?_ (ordered_of_mem_items hordered hj)
            fun k d hd => hdouble (k + 1) d (.item hj hd)
          exact Nat.le_trans (height_le_heightItems hj) (Nat.le_of_succ_le_succ hheight)
      | object members =>
          rw [height] at hheight
          rw [Ordered] at hordered
          obtain ⟨n, rfl⟩ := Nat.exists_eq_add_of_le' (Nat.zero_lt_of_lt hheight)
          refine .object hordered.1 fun e he => ih n (Nat.lt_succ_self n) ?_ (ordered_of_mem_members hordered.2 he)
            fun k d hd => hdouble (k + 1) d (.member he hd)
          exact Nat.le_trans (height_le_heightMembers he) (Nat.le_of_succ_le_succ hheight)

/-! ## Equality -/

theorem same_self {n : Nat} {v : Json} (h : Plain n v) : v.same v = true := by
  induction h with
  | null => rfl
  | bool => simp [same]
  | integer => simp [same, Number.same]
  | string => simp [same]
  | @array n items _ ih =>
      have hitems : ∀ as, (∀ a ∈ as, a.same a = true) → sameItems as as = true := by
        intro as has
        induction as with
        | nil => rfl
        | cons a as ih =>
            obtain ⟨ha, has⟩ := List.forall_mem_cons.mp has
            rw [sameItems, ha, ih has]
            rfl
      rw [same, hitems items ih]
  | @object n members ascending _ ih =>
      have hmembers : ∀ as, (∀ e ∈ as, e ∈ members) → sameMembers as members = true := by
        intro as has
        induction as with
        | nil => rfl
        | cons e as ih' =>
            obtain ⟨key, a⟩ := e
            obtain ⟨he, has⟩ := List.forall_mem_cons.mp has
            rw [sameMembers, ascending.get?_of_mem he, ih' has]
            simp [ih _ he]
      rw [same, hmembers members fun e he => he]
      simp

/-! ## Documents -/

/-- A printed value is refused if one within has too many arrays and objects around it. -/
theorem parse_tooDeep {n : Nat} {j : Json} (h : Plain n j) (hdeep : ∃ k w, Inside k w j ∧ 512 ≤ k) (layout : Layout) :
    ∃ t, parse (render layout 0 j) = .error ⟨.tooDeep, t⟩ := by
  obtain ⟨t, ht⟩ := Parser.value_tooDeep h hdeep layout 0 []
  obtain ⟨c, u, hcu, hc⟩ := Parser.render_opens h layout 0
  rw [List.append_nil, hcu] at ht
  refine ⟨t, ?_⟩
  have hvalue : Parser.value Parser.maxLevels (c :: u) = .error ⟨.tooDeep, t⟩ := ht
  rw [parse, hcu, Parser.skipBlanks_of_not_blank hc.1, hvalue]
  rfl

/-- **The round trip with its limit.** Take a value without doubles, whose objects are in order as objects always are,
and its text in either layout. If every value within has fewer than 512 arrays and objects around it, the text reads
back as the value, which is equal to itself; otherwise it is refused for its depth. A negative indent acts as none. -/
theorem read_printed {j : Json} (hordered : j.Ordered) (hdouble : ∀ k d, ¬ Inside k (.number (.double d)) j) :
    (∀ text, (text = j.compact ∨ ∃ indent, text = j.pretty indent) →
      ((∀ k w, Inside k w j → k < 512) → read text = .ok j ∧ j.same j = true) ∧
      (¬ (∀ k w, Inside k w j → k < 512) →
        ∃ report, read text = .error report ∧ report.message = ascii "Maximum nesting depth exceeded")) ∧
    ∀ indent ≤ 0, j.pretty indent = j.pretty 0 := by
  have hplain : Plain (height j) j := plain_of_ordered (Nat.le_refl _) hordered hdouble
  refine ⟨fun text htext => ?_, fun indent hindent => ?_⟩
  · obtain ⟨layout, rfl⟩ : ∃ layout : Layout, text = render layout 0 j := by
      rcases htext with rfl | ⟨indent, rfl⟩
      · exact ⟨.compact, rfl⟩
      · exact ⟨.indented indent.toNat, rfl⟩
    refine ⟨fun hlevels => ⟨?_, same_self hplain⟩, fun hdeep => ?_⟩
    · have hparse := parse_printed hplain hlevels layout Parser.blanks_nil
      rw [List.append_nil] at hparse
      rw [read, hparse]
      rfl
    · simp only [not_forall, Nat.not_lt] at hdeep
      obtain ⟨k, w, hw, hk⟩ := hdeep
      obtain ⟨t, ht⟩ := parse_tooDeep hplain ⟨k, w, hw, hk⟩ layout
      rw [read, ht]
      exact ⟨_, rfl, rfl⟩
  · rw [pretty, pretty, Int.toNat_of_nonpos hindent]
    rfl

/-- An empty array in `n` arrays. -/
def nested : Nat → Json
  | 0 => .array []
  | n + 1 => .array [nested n]

theorem ordered_nested (n : Nat) : (nested n).Ordered := by
  induction n with
  | zero => simp [nested, Ordered, OrderedItems]
  | succ n ih => simp [nested, Ordered, OrderedItems, ih]

theorem inside_nested_self (n : Nat) : Inside n (nested 0) (nested n) := by
  induction n with
  | zero => exact .self _
  | succ n ih => exact .item (List.mem_cons_self ..) ih

theorem eq_nested_of_inside {n k : Nat} {w : Json} (h : Inside k w (nested n)) : k ≤ n ∧ ∃ m, w = nested m := by
  induction n generalizing k with
  | zero =>
      cases h with
      | self => exact ⟨Nat.le_refl 0, 0, rfl⟩
      | item mem => cases mem
  | succ n ih =>
      cases h with
      | self => exact ⟨Nat.zero_le _, n + 1, rfl⟩
      | item mem inside =>
          rw [List.mem_singleton.mp mem] at inside
          exact ⟨Nat.succ_le_succ (ih inside).1, (ih inside).2⟩

theorem no_double_nested (n k : Nat) (d : Binary64) : ¬ Inside k (.number (.double d)) (nested n) := by
  intro h
  obtain ⟨m, hm⟩ := (eq_nested_of_inside h).2
  cases m <;> cases hm

/-- At the limit: an array in 511 others reads back, one in 512 others does not. -/
theorem read_printed_nested :
    read (nested 511).compact = .ok (nested 511) ∧
      ∃ report, read (nested 512).compact = .error report ∧ report.message = ascii "Maximum nesting depth exceeded" := by
  have hread := (read_printed (ordered_nested 511) (no_double_nested 511)).1 _ (.inl rfl)
  have hrefused := (read_printed (ordered_nested 512) (no_double_nested 512)).1 _ (.inl rfl)
  refine ⟨(hread.1 fun k w hw => ?_).1, hrefused.2 fun hlevels => ?_⟩
  · exact Nat.lt_succ_of_le (eq_nested_of_inside hw).1
  · exact Nat.lt_irrefl 512 (hlevels 512 _ (inside_nested_self 512))

end ModRepair.Json
