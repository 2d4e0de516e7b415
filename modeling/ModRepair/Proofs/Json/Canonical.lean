import Mathlib.Tactic.TFAE
import ModRepair.Proofs.Json.Depth

/-!
# Text as a canonical form

Values without doubles are equal exactly if they are written alike, in either layout and at any depth: beyond the depth
that documents may have, the reader with enough levels still tells the values apart. The equality of values compares
the members of one object with those of another in one direction only; that it is symmetric rests on their number.

* `denotes_unique` — no text goes on as another does: **a text and what follows it can be told apart in one way**;
* `render_inj` — a layout writes different values differently;
* `same_iff_eq` — the equality of values is equality;
* `printed_text_canonical` — **the canonical form**.
-/

namespace ModRepair.Json

open Grammar

/-! ## Texts -/

/-- **Unique readability.** A text that starts with a value starts with one value only, whatever limits are set on its
depth, if what follows the value does not go on with a number. -/
theorem denotes_unique {n m : Nat} {s t rest rest' : Bytes} {a b : Json} (ha : Denotes n s a) (hb : Denotes m t b)
    (hrest : Parser.Ends rest) (hrest' : Parser.Ends rest') (heq : s ++ rest = t ++ rest') : a = b ∧ rest = rest' := by
  -- The reader with levels enough for both takes each of them from the same text.
  have hreads : Parser.Reads (Parser.value (max n m)) (Denotes (max n m)) := Parser.reads_value (max n m)
  have hfirst := hreads.accepts (denotes_mono (Nat.le_max_left n m) ha) hrest
  have hsecond := hreads.accepts (denotes_mono (Nat.le_max_right n m) hb) hrest'
  rw [heq, hsecond] at hfirst
  cases hfirst
  exact ⟨rfl, rfl⟩

/-- **A layout writes different values differently.** -/
theorem render_inj {n m : Nat} {a b : Json} (ha : Plain n a) (hb : Plain m b) (layout : Layout) (level : Nat)
    (h : render layout level a = render layout level b) : a = b := by
  have hdenotes : ∀ {k : Nat} {v : Json}, Plain k v → Denotes (k + 1) (render layout level v) v := fun hv =>
    denotes_render hv (fun _ _ hw => Nat.lt_succ_of_le (hv.le_of_inside hw)) layout level
  have hends : Parser.Ends [] := nofun
  exact (denotes_unique (hdenotes ha) (hdenotes hb) hends hends (congrArg (· ++ []) h)).1

/-! ## Equality -/

theorem eq_of_sameItems {as bs : List Json} (hitems : ∀ a ∈ as, ∀ b ∈ bs, a.same b = true → a = b)
    (h : sameItems as bs = true) : as = bs := by
  induction as generalizing bs with
  | nil =>
      cases bs with
      | nil => rfl
      | cons b bs => simp [sameItems] at h
  | cons a as ih =>
      cases bs with
      | nil => simp [sameItems] at h
      | cons b bs =>
          rw [sameItems, Bool.and_eq_true] at h
          obtain ⟨hfirst, hrest⟩ := h
          rw [hitems a (List.mem_cons_self ..) b (List.mem_cons_self ..) hfirst,
            ih (fun a ha b hb => hitems a (List.mem_cons_of_mem _ ha) b (List.mem_cons_of_mem _ hb)) hrest]

/-- The members of one object are compared with what another has under their keys. -/
theorem sameMembers_iff {as bs : List (Bytes × Json)} :
    sameMembers as bs = true ↔ ∀ e ∈ as, ∃ b, Dictionary.get? e.1 bs = some b ∧ e.2.same b = true := by
  induction as with
  | nil => simp [sameMembers]
  | cons e as ih =>
      obtain ⟨key, a⟩ := e
      rw [sameMembers, Bool.and_eq_true, ih, List.forall_mem_cons]
      cases Dictionary.get? key bs with
      | none => simp
      | some b => simp

/-- **Plain values that count as equal are equal.** -/
theorem eq_of_same {n m : Nat} {a b : Json} (ha : Plain n a) (hb : Plain m b) (h : a.same b = true) : a = b := by
  induction ha generalizing m b with
  | null =>
      cases hb with
      | null => rfl
      | _ => simp [same] at h
  | bool n x =>
      cases hb with
      | bool => simpa [same] using h
      | _ => simp [same] at h
  | integer n i =>
      cases hb with
      | integer => simpa [same, Number.same] using h
      | _ => simp [same] at h
  | string n s =>
      cases hb with
      | string => simpa [same] using h
      | _ => simp [same] at h
  | array plain ih =>
      cases hb with
      | array plain' =>
          rw [same] at h
          rw [eq_of_sameItems (fun a ha b hb => ih a ha (plain' b hb)) h]
      | _ => simp [same] at h
  | object ascending plain ih =>
      cases hb with
      | object ascending' plain' =>
          rw [same, Bool.and_eq_true, beq_iff_eq, sameMembers_iff] at h
          obtain ⟨hlength, hmembers⟩ := h
          -- Each member of the first is one of the second, and the second has no more of them.
          refine congrArg Json.object (Dictionary.Ascending.eq_of_subset ascending ascending' hlength fun e he => ?_)
          obtain ⟨b, hget, hsame⟩ := hmembers e he
          have hmem : (e.1, b) ∈ _ := Dictionary.mem_of_get? hget
          have heq : e.2 = b := ih e he (plain' _ hmem) hsame
          subst heq
          exact hmem
      | _ => simp [same] at h

theorem same_iff_eq {n m : Nat} {a b : Json} (ha : Plain n a) (hb : Plain m b) : a.same b = true ↔ a = b := by
  constructor
  · exact eq_of_same ha hb
  · rintro rfl
    exact same_self ha

/-! ## The canonical form -/

/-- **Text is a canonical form.** For two values without doubles, whose objects are in order as objects always are, it is
all one whether they are equal, count as equal in either direction, or have the same text, on one line or on several
with any indent. -/
theorem printed_text_canonical {a b : Json} (ha : a.Ordered) (hb : b.Ordered)
    (hdouble : ∀ k d, ¬ Inside k (.number (.double d)) a) (hdouble' : ∀ k d, ¬ Inside k (.number (.double d)) b)
    (indent : Int) :
    [a = b, a.same b = true, b.same a = true, a.compact = b.compact, a.pretty indent = b.pretty indent].TFAE := by
  have hplain : Plain (height a) a := plain_of_ordered (Nat.le_refl _) ha hdouble
  have hplain' : Plain (height b) b := plain_of_ordered (Nat.le_refl _) hb hdouble'
  tfae_have 1 ↔ 2 := (same_iff_eq hplain hplain').symm
  tfae_have 1 ↔ 3 := eq_comm.trans (same_iff_eq hplain' hplain).symm
  tfae_have 1 → 4 := congrArg compact
  tfae_have 4 → 1 := render_inj hplain hplain' .compact 0
  tfae_have 1 → 5 := congrArg (pretty indent)
  tfae_have 5 → 1 := render_inj hplain hplain' (.indented indent.toNat) 0
  tfae_finish

/-- An object with a string that spells out the punctuation of another object, too deep to read back. -/
def imitator : Json :=
  .object [(ascii "a", .literal "1\",\"b\":\"2"), (ascii "c", nested 600)]

/-- The object that is spelled out. -/
def imitated : Json :=
  .object [(ascii "a", .literal "1"), (ascii "b", .literal "2"), (ascii "c", nested 600)]

theorem ordered_imitator : imitator.Ordered ∧ imitated.Ordered := by
  have hnested := ordered_nested 600
  constructor
  · simp only [imitator, literal, Ordered, OrderedMembers, hnested, and_true]
    exact List.pairwise_cons.mpr (by decide)
  · simp only [imitated, literal, Ordered, OrderedMembers, hnested, and_true]
    exact List.pairwise_cons.mpr (by decide)

/-- Members that are strings or nested arrays hold no doubles. -/
theorem no_double_members {members : List (Bytes × Json)}
    (h : ∀ e ∈ members, (∃ s, e.2 = .string s) ∨ ∃ n, e.2 = nested n) (k : Nat) (d : Binary64) :
    ¬ Inside k (.number (.double d)) (.object members) := by
  intro hinside
  cases hinside with
  | member hmem hinside =>
      rcases h _ hmem with ⟨s, hs⟩ | ⟨n, hn⟩
      · rw [hs] at hinside
        cases hinside
      · rw [hn] at hinside
        exact no_double_nested n _ d hinside

/-- Quotes within a string do not pass for those around it: the two objects differ, and so do their texts. -/
theorem printed_text_canonical_imitator :
    imitator.Ordered ∧ imitated.Ordered ∧ imitator.same imitated = false ∧ imitator.compact ≠ imitated.compact ∧
      imitator.pretty 4 ≠ imitated.pretty 4 := by
  have hcanonical := printed_text_canonical ordered_imitator.1 ordered_imitator.2
    (no_double_members (by simp [literal])) (no_double_members (by simp [literal])) 4
  have hdiffer : imitator.same imitated = false := by simp [imitator, imitated, same]
  have hne : ¬ imitator.same imitated = true := by simp [hdiffer]
  exact ⟨ordered_imitator.1, ordered_imitator.2, hdiffer, mt (hcanonical.out 3 1).mp hne,
    mt (hcanonical.out 4 1).mp hne⟩

end ModRepair.Json
