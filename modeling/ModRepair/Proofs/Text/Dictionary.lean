import Mathlib.Data.List.Perm.Subperm
import ModRepair.Text.Dictionary

/-!
# Dictionaries in ascending order

`insert` keeps a dictionary in ascending order and adds nothing but its entry, so `ofList` gives an ascending
dictionary of entries of its list. A key above all others goes to the end.

* `get?_ofList` — of several entries with one key the last counts;
* `Ascending.ext` — an ascending dictionary is determined by what look-ups find in it;
* `Ascending.eq_of_subset` — and by its entries, of which there are no more than in another that has them.
-/

namespace ModRepair

namespace Bytes

/-- Of two texts that differ one comes first. -/
theorem lt_of_not_lt {s t : Bytes} (h : ¬ s < t) (hne : t ≠ s) : t < s :=
  (List.le_iff_lt_or_eq.mp (List.not_lt.mp h)).resolve_right hne

end Bytes

namespace Dictionary

variable {α : Type} {key : Bytes} {value : α} {d : Dictionary α}

/-- An insertion adds nothing but its entry. -/
theorem mem_of_mem_insert {e : Bytes × α} (h : e ∈ insert key value d) : e = (key, value) ∨ e ∈ d := by
  induction d with
  | nil => exact .inl (List.mem_singleton.mp h)
  | cons a rest ih =>
      obtain ⟨k, v⟩ := a
      unfold insert at h
      split at h
      · rcases List.mem_cons.mp h with rfl | h
        · exact .inl rfl
        · exact .inr h
      · split at h
        · rcases List.mem_cons.mp h with rfl | h
          · exact .inl rfl
          · exact .inr (List.mem_cons_of_mem _ h)
        · rcases List.mem_cons.mp h with rfl | h
          · exact .inr (List.mem_cons_self ..)
          · rcases ih h with rfl | h
            · exact .inl rfl
            · exact .inr (List.mem_cons_of_mem _ h)

/-- **An insertion keeps the order.** -/
theorem Ascending.insert (h : Ascending d) : Ascending (insert key value d) := by
  induction d with
  | nil => exact List.pairwise_singleton _ _
  | cons a rest ih =>
      obtain ⟨k, v⟩ := a
      obtain ⟨hk, hrest⟩ := List.pairwise_cons.mp h
      unfold Dictionary.insert
      split
      · next hlt =>
          refine List.pairwise_cons.mpr ⟨?_, h⟩
          intro e he
          rcases List.mem_cons.mp he with rfl | he
          · exact hlt
          · exact List.lt_trans hlt (hk e he)
      · next hnlt =>
          split
          · next heq =>
              subst heq
              exact List.pairwise_cons.mpr ⟨hk, hrest⟩
          · next hne =>
              refine List.pairwise_cons.mpr ⟨?_, ih hrest⟩
              intro e he
              -- What comes after `k` is the new entry or was there before.
              rcases mem_of_mem_insert he with rfl | he
              · exact Bytes.lt_of_not_lt hnlt hne
              · exact hk e he

theorem ascending_foldl {entries : List (Bytes × α)} (h : Ascending d) :
    Ascending (entries.foldl (fun d e => Dictionary.insert e.1 e.2 d) d) := by
  induction entries generalizing d with
  | nil => exact h
  | cons e entries ih => exact ih h.insert

/-- A dictionary of entries is ascending. -/
theorem ascending_ofList (entries : List (Bytes × α)) : Ascending (ofList entries) :=
  ascending_foldl List.Pairwise.nil

theorem mem_of_mem_foldl {entries : List (Bytes × α)} {e : Bytes × α}
    (h : e ∈ entries.foldl (fun d e => Dictionary.insert e.1 e.2 d) d) : e ∈ entries ∨ e ∈ d := by
  induction entries generalizing d with
  | nil => exact .inr h
  | cons a entries ih =>
      rcases ih h with h | h
      · exact .inl (List.mem_cons_of_mem _ h)
      · rcases mem_of_mem_insert h with rfl | h
        · exact .inl (List.mem_cons_self ..)
        · exact .inr h

/-- A dictionary of entries has no others. -/
theorem mem_of_mem_ofList {entries : List (Bytes × α)} {e : Bytes × α} (h : e ∈ ofList entries) : e ∈ entries := by
  rcases mem_of_mem_foldl h with h | h
  · exact h
  · cases h

/-- A key above all others goes to the end. -/
theorem insert_of_forall_lt (h : ∀ e ∈ d, e.1 < key) : insert key value d = d ++ [(key, value)] := by
  induction d with
  | nil => rfl
  | cons a rest ih =>
      obtain ⟨k, v⟩ := a
      obtain ⟨hk, hrest⟩ := List.forall_mem_cons.mp h
      have hk : k < key := hk
      unfold insert
      rw [if_neg (List.lt_asymm hk), if_neg, ih hrest]
      · rfl
      · rintro rfl
        exact List.lt_irrefl k hk

theorem foldl_insert_of_ascending {read : Dictionary α} (h : Ascending (read ++ d)) :
    d.foldl (fun d e => insert e.1 e.2 d) read = read ++ d := by
  induction d generalizing read with
  | nil => exact (List.append_nil read).symm
  | cons e rest ih =>
      have hlast : ∀ a ∈ read, a.1 < e.1 :=
        fun a ha => (List.pairwise_append.mp h).2.2 a ha e (List.mem_cons_self ..)
      have hrest : Ascending (read ++ [e] ++ rest) := by
        rw [List.append_assoc]
        exact h
      rw [List.foldl_cons, insert_of_forall_lt hlast, ih hrest, List.append_assoc]
      rfl

/-- An ascending dictionary is that of its entries. -/
theorem Ascending.ofList_eq (h : Ascending d) : ofList d = d :=
  foldl_insert_of_ascending (show Ascending ([] ++ d) from h)

/-! ## Look-ups -/

/-- Under a key below all others there is nothing. -/
theorem get?_eq_none_of_forall_lt (h : ∀ e ∈ d, key < e.1) : get? key d = none := by
  induction d with
  | nil => rfl
  | cons e rest ih =>
      obtain ⟨k, v⟩ := e
      obtain ⟨hk, hrest⟩ := List.forall_mem_cons.mp h
      have hne : k ≠ key := by
        rintro rfl
        exact List.lt_irrefl k hk
      rw [get?, if_neg hne, ih hrest]

/-- What is found under a key is the value of an entry. -/
theorem mem_of_get? (h : get? key d = some value) : (key, value) ∈ d := by
  induction d with
  | nil => cases h
  | cons e rest ih =>
      obtain ⟨k, v⟩ := e
      rw [get?] at h
      split at h
      · next hk =>
          cases hk
          cases h
          exact List.mem_cons_self ..
      · exact List.mem_cons_of_mem _ (ih h)

/-- An entry of an ascending dictionary is found under its key. -/
theorem Ascending.get?_of_mem (h : Ascending d) (hmem : (key, value) ∈ d) : get? key d = some value := by
  induction d with
  | nil => cases hmem
  | cons e rest ih =>
      obtain ⟨k, v⟩ := e
      obtain ⟨hk, hrest⟩ := List.pairwise_cons.mp h
      rw [get?]
      rcases List.mem_cons.mp hmem with heq | hmem
      · cases heq
        rw [if_pos rfl]
      · have hne : k ≠ key := by
          rintro rfl
          exact List.lt_irrefl k (hk _ hmem)
        rw [if_neg hne, ih hrest hmem]

theorem get?_foldl (key : Bytes) (entries : List (Bytes × α)) (d : Dictionary α) :
    get? key (entries.foldl (fun d e => Dictionary.insert e.1 e.2 d) d) =
      (entries.reverse.lookup key).or (get? key d) := by
  induction entries generalizing d with
  | nil => rfl
  | cons e entries ih =>
      obtain ⟨k, v⟩ := e
      rw [List.foldl_cons, ih, get?_insert, List.reverse_cons, List.lookup_append, Option.or_assoc]
      congr 1
      by_cases hk : k = key
      · simp [hk]
      · simp [hk, List.lookup_cons, beq_false_of_ne (Ne.symm hk)]

/-- **The last entry of a key counts.** -/
theorem get?_ofList (key : Bytes) (entries : List (Bytes × α)) :
    get? key (ofList entries) = entries.reverse.lookup key := by
  rw [ofList, get?_foldl]
  exact Option.or_none

/-- A first key that another dictionary has is not below the first key there. -/
theorem not_lt_of_get?_eq {k k' : Bytes} {v v' : α} {rest rest' : Dictionary α} (hk' : ∀ e ∈ rest', k' < e.1)
    (h : get? k ((k, v) :: rest) = get? k ((k', v') :: rest')) : ¬ k < k' := by
  intro hlt
  have hnone : get? k ((k', v') :: rest') = none :=
    get?_eq_none_of_forall_lt (List.forall_mem_cons.mpr ⟨hlt, fun e he => List.lt_trans hlt (hk' e he)⟩)
  rw [hnone, get?, if_pos rfl] at h
  cases h

/-- **Look-ups determine an ascending dictionary.** -/
theorem Ascending.ext {d' : Dictionary α} (h : Ascending d) (h' : Ascending d')
    (hget : ∀ key, get? key d = get? key d') : d = d' := by
  induction d generalizing d' with
  | nil =>
      cases d' with
      | nil => rfl
      | cons e' rest' => simpa [get?] using hget e'.1
  | cons e rest ih =>
      obtain ⟨k, v⟩ := e
      cases d' with
      | nil => simpa [get?] using hget k
      | cons e' rest' =>
          obtain ⟨k', v'⟩ := e'
          obtain ⟨hk, hrest⟩ := List.pairwise_cons.mp h
          obtain ⟨hk', hrest'⟩ := List.pairwise_cons.mp h'
          have hle : k ≤ k' := List.not_lt.mp (not_lt_of_get?_eq hk (hget k').symm)
          have hle' : k' ≤ k := List.not_lt.mp (not_lt_of_get?_eq hk' (hget k))
          obtain rfl := List.le_antisymm hle hle'
          have hvalue : v = v' := by simpa [get?] using hget k
          subst hvalue
          rw [ih hrest hrest']
          -- The rests have no entry under the first key, and any other key is looked up in them.
          intro key
          by_cases heq : k = key
          · subst heq
            rw [get?_eq_none_of_forall_lt hk, get?_eq_none_of_forall_lt hk']
          · simpa [get?, heq] using hget key

/-- **An ascending dictionary whose entries are those of another is the other**, if it is as long. -/
theorem Ascending.eq_of_subset {d' : Dictionary α} (h : Ascending d) (h' : Ascending d')
    (hlength : d.length = d'.length) (hsubset : ∀ e ∈ d, e ∈ d') : d = d' := by
  have hnodup : d.Nodup := by
    refine List.Pairwise.imp (fun {a b} hlt => ?_) h
    rintro rfl
    exact List.lt_irrefl a.1 hlt
  have hperm : d.Perm d' := (List.subperm_of_subset hnodup hsubset).perm_of_length_le (Nat.le_of_eq hlength.symm)
  exact hperm.eq_of_pairwise (fun a b _ _ hab hba => absurd hba (List.lt_asymm hab)) h h'

end Dictionary

end ModRepair
