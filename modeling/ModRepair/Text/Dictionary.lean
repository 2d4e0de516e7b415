import ModRepair.Text.Bytes

/-!
# Dictionaries with byte-string keys

A dictionary is a list of entries in ascending key order, each key once. `Ascending` is that invariant,
`insert` keeps it, and `get?_insert` says what a look-up finds after an insertion.
-/

namespace ModRepair

/-- Entries in ascending order of their keys. -/
abbrev Dictionary (α : Type) := List (Bytes × α)

namespace Dictionary

variable {α : Type}

/-- The value under a key. -/
def get? (key : Bytes) : Dictionary α → Option α
  | [] => none
  | (k, v) :: rest => if k = key then some v else get? key rest

/-- Puts a value under a key, in place of the value there before. -/
def insert (key : Bytes) (value : α) : Dictionary α → Dictionary α
  | [] => [(key, value)]
  | (k, v) :: rest =>
    if key < k then (key, value) :: (k, v) :: rest
    else if k = key then (key, value) :: rest
    else (k, v) :: insert key value rest

/-- The dictionary of a list of entries; of several with one key the last counts. -/
def ofList (entries : List (Bytes × α)) : Dictionary α :=
  entries.foldl (fun d e => insert e.1 e.2 d) []

/-- Each key is smaller than those after it. -/
def Ascending (d : Dictionary α) : Prop :=
  d.Pairwise fun a b => a.1 < b.1

theorem get?_insert (key key' : Bytes) (value : α) (d : Dictionary α) :
    get? key' (insert key value d) = if key = key' then some value else get? key' d := by
  induction d with
  | nil => simp [insert, get?]
  | cons e rest ih =>
    obtain ⟨k, v⟩ := e
    unfold insert
    split
    · simp [get?]
    · split
      · next h => subst h; by_cases hk : k = key' <;> simp [get?, hk]
      · next h =>
        simp only [get?, ih]
        by_cases hk : k = key'
        · subst hk
          simp [Ne.symm h]
        · simp [hk]

end Dictionary

end ModRepair
