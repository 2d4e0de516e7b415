import ModRepair.Json.Value

/-!
# Accessors of one kind

A JSON value can be taken apart in two ways: by views, which have an answer for a value of any kind, and by accessors,
which are for values of one kind only and fail on all others. A reader that uses accessors can end in a third way,
besides a result and a fault of the document: `Trouble.misuse`. It is safe if it asks for the kind before each access,
so that this never happens; `Trouble.Matches` says so by comparing it with a reader that uses views.

* `Json.Accessor` — a kind and its accessor, with the view that goes with it;
* `Json.Accessor.guarded` — **the law of safe access**: behind a test of the kind an accessor is as good as the view;
* `lift` — a reader that uses views among those that use accessors, with the laws by which it goes through a reader;
* `matches_lift` — such a reader misuses nothing.
-/

namespace ModRepair

/-! ## Trouble -/

/-- How a reader can end without a result: it has used an accessor on a value of another kind, or there is a fault in
    the document. -/
inductive Trouble (φ : Type)
  | misuse (wanted found : Json.Kind)
  | fault (fault : φ)
  deriving DecidableEq, Repr

/-- What comes of reading with accessors. -/
abbrev Access (φ α : Type) := Except (Trouble φ) α

namespace Trouble

variable {φ ψ α β : Type}

/-- The fault in other words; a misuse goes through. -/
def map (f : φ → ψ) : Trouble φ → Trouble ψ
  | .misuse wanted found => .misuse wanted found
  | .fault e => .fault (f e)

/-- Reading with accessors comes to the same result or the same fault as reading with views, and misuses none. -/
def Matches (x : Access φ α) (y : Except φ α) : Prop :=
  (∃ a, x = .ok a ∧ y = .ok a) ∨ ∃ e, x = .error (.fault e) ∧ y = .error e

/-- What comes of reading with views. -/
def lift (x : Except φ α) : Access φ α :=
  x.mapError .fault

/-! ### Laws of lifting -/

@[simp] theorem lift_pure (a : α) : lift (pure a : Except φ α) = pure a := rfl

theorem lift_bind (x : Except φ α) (f : α → Except φ β) : lift (x >>= f) = lift x >>= fun a => lift (f a) := by
  cases x with
  | error e => rfl
  | ok a => rfl

theorem lift_map (x : Except φ α) (f : α → β) : lift (x.map f) = (lift x).map f := by
  cases x with
  | error e => rfl
  | ok a => rfl

theorem lift_mapError (x : Except φ α) (f : φ → ψ) : lift (x.mapError f) = (lift x).mapError (map f) := by
  cases x with
  | error e => rfl
  | ok a => rfl

/-- What reads with views misuses no accessor. -/
theorem matches_lift (x : Except φ α) : Matches (lift x) x := by
  cases x with
  | error e => exact .inr ⟨e, rfl, rfl⟩
  | ok a => exact .inl ⟨a, rfl, rfl⟩

end Trouble

/-! ## Accessors -/

namespace Json

/-- An accessor for the values of a kind, with the view that has an answer for exactly these. -/
structure Accessor (α : Type) where
  kind : Kind
  view? : Json → Option α
  kind_eq_iff : ∀ j : Json, j.kind = kind ↔ (view? j).isSome = true

namespace Accessor

variable {φ α β : Type}

def bool : Accessor Bool where
  kind := .bool
  view? := bool?
  kind_eq_iff := by
    intro j
    cases j with
    | number n => cases n <;> simp [Json.kind, bool?]
    | _ => simp [Json.kind, bool?]

def string : Accessor Bytes where
  kind := .string
  view? := string?
  kind_eq_iff := by
    intro j
    cases j with
    | number n => cases n <;> simp [Json.kind, string?]
    | _ => simp [Json.kind, string?]

def array : Accessor (List Json) where
  kind := .array
  view? := array?
  kind_eq_iff := by
    intro j
    cases j with
    | number n => cases n <;> simp [Json.kind, array?]
    | _ => simp [Json.kind, array?]

/-- What a value of the kind holds; on any other value this is a misuse. -/
def get (a : Accessor α) (j : Json) : Access φ α :=
  match a.view? j with
  | some x => .ok x
  | none => .error (.misuse a.kind j.kind)

/-- **An accessor fails** on the values of other kinds, and on no others. -/
theorem get_eq_misuse_iff {a : Accessor α} {j : Json} :
    (a.get j : Access φ α) = .error (.misuse a.kind j.kind) ↔ j.kind ≠ a.kind := by
  unfold get
  rw [ne_eq, a.kind_eq_iff]
  cases a.view? j with
  | none => simp
  | some x => simp

/-- **Asking for the kind first** is as good as a view: where the accessor is used, it has an answer. -/
theorem guarded (a : Accessor α) (j : Json) (f : α → Access φ β) (other : Access φ β) :
    (if j.kind = a.kind then a.get j >>= f else other) = (a.view? j).elim other f := by
  by_cases hkind : j.kind = a.kind
  · have hview : (a.view? j).isSome = true := (a.kind_eq_iff j).mp hkind
    obtain ⟨x, hx⟩ := Option.isSome_iff_exists.mp hview
    rw [if_pos hkind, get, hx]
    rfl
  · have hview : a.view? j = none := by
      have hnone : ¬ (a.view? j).isSome = true := fun h => hkind ((a.kind_eq_iff j).mpr h)
      simpa using hnone
    rw [if_neg hkind, hview]
    rfl

end Accessor

/-! ### Members -/

variable {φ : Type}

/-- The string under a key, if there is one, read with the accessor. -/
def accessString? (key : Bytes) (j : Json) : Access φ (Option Bytes) :=
  match j.get? key with
  | none => return none
  | some value =>
    if value.kind = Accessor.string.kind then return some (← Accessor.string.get value) else return none

/-- The boolean under a key, read with the accessor, or `fallback` if there is none. -/
def accessBool (key : Bytes) (fallback : Bool) (j : Json) : Access φ Bool :=
  match j.get? key with
  | none => return fallback
  | some value =>
    if value.kind = Accessor.bool.kind then Accessor.bool.get value else return fallback

theorem accessString?_eq (key : Bytes) (j : Json) :
    (j.accessString? key : Access φ (Option Bytes)) = pure (j.getString? key) := by
  unfold accessString? getString?
  cases j.get? key with
  | none => rfl
  | some value =>
      show (if value.kind = Accessor.string.kind then Accessor.string.get value >>= _ else _) = _
      rw [Accessor.guarded]
      show value.string?.elim _ _ = pure value.string?
      cases value.string? <;> rfl

theorem accessBool_eq (key : Bytes) (fallback : Bool) (j : Json) :
    (j.accessBool key fallback : Access φ Bool) = pure (j.getBool key fallback) := by
  unfold accessBool getBool
  cases j.get? key with
  | none => rfl
  | some value =>
      show (if value.kind = Accessor.bool.kind then Accessor.bool.get value else _) = _
      rw [← bind_pure (Accessor.bool.get value), Accessor.guarded]
      show value.bool?.elim _ _ = pure (value.bool?.getD fallback)
      cases value.bool? <;> rfl

end Json

end ModRepair
