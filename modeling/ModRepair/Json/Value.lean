import ModRepair.Text.Binary64
import ModRepair.Text.Dictionary

/-!
# JSON values

A JSON document as a value: strings are byte strings, integers that fit 64 bits stay exact, every other number is
a double, and the members of an object are in ascending key order. `Json.same` is the equality of values, under
which an integer equals the double it rounds to; on values without doubles it is meant to be plain equality.
-/

namespace ModRepair

/-- A JSON number. -/
inductive Number
  | integer (value : Int64)
  | double (value : Binary64)
  deriving DecidableEq, Repr

namespace Number

/-- The number as a double, an integer rounded to the nearest. -/
def toDouble : Number → Binary64
  | .integer i => .ofInt i.toInt
  | .double d => d

/-- Integers are compared exactly, all else as doubles. -/
def same : Number → Number → Bool
  | .integer a, .integer b => a == b
  | a, b => a.toDouble.same b.toDouble

end Number

/-- A JSON value. -/
inductive Json
  | null
  | bool (value : Bool)
  | number (value : Number)
  | string (value : Bytes)
  | array (items : List Json)
  | object (members : List (Bytes × Json))
  deriving Repr

namespace Json

instance : Inhabited Json := ⟨.null⟩

/-- An integer value. -/
abbrev integer (i : Int64) : Json :=
  .number (.integer i)

/-- A string value whose text is an ASCII literal. -/
def literal (s : String) : Json :=
  .string (ascii s)

/-- An object of the given members; of several with one key the last counts. -/
def ofMembers (members : List (Bytes × Json)) : Json :=
  .object (Dictionary.ofList members)

/-- An array of strings. -/
def strings (texts : List Bytes) : Json :=
  .array (texts.map .string)

/-! ## Kinds -/

/-- The kinds of JSON values, the two kinds of numbers told apart. -/
inductive Kind
  | null | bool | integer | double | string | array | object
  deriving DecidableEq, Repr

def kind : Json → Kind
  | .null => .null
  | .bool _ => .bool
  | .number (.integer _) => .integer
  | .number (.double _) => .double
  | .string _ => .string
  | .array _ => .array
  | .object _ => .object

/-! ## Views -/

def bool? : Json → Option Bool
  | .bool b => some b
  | _ => none

def number? : Json → Option Number
  | .number n => some n
  | _ => none

def string? : Json → Option Bytes
  | .string s => some s
  | _ => none

def array? : Json → Option (List Json)
  | .array items => some items
  | _ => none

def object? : Json → Option (List (Bytes × Json))
  | .object members => some members
  | _ => none

/-- The integer, if the value is a number kept as one. -/
def integer? : Json → Option Int64
  | .number (.integer i) => some i
  | _ => none

/-- The number of elements or members, none for any other kind. -/
def size : Json → Nat
  | .array items => items.length
  | .object members => members.length
  | _ => 0

/-- The member under a key, if the value is an object that has one. -/
def get? (key : Bytes) : Json → Option Json
  | .object members => Dictionary.get? key members
  | _ => none

/-- The member under a key, if it is a string. -/
def getString? (key : Bytes) (j : Json) : Option Bytes :=
  (j.get? key).bind string?

/-- The member under a key if it is a boolean, else `fallback`. -/
def getBool (key : Bytes) (fallback : Bool) (j : Json) : Bool :=
  ((j.get? key).bind bool?).getD fallback

/-! ## Changes -/

/-- The array with one more element at its end. -/
def push? (j item : Json) : Option Json :=
  match j with
  | .array items => some (.array (items ++ [item]))
  | _ => none

/-- The object with a value under a key. -/
def set? (j : Json) (key : Bytes) (value : Json) : Option Json :=
  match j with
  | .object members => some (.object (Dictionary.insert key value members))
  | _ => none

/-! ## Equality -/

mutual

/-- Equality of values: of one kind and equal in content. Objects are equal if they have as many members and
each member of the first has an equal one under its key in the second. -/
def same : Json → Json → Bool
  | .null, .null => true
  | .bool a, .bool b => a == b
  | .number a, .number b => a.same b
  | .string a, .string b => a == b
  | .array as, .array bs => sameItems as bs
  | .object as, .object bs => as.length == bs.length && sameMembers as bs
  | _, _ => false

/-- Equality of arrays, element by element. -/
def sameItems : List Json → List Json → Bool
  | [], [] => true
  | a :: as, b :: bs => same a b && sameItems as bs
  | _, _ => false

/-- Whether each of the first members has an equal one under its key among the second. -/
def sameMembers : List (Bytes × Json) → List (Bytes × Json) → Bool
  | [], _ => true
  | (key, a) :: as, bs =>
    (match Dictionary.get? key bs with
      | some b => same a b
      | none => false) && sameMembers as bs

end

/-! ## Order and depth -/

mutual

/-- All objects within list their members in strictly ascending key order. -/
def Ordered : Json → Prop
  | .array items => OrderedItems items
  | .object members => Dictionary.Ascending members ∧ OrderedMembers members
  | _ => True

def OrderedItems : List Json → Prop
  | [] => True
  | j :: rest => Ordered j ∧ OrderedItems rest

def OrderedMembers : List (Bytes × Json) → Prop
  | [] => True
  | (_, j) :: rest => Ordered j ∧ OrderedMembers rest

end

mutual

/-- The largest number of arrays and objects around and at a value within. -/
def height : Json → Nat
  | .array items => heightItems items + 1
  | .object members => heightMembers members + 1
  | _ => 0

def heightItems : List Json → Nat
  | [] => 0
  | j :: rest => max (height j) (heightItems rest)

def heightMembers : List (Bytes × Json) → Nat
  | [] => 0
  | (_, j) :: rest => max (height j) (heightMembers rest)

end

end Json

end ModRepair
