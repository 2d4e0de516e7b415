import ModRepair.Metadata.Module

/-!
# Traversal of method bodies

Visits the instructions of all bodies in the order of the declarations, with a state that is handed from one to
the next, and puts each back as the visit returns it. Nothing else of the types changes.
-/

namespace ModRepair

/-- Where an instruction stands: the type, the method, and the position in its body. -/
structure Site where
  typeName : Bytes
  methodName : Bytes
  position : Nat
  deriving DecidableEq, Repr

/-- Maps a list while handing a state along. -/
def threadMap {α β σ : Type} (f : α → σ → β × σ) : List α → σ → List β × σ
  | [], s => ([], s)
  | a :: as, s =>
    let (b, s) := f a s
    let (bs, s) := threadMap f as s
    (b :: bs, s)

namespace Traversal

variable {σ : Type} (visit : Site → Instruction → σ → Instruction × σ)

/-- The instructions of a body from a position on. -/
def body (typeName methodName : Bytes) : (position : Nat) → List Instruction → σ → List Instruction × σ
  | _, [], s => ([], s)
  | position, i :: rest, s =>
    let (i, s) := visit ⟨typeName, methodName, position⟩ i s
    let (rest, s) := body typeName methodName (position + 1) rest s
    (i :: rest, s)

def method (typeName : Bytes) (d : MethodDecl) (s : σ) : MethodDecl × σ :=
  match d.body with
  | none => (d, s)
  | some is =>
    let (is, s) := body visit typeName d.signature.name 0 is s
    ({ d with body := some is }, s)

def type (t : TypeDecl) (s : σ) : TypeDecl × σ :=
  let (methods, s) := threadMap (method visit t.fullName) t.methods s
  ({ t with methods }, s)

def types (ts : List TypeDecl) (s : σ) : List TypeDecl × σ :=
  threadMap (type visit) ts s

end Traversal

end ModRepair
