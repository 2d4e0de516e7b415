import ModRepair.Text.Bytes

/-!
# Transcripts

What has been written to an output stream, kept piece by piece. `text` is the whole, and writing appends to it
(`text_write`).
-/

namespace ModRepair

structure Transcript where
  /-- The pieces, the latest first. -/
  pieces : List Bytes
  deriving DecidableEq, Repr

namespace Transcript

/-- Nothing has been written. -/
def empty : Transcript := ⟨[]⟩

def write (t : Transcript) (piece : Bytes) : Transcript :=
  ⟨piece :: t.pieces⟩

/-- All that has been written. -/
def text (t : Transcript) : Bytes :=
  t.pieces.reverse.flatten

@[simp] theorem text_empty : empty.text = [] := rfl

@[simp] theorem text_write (t : Transcript) (piece : Bytes) : (t.write piece).text = t.text ++ piece := by
  simp [text, write]

end Transcript

end ModRepair
