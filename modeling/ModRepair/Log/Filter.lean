import ModRepair.Log.Record
import ModRepair.Text.Dictionary

/-!
# Log filters

A filter decides by tag how severe a record must be to pass: each tag may have a threshold of its own, all others
share one. A specification such as `registry=debug,cil,*=warn` sets thresholds; a tag alone asks for everything.
-/

namespace ModRepair.Log

structure Filter where
  /-- The threshold of tags without one of their own. -/
  fallback : Level
  overrides : Dictionary Level
  deriving DecidableEq, Repr

namespace Filter

def initial : Filter :=
  ⟨.info, []⟩

/-- The least level that a tag passes with. -/
def threshold (f : Filter) (tag : Bytes) : Level :=
  (Dictionary.get? tag f.overrides).getD f.fallback

def accepts (f : Filter) (level : Level) (tag : Bytes) : Bool :=
  f.threshold tag ≤ level

/-- The least level that any tag passes with. -/
def lowest (f : Filter) : Level :=
  f.overrides.foldl (fun least e => least.least e.2) f.fallback

def setFallback (f : Filter) (level : Level) : Filter :=
  { f with fallback := level }

/-- Takes one part of a specification: `tag=level`, where the tag `*` stands for all tags without a threshold of
their own, or a tag alone. -/
def applyToken (f : Filter) (token : Bytes) : Filter :=
  match Bytes.splitFirst? Bytes.equals token with
  | some (tag, level) =>
    if tag = ascii "*" then { f with fallback := .ofName level }
    else { f with overrides := Dictionary.insert tag (.ofName level) f.overrides }
  | none =>
    if token.isEmpty then f else { f with overrides := Dictionary.insert token .trace f.overrides }

/-- Takes a specification, parts separated by commas, in place of the thresholds that tags had before. -/
def parse (f : Filter) (spec : Bytes) : Filter :=
  (Bytes.splitAll Bytes.comma spec).foldl applyToken { f with overrides := [] }

end Filter

end ModRepair.Log
