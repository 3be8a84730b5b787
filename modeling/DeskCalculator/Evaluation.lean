import DeskCalculator.Binary64.Text
import DeskCalculator.Expr.Reader

/-!
# Working out a text

`evaluate` reads a text and computes its value.  Two policies are a matter of
taste and can be set: whether every group has to be closed, and whether a result
that is no finite number is an answer or an error.  By default the calculator is
generous in both.
-/

namespace DeskCalculator

/-- How many groups may be open inside one another. -/
def maxGroupDepth : Nat := 256

/-- The policies of a calculator. -/
structure Settings where
  /-- A group without its closing parenthesis is an error. -/
  requireClosing : Bool := false
  /-- An infinite result, or none, is an error. -/
  requireFinite : Bool := false
  deriving DecidableEq, Repr

namespace Settings

/-- Both policies on. -/
def strict : Settings := ⟨true, true⟩

/-- What the settings ask of the reader. -/
def dialect (s : Settings) : Dialect := ⟨s.requireClosing, some maxGroupDepth⟩

end Settings

/-- Why a text has no value. -/
inductive EvalError where
  | invalid (cause : SyntaxError)
  | notFinite (result : Binary64)
  deriving DecidableEq, Repr

namespace EvalError

/-- Whether the text itself was at fault. -/
def isSyntax : EvalError → Bool
  | invalid _ => true
  | notFinite _ => false

def message : EvalError → String
  | invalid cause => "expression invalide: " ++ cause.message
  | notFinite (.infinite false) => "résultat non fini (inf)"
  | notFinite (.infinite true) => "résultat non fini (-inf)"
  | notFinite result => "résultat non fini (" ++ result.text ++ ")"

end EvalError

/-- The value of a text under the given settings. -/
def evaluateWith (s : Settings) (text : String) : Except EvalError Binary64 :=
  match Expr.read s.dialect text with
  | .error e => .error (.invalid e)
  | .ok expr =>
      if s.requireFinite && !expr.value.isFinite then .error (.notFinite expr.value)
      else .ok expr.value

/-- The value of a text under the generous default. -/
def evaluate (text : String) : Except EvalError Binary64 := evaluateWith {} text

end DeskCalculator
