/-!
# What can be wrong with a text

A text that is no expression, or no number, is refused with the cause and the
place.  Places count characters (code points) from zero.
-/

namespace DeskCalculator

/-- Why a text cannot be read, and where. -/
inductive SyntaxError where
  /-- No text that goes on with this character can be read. -/
  | unexpectedChar (char : Char) (position : Nat)
  /-- The text stops where something has to follow. -/
  | unexpectedEnd (position : Nat)
  /-- A run of digits and points that is no numeral, from its first digit on. -/
  | malformedNumber (run : String) (position : Nat)
  /-- A parenthesis opens one group too many inside one another. -/
  | nestedTooDeep (position : Nat)
  deriving DecidableEq, Repr

namespace SyntaxError

def position : SyntaxError → Nat
  | unexpectedChar _ position => position
  | unexpectedEnd position => position
  | malformedNumber _ position => position
  | nestedTooDeep position => position

/-- The wording of an error; characters of the text are quoted as they are. -/
def message : SyntaxError → String
  | unexpectedChar char position =>
      "caractère inattendu '" ++ char.toString ++ "' en position " ++ position.repr
  | unexpectedEnd position => "fin d’entrée inattendue en position " ++ position.repr
  | malformedNumber run position =>
      "nombre malformé \"" ++ run ++ "\" en position " ++ position.repr
  | nestedTooDeep position =>
      "imbrication trop profonde en position " ++ position.repr

end SyntaxError

end DeskCalculator
