import DeskCalculator.Decimal.Shortest

/-!
# How a number is shown

A finite number is its sign and its shortest decimal, written out without an
exponent; the sign of a zero is kept.  The other numbers have a word each.
-/

namespace DeskCalculator.Binary64

/-- The characters that show a number. -/
def toChars : Binary64 → List Char
  | .finite false magnitude => magnitude.shortest.toChars
  | .finite true magnitude => '-' :: magnitude.shortest.toChars
  | .infinite false => "Infinity".toList
  | .infinite true => "-Infinity".toList
  | .nan => "NaN".toList

/-- The text that shows a number. -/
def text (x : Binary64) : String := String.ofList x.toChars

end DeskCalculator.Binary64
