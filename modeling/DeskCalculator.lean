import DeskCalculator.Binary64.Encoding
import DeskCalculator.IndexCursor
import DeskCalculator.Main
import DeskCalculator.Proofs.OnePass
import DeskCalculator.Proofs.OnePassReader
import DeskCalculator.Proofs.Grammar
import DeskCalculator.Proofs.Numeral
import DeskCalculator.Proofs.GrammarSoundness
import DeskCalculator.Proofs.GrammarCompleteness
import DeskCalculator.Proofs.ExactRounding
import DeskCalculator.Proofs.ShortestDecimal
import DeskCalculator.Proofs.DisplayRoundTrip
import DeskCalculator.Proofs.ViablePrefix
import DeskCalculator.Proofs.ErrorPlaces
import DeskCalculator.Proofs.Nesting
import DeskCalculator.Proofs.SameValues
import DeskCalculator.Proofs.Chaining
import DeskCalculator.Proofs.Policies
import DeskCalculator.Proofs.RuleCalls
import DeskCalculator.Proofs.GroupLimit
import DeskCalculator.Proofs.TextLines
import DeskCalculator.Proofs.SessionTyping
import DeskCalculator.Proofs.Actions
import DeskCalculator.Proofs.ErrorFlag
import DeskCalculator.Proofs.StrictRuns
import DeskCalculator.Proofs.GroupSubstitution
import DeskCalculator.Proofs.ValueMachine
import DeskCalculator.Proofs.DisplayTrace
import DeskCalculator.Proofs.OptionsFirst
import DeskCalculator.Proofs.CommandAnswers
import DeskCalculator.Proofs.SpoiltLine
import DeskCalculator.Proofs.PartedInput
import DeskCalculator.Proofs.KeyboardEntry
import DeskCalculator.Proofs.Spacing
import DeskCalculator.Proofs.NeutralSigns
import DeskCalculator.Proofs.NearestRounding
import DeskCalculator.Proofs.SingleNumberForm
import DeskCalculator.Proofs.NumberReading
import DeskCalculator.Proofs.TextConsumer
import DeskCalculator.Proofs.CursorRefinement
import DeskCalculator.Proofs.SameStretch
import DeskCalculator.Proofs.Lookahead
import DeskCalculator.Proofs.ExactArithmetic
import DeskCalculator.Proofs.ExactEvaluation
import DeskCalculator.Proofs.DecimalGrids
import DeskCalculator.Proofs.FewestDigits
import DeskCalculator.Proofs.SignificantDigits
