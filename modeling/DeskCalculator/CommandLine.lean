import DeskCalculator.Session

/-!
# The command line

Called with expressions, the calculator writes the value of each on a line of its
own, or `Error`; called without any, it holds a session on its input.

Options come first.  Because an expression may start with a minus sign, an argument that is no
option is an expression even if it looks like one, and so is everything after it.  After `--`
everything is an expression.
-/

namespace DeskCalculator

/-! ### Options -/

/-- What an argument in front of the expressions can ask for. -/
inductive Switch where
  | requireClosing
  | requireFinite
  /-- More diagnostics, which do not go to the output. -/
  | verbose
  | help
  | version
  /-- A known option with a value, though none takes any. -/
  | unexpectedValue
  deriving DecidableEq, Repr

namespace Switch

/-- The options with a name, and their names after the two hyphens. -/
def named : List (String × Switch) :=
  [("strict-parens", requireClosing), ("strict-division", requireFinite),
    ("verbose", verbose), ("help", help), ("version", version)]

/-- The options with a letter. -/
def lettered : List (Char × Switch) := [('v', verbose), ('h', help), ('V', version)]

/-- An option given by name, if the name is known; the value after an equals sign is too
    much. -/
def ofName? (argument : List Char) : Option Switch :=
  let name := String.ofList (argument.takeWhile (· != '='))
  (named.lookup name).map fun switch =>
    if argument.contains '=' then unexpectedValue else switch

/-- Options given by letters after one hyphen, if there are any and all are known: the
    first that is not `verbose` decides. -/
def ofLetters? (letters : List Char) : Option Switch :=
  if letters.isEmpty then none
  else
    (letters.mapM fun letter => lettered.lookup letter).map fun switches =>
      (switches.find? (· != verbose)).getD verbose

/-- The option that an argument is, or none if it is an expression. -/
def ofArgument? (argument : String) : Option Switch :=
  match argument.toList with
  | '-' :: '-' :: name => ofName? name
  | '-' :: letters => ofLetters? letters
  | _ => none

end Switch

/-! ### What is asked for -/

/-- What the arguments of a call ask for. -/
inductive Request where
  /-- The values of the expressions; without expressions, a session. -/
  | calculate (settings : Settings) (expressions : List String)
  | help
  | version
  /-- Options that are given twice, or with a value. -/
  | misuse
  deriving DecidableEq, Repr

namespace Request

/-- Reads the arguments from the first on that is not yet accounted for in the settings. -/
def ofArgumentsFrom (s : Settings) : List String → Request
  | [] => calculate s []
  | argument :: rest =>
      if argument = "--" then calculate s rest
      else
        match Switch.ofArgument? argument with
        | none => calculate s (argument :: rest)
        | some .requireClosing =>
            if s.requireClosing then misuse
            else ofArgumentsFrom { s with requireClosing := true } rest
        | some .requireFinite =>
            if s.requireFinite then misuse
            else ofArgumentsFrom { s with requireFinite := true } rest
        | some .verbose => ofArgumentsFrom s rest
        | some .help => help
        | some .version => version
        | some .unexpectedValue => misuse

/-- What the arguments of a call ask for. -/
def ofArguments (arguments : List String) : Request := ofArgumentsFrom {} arguments

end Request

/-! ### Answers -/

/-- How the calculator is called. -/
def usage : String := "Usage: calculatrice_flottante [OPTIONS] [EXPRESSIONS]...\n"

/-- What `--help` asks for. -/
def helpText : String :=
  "Calculatrice à virgule flottante (+ - * / parenthèses, signes unaires)\n\n" ++ usage ++
  "\nArguments:\n" ++
  "  [EXPRESSIONS]...  Expressions à évaluer. Sans expression : mode interactif sur stdin\n" ++
  "\nOptions:\n" ++
  "      --strict-parens    Une parenthèse ouvrante non refermée devient une erreur\n" ++
  "      --strict-division  Un résultat infini ou NaN (division par zéro) devient une erreur\n" ++
  "  -v, --verbose...       Plus de journalisation (-v : info, -vv : debug)\n" ++
  "  -h, --help             Print help\n" ++
  "  -V, --version          Print version\n"

/-- What a call writes to its output, and the status it ends with. -/
structure Answer where
  status : Nat
  output : String
  deriving DecidableEq, Repr

namespace Answer

/-- The line that answers an expression. -/
def line (s : Settings) (expression : String) : String :=
  match evaluateWith s expression with
  | .ok x => x.text
  | .error _ => errorText

/-- Whether an expression has a value. -/
def succeeds (s : Settings) (expression : String) : Bool :=
  match evaluateWith s expression with
  | .ok _ => true
  | .error _ => false

/-- One line for each expression; the status is 1 if any of them failed. -/
def ofExpressions (s : Settings) (expressions : List String) : Answer :=
  { status := if expressions.all (succeeds s) then 0 else 1
    output := String.join (expressions.map fun expression => line s expression ++ "\n") }

/-- The status that a session ends with: 1 only if its input was not text. -/
def statusOfSession (session : Session) : Nat :=
  match session.errors with
  | .ok _ => 0
  | .error _ => 1

/-- The answer to a request, given the input.  What is said of misuse goes to the diagnostics. -/
def ofRequest (input : List UInt8) : Request → Answer
  | .calculate s [] =>
      let session := (Calculator.new s).session input
      ⟨statusOfSession session, session.output⟩
  | .calculate s expressions => ofExpressions s expressions
  | .help => ⟨0, helpText⟩
  | .version => ⟨0, "calculatrice_flottante 0.1.0\n"⟩
  | .misuse => ⟨2, ""⟩

end Answer

/-- A whole call: arguments and input to output and status. -/
def answer (arguments : List String) (input : List UInt8) : Answer :=
  .ofRequest input (.ofArguments arguments)

end DeskCalculator
