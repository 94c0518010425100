import StochasticGame.Text.Quoted
import StochasticGame.Text.Real

/-!
# StochasticGame.Json.Error

**What can be wrong with a JSON text.** The text may not be JSON, it may end too
early, or it may hold a value that does not fit what is being read.
-/

namespace StochasticGame.Json

/-- A value as a message names it. -/
inductive Found where
  /-- The null value. -/
  | null
  /-- A truth value. -/
  | bool (b : Bool)
  /-- An integer of 64 bits. -/
  | integer (n : Int)
  /-- Any other number. -/
  | real (x : Float)
  /-- A string. -/
  | text (s : String)
  /-- An array. -/
  | sequence
  /-- An object. -/
  | map

/-- The wording of a found value. -/
def Found.description : Found → String
  | null => "null"
  | bool b => s!"boolean `{b}`"
  | integer n => s!"integer `{n}`"
  | real x => "floating point `" ++ Text.real x ++ "`"
  | text s => "string " ++ Text.quoted s
  | sequence => "sequence"
  | map => "map"

/-- A value that does not fit. -/
inductive Misfit where
  /-- A value of another type than expected. -/
  | wrongType (found : Found) (expected : String)
  /-- A number outside the range of the expected type. -/
  | outOfRange (n : Int) (expected : String)
  /-- A field given twice. -/
  | duplicateField (name : String)
  /-- A name that is not one of the listed ones. -/
  | unknownVariant (name : String) (expected : List String)

/-- The listed names in backticks, the last two joined by "or". -/
def oneOf : List String → String
  | [] => ""
  | [a] => "`" ++ a ++ "`"
  | [a, b] => "`" ++ a ++ "` or `" ++ b ++ "`"
  | a :: rest => "`" ++ a ++ "`, " ++ oneOf rest

/-- The wording of a misfit. -/
def Misfit.message : Misfit → String
  | wrongType found expected => "invalid type: " ++ found.description ++ ", expected " ++ expected
  | outOfRange n expected =>
    "invalid value: " ++ (Found.integer n).description ++ ", expected " ++ expected
  | duplicateField name => s!"duplicate field `{name}`"
  | unknownVariant name expected => s!"unknown variant `{name}`, expected {oneOf expected}"

/-- Why a text could not be read. -/
inductive Failure where
  /-- The text is not JSON. -/
  | malformed
  /-- The text ends too early. -/
  | cutShort
  /-- A value does not fit. -/
  | misfit (cause : Misfit)

/-- The wording of a failure. -/
def Failure.message : Failure → String
  | malformed => "malformed JSON"
  | cutShort => "unexpected end of JSON"
  | misfit cause => cause.message

end StochasticGame.Json
