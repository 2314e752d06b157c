import Linkage.Text.Blank

/-!
# Log Formats

The word that chooses how log lines are written. Blanks around the word and the case of its
letters do not matter, and every word that is not known asks for plain text.
-/

namespace Linkage

/-- How log lines are written. -/
inductive LogFormat
  | text
  | tree
  | json
deriving DecidableEq, Repr, Inhabited

namespace LogFormat

/-- The format that a word asks for. Only the letters of ASCII have a case here. -/
def ofWord (word : String) : LogFormat :=
  let letters := String.ofList ((Text.trimBlanks word.toList).map Char.toLower)
  if letters = "tree" then .tree
  else if letters = "json" then .json
  else .text

/-- The word for a format. -/
def word : LogFormat → String
  | .text => "text"
  | .tree => "tree"
  | .json => "json"

/-- Each format is what its own word asks for. -/
theorem ofWord_word (f : LogFormat) : ofWord f.word = f := by
  cases f <;> decide

end LogFormat

end Linkage
