/-!
# `Diagnostic` — what an error tells its reader

Every error of the library can be told as a tag, a text and, if it belongs to one, a place. The
place is written only if both its numbers are known.
-/
namespace Lox

/-- The kinds of complaint. -/
inductive Tag where
  | unexpectedChar
  | unterminatedString
  | invalidNumber
  | parseError
  | unsupported
  | badOperator
  | badStructure
  | endOfFile
  | tooDeep
  | lexical
  | runtimeError
  | typeError
  | undefined
  deriving DecidableEq, Repr

/-- The word that a message has for its kind. -/
def Tag.word : Tag → String
  | unexpectedChar => "unexpected-char"
  | unterminatedString => "unterminated-string"
  | invalidNumber => "invalid-number"
  | parseError => "parse-error"
  | unsupported => "unsupported"
  | badOperator => "bad-operator"
  | badStructure => "bad-structure"
  | endOfFile => "end-of-file"
  | tooDeep => "too-deep"
  | lexical => "lexical"
  | runtimeError => "runtime-error"
  | typeError => "type-error"
  | undefined => "undefined"

/-- A complaint, ready to be written. -/
structure Diagnostic where
  tag : Tag
  text : String
  row : Option Int
  col : Option Int
  deriving DecidableEq, Repr

/-- The line that is shown for a complaint. -/
def Diagnostic.message (d : Diagnostic) : String :=
  let body := d.tag.word ++ ": " ++ d.text
  match d.row, d.col with
  | some r, some c => "[" ++ toString r ++ ":" ++ toString c ++ "] " ++ body
  | _, _ => body

end Lox
