import Lox.Scan
import Lox.Session.Command
/-!
# `Session.Editor` — what the keys do

The Enter key goes on to the next line as long as a parenthesis or brace is open, and hands the text
in otherwise. Invisible characters that come with pasted text are dropped from what was handed in.
-/
namespace Lox.Session

/-- Is the character dropped from an entry? -/
def isInvisible (c : Char) : Bool :=
  c == '\u200b' || c == '\u200c' || c == '\u200d' || c == '\ufeff' || c == '\u00a0' || c == '\r'

/-- An entry without its invisible characters. -/
def normalize (s : String) : String := String.ofList (s.toList.filter (!isInvisible ·))

/-- One token more: how many brackets are open behind it. A bracket that closes nothing is passed
over. -/
def openStep (depth : Nat) (t : Token) : Nat :=
  match t.kind with
  | .mark .leftParen | .mark .leftBrace => depth + 1
  | .mark .rightParen | .mark .rightBrace => depth - 1
  | _ => depth

/-- How many brackets a text leaves open; none, if it has a fault. -/
def openDepth (s : String) : Nat :=
  match tokenize s with
  | .error _ => 0
  | .ok ts => ts.foldl openStep 0

/-- The keys that the editor gives a meaning. -/
inductive Key where
  | type (s : String)
  | enter
  | backspace
  deriving DecidableEq, Repr

/-- What a key makes the editor do. -/
inductive Action where
  | insert
  | delete
  | complete
  | submit
  deriving DecidableEq, Repr

/-- What a key does to the text: the text that shows, the text that stays, and the actions. -/
structure Stroke where
  shown : String
  kept : String
  actions : List Action
  deriving DecidableEq, Repr

/-- What a key does to a text with the caret at its end. -/
def press (text : String) : Key → Stroke
  | .type s => ⟨text ++ s, text ++ s, []⟩
  | .enter =>
    if 0 < openDepth text then
      let t := text ++ "\n    "
      ⟨t, t, [.insert]⟩
    else ⟨text, "", [.submit]⟩
  | .backspace =>
    let cs := text.toList.dropLast
    let t := String.ofList cs
    ⟨t, t, .delete :: if cs.head? = some '/' then [.complete] else []⟩

end Lox.Session
