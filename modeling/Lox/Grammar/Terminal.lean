import Lox.Grammar.Pattern
import Lox.Text.Alphanumeric
import Lox.Token
/-!
# `Grammar.Terminal` — the terminals of the grammar

The grammar has its own division of a text into terminals, by a list of patterns that are tried in
turn, longer ones first. Blanks, among them the form feed, and comments are left out. There is no
terminal for braces, commas and points, and a text that no pattern fits is read no further.
-/
namespace Lox.Grammar

/-- A terminal as it stands in a text. -/
structure Terminal where
  kind : Kind
  text : String
  place : Place
  deriving DecidableEq

/-- What the grammar calls a mark. -/
def markName : Mark → String
  | .semicolon => "SEMICOLON"
  | .assign => "EQUAL"
  | .equal => "__ANON_0"
  | .notEqual => "__ANON_1"
  | .lessEqual => "__ANON_2"
  | .greaterEqual => "__ANON_3"
  | .less => "LESSTHAN"
  | .greater => "MORETHAN"
  | m => m.name

/-- What the grammar calls a kind. -/
def kindName : Kind → String
  | .mark m => markName m
  | k => k.name

/-! ## Patterns -/

/-- What a fitting pattern stands for: something left out, a terminal of a kind, or a name that may
be a reserved word. -/
inductive Role where
  | ignored
  | terminal (k : Kind)
  | name
  deriving DecidableEq, Repr

def digit (c : Char) : Bool := '0' ≤ c && c ≤ '9'

def nameHead (c : Char) : Bool := ('A' ≤ c && c ≤ 'Z') || ('a' ≤ c && c ≤ 'z') || c == '_'

def nameTail (c : Char) : Bool := Text.isAlphanumeric c || c == '_'

def blank (c : Char) : Bool := c == ' ' || c == '\t' || c == '\x0c' || c == '\r' || c == '\n'

/-- A terminal of fixed spelling. -/
def fixed (m : Mark) : Role × Pattern := (.terminal (.mark m), .word m.spelling.toList)

/-- The patterns, in the order in which they are tried. -/
def patterns : List (Role × Pattern) :=
  [(.ignored, .seq (.word ['/', '/']) (.many (· != '\n'))),
    (.name, .seq (.one nameHead) (.many nameTail)),
    (.terminal .number, .seq (.some digit) (.optional (.seq (.one (· == '.')) (.some digit)))),
    (.terminal .string, .seq (.one (· == '"')) (.seq (.many (· != '"')) (.one (· == '"')))),
    (.ignored, .some blank)] ++
  [.equal, .notEqual, .lessEqual, .greaterEqual, .bang, .leftParen, .rightParen, .star, .plus,
    .minus, .slash, .semicolon,
    .less, .assign, .greater].map fixed

/-- The first pattern that fits at the head of a text, with how much it takes. -/
def match? (cs : List Char) : Option (Role × Nat) :=
  patterns.findSome? fun (role, pattern) => (pattern.length? cs).map (role, ·)

/-- The kind of a text in a role. -/
def Role.kind? (text : String) : Role → Option Kind
  | ignored => none
  | terminal k => some k
  | name =>
    match Mark.word? text with
    | some m => some (.mark m)
    | none => some .identifier

/-! ## Dividing a text -/

/-- The terminals of a text, and the character that no pattern fits, if there is one. -/
structure Terminals where
  list : List Terminal
  stuck : Option (Char × Place)
  deriving DecidableEq

/-- Divides a text that begins at a place. -/
def divide (cs : List Char) (p : Place) : Terminals :=
  match cs with
  | [] => ⟨[], none⟩
  | c :: rest =>
    match match? (c :: rest) with
    | some (role, n + 1) =>
      let taken := (c :: rest).take (n + 1)
      let more := divide ((c :: rest).drop (n + 1)) (p.after taken)
      match role.kind? (String.ofList taken) with
      | some k => ⟨⟨k, String.ofList taken, p⟩ :: more.list, more.stuck⟩
      | none => more
    | _ => ⟨[], some (c, p)⟩
termination_by cs.length
decreasing_by simp only [List.length_drop, List.length_cons]; omega

end Lox.Grammar
