import Lox.Proofs.Number.Text
import Lox.Render
import Lox.Scan
import Mathlib
/-!
# `Render.Readable` — the text of a tree determines the tree

Everything that is written for a tree is a word, a quoted string, or a bracket with a head word and
operands after it. A word ends where a blank or a closing bracket follows, a string ends at the
first quote that is not escaped, and after an operand a blank says that there is another one. So a
text that begins with an expression begins with no other one and shows where it ends: that is
`Readable`, which is proved for all expressions by induction. The names in a tree have to be names,
or they could hold brackets.
-/
namespace Lox

/-! ## Words -/

/-- The characters that end a word or have no place on a line. -/
def breaks : List Char := [' ', '(', ')', '"', '\n', '\r', '\t']

/-- Can the character stand in a word? -/
def isPlain (c : Char) : Bool := !breaks.contains c

/-- What may follow a word. -/
def Closed (r : List Char) : Prop := r.takeWhile isPlain = []

theorem closed_nil : Closed [] := rfl

theorem closed_blank (r : List Char) : Closed (' ' :: r) := rfl

theorem closed_bracket (r : List Char) : Closed (')' :: r) := rfl

/-- What is made of characters of a class is found again in front of whatever does not begin with
one. -/
theorem append_inj_of_class {p : Char → Bool} {w w' r r' : List Char} (hw : ∀ c ∈ w, p c)
    (hw' : ∀ c ∈ w', p c) (hr : r.takeWhile p = []) (hr' : r'.takeWhile p = [])
    (h : w ++ r = w' ++ r') : w = w' ∧ r = r' := by
  have htake : ∀ {w r : List Char}, (∀ c ∈ w, p c) → r.takeWhile p = [] → (w ++ r).takeWhile p = w := by
    intro w r hw hr
    rw [List.takeWhile_append_of_pos hw, hr, List.append_nil]
  have hword : w = w' := by rw [← htake hw hr, h, htake hw' hr']
  subst hword
  exact ⟨rfl, List.append_cancel_left h⟩

/-- A word is found again in front of whatever may follow it. -/
theorem word_append_inj {w w' r r' : List Char} (hw : ∀ c ∈ w, isPlain c) (hw' : ∀ c ∈ w', isPlain c)
    (hr : Closed r) (hr' : Closed r') (h : w ++ r = w' ++ r') : w = w' ∧ r = r' :=
  append_inj_of_class hw hw' hr hr' h

/-- The characters of a class stand in words if none of the breaks belongs to it. -/
theorem isPlain_of_class {p : Char → Bool} (hp : breaks.all (fun d => !p d) = true) {c : Char}
    (h : p c = true) :
    isPlain c = true := by
  cases hmem : breaks.contains c with
  | false => exact congrArg not hmem
  | true =>
      have hc := List.all_eq_true.1 hp c (List.contains_iff_mem.1 hmem)
      simp [h] at hc

theorem isPlain_of_isDigit {c : Char} (h : c.isDigit = true) : isPlain c = true :=
  isPlain_of_class rfl h

theorem isPlain_of_isNameChar {c : Char} (h : isNameChar c = true) : isPlain c = true :=
  isPlain_of_class rfl h

/-- Can the character stand on a line? -/
def isLineChar (c : Char) : Bool := c != '\n' && c != '\r' && c != '\t'

theorem isLineChar_of_isPlain {c : Char} (h : isPlain c = true) : isLineChar c = true := by
  simp [isPlain, breaks] at h
  simp [isLineChar, h]

/-! ## Quoted strings -/

namespace Text

/-- The character that a letter after a backslash stands for. -/
def unescape : Char → Char
  | 'n' => '\n'
  | 't' => '\t'
  | 'r' => '\r'
  | c => c

/-- A character stands for itself, or a backslash and another one stand for it. -/
theorem escape_cases (c : Char) :
    (c ≠ '\\' ∧ c ≠ '"' ∧ c ≠ '\n' ∧ c ≠ '\t' ∧ c ≠ '\r' ∧ escape c = [c]) ∨
      ∃ d, escape c = ['\\', d] ∧ unescape d = c ∧ d ∈ ['\\', '"', 'n', 't', 'r'] := by
  by_cases h₁ : c = '\\'
  · exact .inr ⟨'\\', by rw [h₁]; rfl, h₁.symm, by decide⟩
  · by_cases h₂ : c = '"'
    · exact .inr ⟨'"', by rw [h₂]; rfl, h₂.symm, by decide⟩
    · by_cases h₃ : c = '\n'
      · exact .inr ⟨'n', by rw [h₃]; rfl, h₃.symm, by decide⟩
      · by_cases h₄ : c = '\t'
        · exact .inr ⟨'t', by rw [h₄]; rfl, h₄.symm, by decide⟩
        · by_cases h₅ : c = '\r'
          · exact .inr ⟨'r', by rw [h₅]; rfl, h₅.symm, by decide⟩
          · refine .inl ⟨h₁, h₂, h₃, h₄, h₅, ?_⟩
            unfold escape
            split <;> simp_all

theorem escape_append_inj {c c' : Char} {r r' : List Char} (h : escape c ++ r = escape c' ++ r') :
    c = c' ∧ r = r' := by
  rcases escape_cases c with ⟨hc, -, -, -, -, he⟩ | ⟨d, he, hd, -⟩ <;>
    rcases escape_cases c' with ⟨hc', -, -, -, -, he'⟩ | ⟨d', he', hd', -⟩ <;> rw [he, he'] at h
  · simpa using h
  · exact absurd (List.cons.inj h).1 hc
  · exact absurd (List.cons.inj h).1.symm hc'
  · obtain ⟨hdd, hr⟩ := List.cons.inj (List.cons.inj h).2
    rw [← hd, ← hd', hdd]
    exact ⟨rfl, hr⟩

/-- No character begins as the closing quote does. -/
theorem escape_append_ne (c : Char) (r r' : List Char) : escape c ++ r ≠ '"' :: r' := by
  intro h
  rcases escape_cases c with ⟨-, hq, -, -, -, he⟩ | ⟨d, he, -⟩ <;> rw [he] at h
  · exact hq (List.cons.inj h).1
  · exact absurd (List.cons.inj h).1 (by decide)

theorem quoteChars_append_inj {cs cs' r r' : List Char}
    (h : quoteChars cs ++ r = quoteChars cs' ++ r') :
    cs = cs' ∧ r = r' := by
  have h' : cs.flatMap escape ++ '"' :: r = cs'.flatMap escape ++ '"' :: r' := by
    simpa [quoteChars] using h
  clear h
  induction cs generalizing cs' with
  | nil =>
      cases cs' with
      | nil => exact ⟨rfl, (List.cons.inj h').2⟩
      | cons c' cs' =>
          rw [List.flatMap_cons, List.append_assoc] at h'
          exact absurd h'.symm (escape_append_ne c' _ _)
  | cons c cs ih =>
      rw [List.flatMap_cons, List.append_assoc] at h'
      cases cs' with
      | nil => exact absurd h' (escape_append_ne c _ _)
      | cons c' cs' =>
          rw [List.flatMap_cons, List.append_assoc] at h'
          obtain ⟨rfl, hrest⟩ := escape_append_inj h'
          obtain ⟨rfl, hr⟩ := ih hrest
          exact ⟨rfl, hr⟩

theorem line_of_escape (c : Char) : ∀ d ∈ escape c, isLineChar d := by
  intro d hd
  rcases escape_cases c with ⟨-, -, hn, ht, hr, he⟩ | ⟨d', he, -, hd'⟩
  · rw [he, List.mem_singleton] at hd
    simp [isLineChar, hd, hn, ht, hr]
  · have hall : ['\\', '"', 'n', 't', 'r'].all isLineChar = true := rfl
    rw [he] at hd
    rcases List.mem_pair.1 hd with rfl | rfl
    · rfl
    · exact List.all_eq_true.1 hall d hd'

theorem line_of_quoteChars (cs : List Char) : ∀ d ∈ quoteChars cs, isLineChar d := by
  intro d hd
  simp only [quoteChars, List.cons_append, List.mem_cons, List.mem_append, List.mem_flatMap,
    List.not_mem_nil, or_false] at hd
  rcases hd with rfl | ⟨c, -, hd⟩ | rfl
  · rfl
  · exact line_of_escape c d hd
  · rfl

end Text

/-! ## Leaves -/

/-- Is the text made of the characters of names? -/
def isName (s : String) : Bool := s.toList.all isNameChar

namespace Literal

/-- Is the leaf, if it is a name, one that could be written? -/
def isNamed : Literal → Bool
  | identifier name => isName name
  | _ => true

/-- A leaf that is a word. -/
def isWord : Literal → Bool
  | string _ => false
  | _ => true

/-- What of a leaf its first character tells. -/
inductive Look where
  | string
  | identifier
  | number
  | boolean (value : Bool)
  | nil

/-- The look of a leaf. -/
def look : Literal → Look
  | string _ => .string
  | identifier _ => .identifier
  | number _ => .number
  | boolean b => .boolean b
  | nil => .nil

/-- The look of the leaves that begin with a character. -/
def Look.ofChar : Char → Look
  | '"' => .string
  | '`' => .identifier
  | 't' => .boolean true
  | 'f' => .boolean false
  | 'n' => .nil
  | _ => .number

theorem Look.ofChar_digit {c : Char} (h : c.isDigit) : ofChar c = .number := by
  unfold ofChar
  split
  all_goals first
    | rfl
    | cases h

end Literal

namespace Number

theorem isPlain_of_magnitudeText {m : Nat} {body : List Char} (h : MagnitudeText m body) :
    ∀ c ∈ body, isPlain c := by
  cases h with
  | infinite h => exact List.all_eq_true.1 rfl
  | finite h =>
      intro c hc
      rcases (finiteText_chars m).2 c hc with hdigit | rfl
      · exact isPlain_of_isDigit hdigit
      · rfl

theorem TextOf.isPlain {v : Float} {cs : List Char} (h : TextOf v cs) : ∀ c ∈ cs, isPlain c := by
  cases h with
  | nan h => exact List.all_eq_true.1 rfl
  | positive h hbody => exact isPlain_of_magnitudeText hbody
  | negative h hbody =>
      intro c hc
      rcases List.mem_cons.1 hc with rfl | hc
      · rfl
      · exact isPlain_of_magnitudeText hbody c hc

theorem TextOf.opens {v : Float} {cs : List Char} (h : TextOf v cs) :
    ∃ d ds, cs = d :: ds ∧ Literal.Look.ofChar d = .number := by
  cases h with
  | nan h => exact ⟨'N', _, rfl, rfl⟩
  | positive h hbody =>
      obtain ⟨c, cs, hcs, hc⟩ := hbody.head
      refine ⟨c, cs, hcs, ?_⟩
      rcases hc with rfl | hc
      · rfl
      · exact Literal.Look.ofChar_digit hc
  | negative h hbody => exact ⟨'-', _, rfl, rfl⟩

end Number

namespace Literal

theorem render_opens (l : Literal) : ∃ c cs, l.render.toList = c :: cs ∧ Look.ofChar c = l.look := by
  match l with
  | string s => exact ⟨'"', _, String.toList_ofList, rfl⟩
  | identifier s => exact ⟨'`', s.toList ++ ['`'], by simp [render], rfl⟩
  | number v => exact (Number.textOf_text v).opens
  | boolean true => exact ⟨'t', _, rfl, rfl⟩
  | boolean false => exact ⟨'f', _, rfl, rfl⟩
  | nil => exact ⟨'n', _, rfl, rfl⟩

theorem isPlain_of_render {l : Literal} (hword : l.isWord) (hnamed : l.isNamed) :
    ∀ c ∈ l.render.toList, isPlain c := by
  match l with
  | string s => cases hword
  | identifier s =>
      intro c hc
      have hmem : c = '`' ∨ c ∈ s.toList := by
        simp [render] at hc
        tauto
      rcases hmem with rfl | hmem
      · rfl
      · exact isPlain_of_isNameChar (List.all_eq_true.1 hnamed c hmem)
  | number v => exact (Number.textOf_text v).isPlain
  | boolean true => exact List.all_eq_true.1 rfl
  | boolean false => exact List.all_eq_true.1 rfl
  | nil => exact List.all_eq_true.1 rfl

/-- A leaf is told by its text, and its text ends where something else may follow. -/
theorem render_append_inj {l l' : Literal} {r r' : List Char} (hl : l.isNamed) (hl' : l'.isNamed)
    (hr : Closed r) (hr' : Closed r') (h : l.render.toList ++ r = l'.render.toList ++ r') :
    l = l' ∧ r = r' := by
  have hword : l.isWord → l'.isWord → l.render.toList = l'.render.toList ∧ r = r' := by
    intro hw hw'
    exact word_append_inj (isPlain_of_render hw hl) (isPlain_of_render hw' hl') hr hr' h
  have hlook : l.look = l'.look := by
    obtain ⟨c, cs, hcs, hc⟩ := l.render_opens
    obtain ⟨c', cs', hcs', hc'⟩ := l'.render_opens
    rw [hcs, hcs'] at h
    rw [← hc, ← hc', (List.cons.inj h).1]
  cases l <;> cases l' <;> cases hlook
  case string.string.refl s s' =>
    rw [render, render, Text.quote, Text.quote, String.toList_ofList, String.toList_ofList] at h
    obtain ⟨hs, hr⟩ := Text.quoteChars_append_inj h
    rw [String.toList_inj.1 hs]
    exact ⟨rfl, hr⟩
  case identifier.identifier.refl s s' =>
    obtain ⟨hs, hr⟩ := hword rfl rfl
    rw [String.toList_inj] at hs
    simp only [render, String.append_left_inj, String.append_right_inj] at hs
    rw [hs]
    exact ⟨rfl, hr⟩
  case number.number.refl v v' =>
    obtain ⟨hv, hr⟩ := hword rfl rfl
    rw [Number.text_injective (String.toList_inj.1 hv)]
    exact ⟨rfl, hr⟩
  case boolean.boolean.refl => exact ⟨rfl, List.append_cancel_left h⟩
  case nil.nil.refl => exact ⟨rfl, List.append_cancel_left h⟩

theorem line_of_render {l : Literal} (hnamed : l.isNamed) : ∀ c ∈ l.render.toList, isLineChar c := by
  cases l with
  | string s =>
      intro c hc
      rw [render, Text.quote, String.toList_ofList] at hc
      exact Text.line_of_quoteChars s.toList c hc
  | _ => exact fun c hc => isLineChar_of_isPlain (isPlain_of_render rfl hnamed c hc)

/-- No leaf begins with a bracket. -/
theorem render_append_ne (l : Literal) (hnamed : l.isNamed) (r r' : List Char) :
    l.render.toList ++ r ≠ '(' :: r' := by
  intro h
  cases hword : l.isWord with
  | true =>
      obtain ⟨c, cs, hcs, -⟩ := l.render_opens
      rw [hcs] at h
      have hplain : isPlain c := isPlain_of_render hword hnamed c (by simp [hcs])
      rw [(List.cons.inj h).1] at hplain
      cases hplain
  | false =>
      cases l with
      | string s =>
          rw [render, Text.quote, String.toList_ofList] at h
          exact absurd (List.cons.inj h).1 (by decide)
      | _ => cases hword

end Literal

/-! ## Expressions -/

theorem UnaryOp.spelling_inj {op op' : UnaryOp} (h : op.spelling = op'.spelling) : op = op' := by
  have hread : ∀ op : UnaryOp, ofSpelling? op.spelling = some op := by
    intro op
    cases op <;> rfl
  exact Option.some.inj ((hread op).symm.trans (h ▸ hread op'))

theorem BinaryOp.spelling_inj {op op' : BinaryOp} (h : op.spelling = op'.spelling) : op = op' := by
  have hread : ∀ op : BinaryOp, ofSpelling? op.spelling = some op := by
    rintro (op | op) <;> cases op <;> rfl
  exact Option.some.inj ((hread op).symm.trans (h ▸ hread op'))

namespace Expr

/-- Are all names in the expression made of the characters of names? -/
def isNamed : Expr → Bool
  | literal l => l.isNamed
  | group e | unary _ e => e.isNamed
  | binary _ l r => l.isNamed && r.isNamed

/-- The characters of the text of an expression. -/
def chars (e : Expr) : List Char := e.toNode.render.toList

/-- The word and the operands that an expression is written with, if it is written in brackets. -/
def form? : Expr → Option (String × List Expr)
  | literal _ => none
  | group e => some ("group", [e])
  | unary op e => some (op.spelling, [e])
  | binary op l r => some (op.spelling, [l, r])

/-- The operands as they follow the word. -/
def argsText (es : List Expr) : List Char := es.flatMap fun e => ' ' :: e.chars

theorem chars_of_form {e : Expr} {word : String} {es : List Expr} (h : e.form? = some (word, es)) :
    e.chars = '(' :: (word.toList ++ (argsText es ++ [')'])) := by
  cases e <;> cases h <;> simp [chars, toNode, Node.render, argsText]

/-- The words that stand after brackets are told apart from what follows them. -/
theorem isPlain_of_form {e : Expr} {word : String} {es : List Expr} (h : e.form? = some (word, es)) :
    (∀ c ∈ word.toList, isPlain c) ∧ word ≠ "print" ∧ word ≠ "var" := by
  have hall : ∀ {w : String}, (w.toList.all isPlain && w != "print" && w != "var") = true →
      (∀ c ∈ w.toList, isPlain c) ∧ w ≠ "print" ∧ w ≠ "var" := by
    intro w hw
    simpa [and_assoc] using hw
  cases e with
  | literal l => cases h
  | group e =>
      cases h
      exact hall rfl
  | unary op e =>
      cases h
      cases op <;> exact hall rfl
  | binary op l r =>
      cases h
      rcases op with op | op <;> cases op <;> exact hall rfl

/-- The word and the operands tell the expression: the two operators that are written alike differ
in the number of their operands. -/
theorem form_inj {e e' : Expr} {word : String} {es : List Expr} (h : e.form? = some (word, es))
    (h' : e'.form? = some (word, es)) : e = e' := by
  have hgroup : ∀ op : UnaryOp, op.spelling ≠ "group" := by
    intro op
    cases op <;> decide
  cases e <;> cases h <;> cases e' <;> simp only [form?, Option.some.injEq, Prod.mk.injEq,
    List.cons.injEq] at h'
  case group.refl.group => rw [h'.2.1]
  case group.refl.unary => exact absurd h'.1 (hgroup _)
  case unary.refl.group => exact absurd h'.1.symm (hgroup _)
  case unary.refl.unary => rw [UnaryOp.spelling_inj h'.1, h'.2.1]
  case binary.refl.binary => rw [BinaryOp.spelling_inj h'.1, h'.2.1, h'.2.2.1]
  all_goals simp at h'

theorem isNamed_of_form {e : Expr} {word : String} {es : List Expr} (h : e.form? = some (word, es))
    (hnamed : e.isNamed) : ∀ x ∈ es, x.isNamed := by
  cases e <;> cases h <;> simp_all [isNamed]

/-- A text that begins with the expression begins with no other one, and shows where the expression
ends. -/
def Readable (e : Expr) : Prop :=
  ∀ (e' : Expr) (r r' : List Char), e'.isNamed → Closed r → Closed r' → e.chars ++ r = e'.chars ++ r' →
    e = e' ∧ r = r'

theorem closed_argsText (es : List Expr) (r : List Char) : Closed (argsText es ++ ')' :: r) := by
  cases es with
  | nil => exact closed_bracket r
  | cons e es => exact closed_blank _

/-- After each operand a blank says that there is another one. -/
theorem argsText_append_inj {es es' : List Expr} {r r' : List Char} (hread : ∀ e ∈ es, e.Readable)
    (hnamed : ∀ e ∈ es', e.isNamed) (h : argsText es ++ ')' :: r = argsText es' ++ ')' :: r') :
    es = es' ∧ r = r' := by
  induction es generalizing es' with
  | nil =>
      cases es' with
      | nil => exact ⟨rfl, (List.cons.inj h).2⟩
      | cons e' es' => exact absurd (List.cons.inj h).1 (by decide)
  | cons e es ih =>
      cases es' with
      | nil => exact absurd (List.cons.inj h).1 (by decide)
      | cons e' es' =>
          have h' : e.chars ++ (argsText es ++ ')' :: r) = e'.chars ++ (argsText es' ++ ')' :: r') := by
            simpa [argsText] using h
          obtain ⟨rfl, hrest⟩ := hread e (by simp) e' _ _ (hnamed e' (by simp)) (closed_argsText es r)
            (closed_argsText es' r') h'
          obtain ⟨rfl, hr⟩ := ih (fun x hx => hread x (by simp [hx]))
            (fun x hx => hnamed x (by simp [hx])) hrest
          exact ⟨rfl, hr⟩

/-- A bracket is readable if its operands are. -/
theorem readable_of_form {e : Expr} {word : String} {es : List Expr} (h : e.form? = some (word, es))
    (hread : ∀ x ∈ es, x.Readable) : e.Readable := by
  intro e' r r' hnamed hr hr' heq
  rw [chars_of_form h] at heq
  cases hform : e'.form? with
  | none =>
      cases e' with
      | literal l => exact absurd heq.symm (Literal.render_append_ne l hnamed _ _)
      | _ => cases hform
  | some form =>
      obtain ⟨word', es'⟩ := form
      rw [chars_of_form hform] at heq
      have hbody : word.toList ++ (argsText es ++ ')' :: r) = word'.toList ++
          (argsText es' ++ ')' :: r') := by
        simpa using heq
      obtain ⟨hword, hargs⟩ := word_append_inj (isPlain_of_form h).1 (isPlain_of_form hform).1
        (closed_argsText es r) (closed_argsText es' r') hbody
      obtain rfl : word = word' := String.toList_inj.1 hword
      obtain ⟨rfl, hrest⟩ := argsText_append_inj hread (isNamed_of_form hform hnamed) hargs
      exact ⟨form_inj h hform, hrest⟩

/-- Every expression is readable. -/
theorem readable {e : Expr} (hnamed : e.isNamed) : e.Readable := by
  induction e with
  | literal l =>
      intro e' r r' hnamed' hr hr' h
      cases hform : e'.form? with
      | none =>
          cases e' with
          | literal l' =>
              obtain ⟨rfl, hrest⟩ := Literal.render_append_inj hnamed hnamed' hr hr' h
              exact ⟨rfl, hrest⟩
          | _ => cases hform
      | some form =>
          obtain ⟨word, es⟩ := form
          rw [chars_of_form hform] at h
          exact absurd h (Literal.render_append_ne l hnamed _ _)
  | group e ih => exact readable_of_form rfl (List.forall_mem_singleton.2 (ih hnamed))
  | unary op e ih => exact readable_of_form rfl (List.forall_mem_singleton.2 (ih hnamed))
  | binary op l r ihl ihr =>
      obtain ⟨hl, hr⟩ := Bool.and_eq_true_iff.1 hnamed
      exact readable_of_form rfl (List.forall_mem_cons.2 ⟨ihl hl, List.forall_mem_singleton.2 (ihr hr)⟩)

theorem line_of_argsText {es : List Expr} (h : ∀ e ∈ es, ∀ c ∈ e.chars, isLineChar c) :
    ∀ c ∈ argsText es, isLineChar c := by
  intro c hc
  obtain ⟨e, he, hc⟩ := List.mem_flatMap.1 hc
  rcases List.mem_cons.1 hc with rfl | hc
  · rfl
  · exact h e he c hc

theorem line_of_bracket {word : String} {body : List Char} (hword : ∀ c ∈ word.toList, isPlain c)
    (hbody : ∀ c ∈ body, isLineChar c) :
    ∀ c ∈ '(' :: (word.toList ++ (body ++ [')'])), isLineChar c := by
  intro c hc
  simp only [List.mem_cons, List.mem_append, List.not_mem_nil, or_false] at hc
  rcases hc with rfl | hc | hc | rfl
  · rfl
  · exact isLineChar_of_isPlain (hword c hc)
  · exact hbody c hc
  · rfl

theorem line_of_form {e : Expr} {word : String} {es : List Expr} (hform : e.form? = some (word, es))
    (h : ∀ x ∈ es, ∀ c ∈ x.chars, isLineChar c) : ∀ c ∈ e.chars, isLineChar c := by
  rw [chars_of_form hform]
  exact line_of_bracket (isPlain_of_form hform).1 (line_of_argsText h)

/-- The text of an expression is on one line. -/
theorem line_of_chars {e : Expr} (hnamed : e.isNamed) : ∀ c ∈ e.chars, isLineChar c := by
  induction e with
  | literal l => exact Literal.line_of_render hnamed
  | group e ih => exact line_of_form rfl (List.forall_mem_singleton.2 (ih hnamed))
  | unary op e ih => exact line_of_form rfl (List.forall_mem_singleton.2 (ih hnamed))
  | binary op l r ihl ihr =>
      obtain ⟨hl, hr⟩ := Bool.and_eq_true_iff.1 hnamed
      exact line_of_form rfl (List.forall_mem_cons.2 ⟨ihl hl, List.forall_mem_singleton.2 (ihr hr)⟩)

end Expr

/-! ## Statements -/

namespace Stmt

/-- Are all names in the statement made of the characters of names? -/
def isNamed : Stmt → Bool
  | expression e | print e => e.isNamed
  | declare name initial => isName name && initial.all Expr.isNamed

/-- The characters of the text of a statement. -/
def chars (s : Stmt) : List Char := s.toNode.render.toList

theorem chars_print (e : Expr) :
    (print e).chars = '(' :: ("print".toList ++ (Expr.argsText [e] ++ [')'])) := by
  simp [chars, toNode, Node.render, Expr.argsText, Expr.chars]

theorem chars_declare (name : String) (initial : Option Expr) :
    (declare name initial).chars =
      '(' :: ("var".toList ++ ' ' :: (name.toList ++ (Expr.argsText initial.toList ++ [')']))) := by
  cases initial <;> simp [chars, toNode, Node.render, Expr.argsText, Expr.chars]

/-- What a statement begins with that is not an expression. -/
theorem expression_chars_ne {e : Expr} (hnamed : e.isNamed) {word : String}
    (hword : word = "print" ∨ word = "var") {body : List Char} (hbody : Closed body) :
    e.chars ≠ '(' :: (word.toList ++ body) := by
  intro h
  cases hform : e.form? with
  | none =>
      cases e with
      | literal l =>
          apply Literal.render_append_ne l hnamed [] _
          rw [List.append_nil]
          exact h
      | _ => cases hform
  | some form =>
      obtain ⟨word', es⟩ := form
      obtain ⟨hplain, hprint, hvar⟩ := Expr.isPlain_of_form hform
      rw [Expr.chars_of_form hform] at h
      have hplain' : ∀ c ∈ word.toList, isPlain c := by
        rcases hword with rfl | rfl <;> exact List.all_eq_true.1 rfl
      obtain ⟨hw, -⟩ := word_append_inj hplain hplain' (Expr.closed_argsText es []) hbody
        (List.cons.inj h).2
      rw [String.toList_inj.1 hw] at hprint hvar
      rcases hword with rfl | rfl
      · exact hprint rfl
      · exact hvar rfl

/-- A statement is told by its text. -/
theorem chars_inj {s s' : Stmt} (hs : s.isNamed) (hs' : s'.isNamed) (h : s.chars = s'.chars) :
    s = s' := by
  have hone : ∀ {e e' : Expr}, e.isNamed → e'.isNamed → e.chars = e'.chars → e = e' := by
    intro e e' he he' h
    exact (Expr.readable he e' [] [] he' closed_nil closed_nil (by rw [h])).1
  cases s with
  | expression e =>
      cases s' with
      | expression e' => rw [hone hs hs' h]
      | print e' =>
          rw [chars_print] at h
          exact absurd h (expression_chars_ne hs (.inl rfl) (closed_blank _))
      | declare name initial =>
          rw [chars_declare] at h
          exact absurd h (expression_chars_ne hs (.inr rfl) (closed_blank _))
  | print e =>
      rw [chars_print] at h
      cases s' with
      | expression e' => exact absurd h.symm (expression_chars_ne hs' (.inl rfl) (closed_blank _))
      | print e' =>
          rw [chars_print] at h
          have hargs := List.append_cancel_left (List.cons.inj h).2
          obtain ⟨hes, -⟩ := Expr.argsText_append_inj (List.forall_mem_singleton.2 (Expr.readable hs))
            (List.forall_mem_singleton.2 hs') hargs
          rw [(List.cons.inj hes).1]
      | declare name initial =>
          rw [chars_declare] at h
          exact absurd (List.cons.inj (List.cons.inj h).2).1 (by decide)
  | declare name initial =>
      rw [chars_declare] at h
      cases s' with
      | expression e' => exact absurd h.symm (expression_chars_ne hs' (.inr rfl) (closed_blank _))
      | print e' =>
          rw [chars_print] at h
          exact absurd (List.cons.inj (List.cons.inj h).2).1 (by decide)
      | declare name' initial' =>
          rw [chars_declare] at h
          obtain ⟨hname, hinit⟩ := Bool.and_eq_true_iff.1 hs
          obtain ⟨hname', hinit'⟩ := Bool.and_eq_true_iff.1 hs'
          have hplain : ∀ {name : String}, isName name → ∀ c ∈ name.toList, isPlain c := by
            intro name hname c hc
            exact isPlain_of_isNameChar (List.all_eq_true.1 hname c hc)
          have hbody := (List.cons.inj (List.append_cancel_left (List.cons.inj h).2)).2
          obtain ⟨hn, hargs⟩ := word_append_inj (hplain hname) (hplain hname')
            (Expr.closed_argsText _ []) (Expr.closed_argsText _ []) hbody
          have hread : ∀ e ∈ initial.toList, e.Readable := by
            intro e he
            apply Expr.readable
            simp_all
          have hnamed : ∀ e ∈ initial'.toList, e.isNamed := by
            intro e he
            simp_all
          obtain ⟨hes, -⟩ := Expr.argsText_append_inj hread hnamed hargs
          have hinitial : initial = initial' := by simpa using congrArg List.head? hes
          rw [String.toList_inj.1 hn, hinitial]

/-- The text of a statement is on one line. -/
theorem line_of_chars {s : Stmt} (hnamed : s.isNamed) : ∀ c ∈ s.chars, isLineChar c := by
  cases s with
  | expression e => exact Expr.line_of_chars hnamed
  | print e =>
      rw [chars_print]
      exact Expr.line_of_bracket (List.all_eq_true.1 rfl)
        (Expr.line_of_argsText (List.forall_mem_singleton.2 (Expr.line_of_chars hnamed)))
  | declare name initial =>
      obtain ⟨hname, hinitial⟩ := Bool.and_eq_true_iff.1 hnamed
      have hargs : ∀ c ∈ Expr.argsText initial.toList, isLineChar c := by
        apply Expr.line_of_argsText
        intro e he
        apply Expr.line_of_chars
        simp_all
      have hchars : (declare name initial).chars =
          '(' :: ("var".toList ++ ((' ' :: (name.toList ++ Expr.argsText initial.toList)) ++
            [')'])) := by
        simp [chars_declare]
      rw [hchars]
      apply Expr.line_of_bracket (List.all_eq_true.1 rfl)
      intro c hc
      simp only [List.mem_cons, List.mem_append] at hc
      rcases hc with rfl | hc | hc
      · rfl
      · exact isLineChar_of_isPlain (isPlain_of_isNameChar (List.all_eq_true.1 hname c hc))
      · exact hargs c hc

end Stmt
end Lox
