import Lox.Proofs.Descent.Complaints
import Lox.Proofs.Eval.Room
import Lox.Proofs.Program.Entries
import Lox.Proofs.Render.Trees
/-!
# `Program.OneLine` — complaints take one line

Whatever is wrong with a text, the complaint is one line (`complaints_take_one_line`). What a
complaint shows of the text is quoted, with its line breaks escaped, or is a name, or is cut at
the first line break; numbers and fixed words hold none. Only two kinds of error carry texts
that need a look at where they come from: what descent says of a missing token, and the names
that a run complains of.
-/
namespace Lox

/-! ## Texts on one line -/

/-- The text holds no line break. -/
def OneLine (s : String) : Prop := '\n' ∉ s.toList ∧ '\r' ∉ s.toList

instance (s : String) : Decidable (OneLine s) := inferInstanceAs (Decidable (_ ∧ _))

theorem oneLine_iff {s : String} : OneLine s ↔ ∀ c ∈ s.toList, c ≠ '\n' ∧ c ≠ '\r' := by
  constructor
  · rintro ⟨hn, hr⟩ c hc
    exact ⟨fun h => hn (h ▸ hc), fun h => hr (h ▸ hc)⟩
  · intro h
    exact ⟨fun hn => (h _ hn).1 rfl, fun hr => (h _ hr).2 rfl⟩

theorem OneLine.append {s t : String} (hs : OneLine s) (ht : OneLine t) : OneLine (s ++ t) := by
  simp only [OneLine, String.toList_append, List.mem_append, not_or]
  exact ⟨⟨hs.1, ht.1⟩, hs.2, ht.2⟩

theorem oneLine_of_isLineChar {s : String} (h : ∀ c ∈ s.toList, isLineChar c) : OneLine s := by
  rw [oneLine_iff]
  intro c hc
  have hline := h c hc
  simp [isLineChar] at hline
  exact ⟨hline.1.1, hline.1.2⟩

theorem oneLine_of_isPlain {s : String} (h : ∀ c ∈ s.toList, isPlain c) : OneLine s :=
  oneLine_of_isLineChar fun c hc => isLineChar_of_isPlain (h c hc)

theorem oneLine_of_isName {s : String} (h : isName s) : OneLine s :=
  oneLine_of_isPlain fun c hc => isPlain_of_isNameChar (List.all_eq_true.1 h c hc)

/-! ## Numbers -/

theorem exists_digitChar {b n : Nat} (hb : 1 < b) {c : Char} (hc : c ∈ Nat.toDigits b n) :
    ∃ k, c = Nat.digitChar k := by
  induction n using Nat.strongRecOn with
  | ind n ih =>
      by_cases hlt : n < b
      · rw [Nat.toDigits_of_lt_base hlt, List.mem_singleton] at hc
        exact ⟨n, hc⟩
      · rw [Nat.toDigits_of_base_le hb (Nat.not_lt.mp hlt), List.mem_append, List.mem_singleton] at hc
        obtain hc | hc := hc
        · exact ih (n / b) (Nat.div_lt_self (by omega) hb) hc
        · exact ⟨n % b, hc⟩

theorem ne_break_of_digit {b n : Nat} (hb : 1 < b) {c : Char} (hc : c ∈ Nat.toDigits b n) :
    c ≠ '\n' ∧ c ≠ '\r' := by
  obtain ⟨k, rfl⟩ := exists_digitChar hb hc
  exact ⟨Nat.digitChar_ne '\n' rfl, Nat.digitChar_ne '\r' rfl⟩

theorem oneLine_nat (n : Nat) : OneLine (toString n) := by
  rw [oneLine_iff]
  intro c hc
  exact ne_break_of_digit (b := 10) (n := n) (by decide) (by simpa using hc)

theorem oneLine_int (i : Int) : OneLine (toString i) := by
  cases i with
  | ofNat n => exact oneLine_nat n
  | negSucc n => exact OneLine.append (s := "-") (by decide) (oneLine_nat (n + 1))

theorem oneLine_number (v : Float) : OneLine (Number.text v) :=
  oneLine_of_isPlain (Number.textOf_text v).isPlain

/-! ## Quoted texts -/

theorem oneLine_quote (s : String) : OneLine (Text.quote s) := by
  refine oneLine_of_isLineChar ?_
  rw [Text.quote, String.toList_ofList]
  exact Text.line_of_quoteChars s.toList

theorem ne_break_of_hex {width n : Nat} {c : Char} (hc : c ∈ Text.hex width n) :
    c ≠ '\n' ∧ c ≠ '\r' := by
  obtain hc | hc := List.mem_append.mp hc
  · obtain rfl := List.eq_of_mem_replicate hc
    decide
  · exact ne_break_of_digit (by decide) hc

theorem ne_break_of_byCode {c d : Char} (hd : d ∈ Text.byCode c) : d ≠ '\n' ∧ d ≠ '\r' := by
  -- A backslash and a letter stand before the digits.
  have hcode : ∀ letter width n, letter ≠ '\n' ∧ letter ≠ '\r' →
    d ∈ '\\' :: letter :: Text.hex width n →
      d ≠ '\n' ∧ d ≠ '\r' := by
    intro letter width n hletter hd
    obtain rfl | hd := List.mem_cons.mp hd
    · decide
    obtain rfl | hd := List.mem_cons.mp hd
    · exact hletter
    · exact ne_break_of_hex hd
  simp only [Text.byCode] at hd
  split at hd
  · exact hcode 'x' _ _ (by decide) hd
  split at hd
  · exact hcode 'u' _ _ (by decide) hd
  · exact hcode 'U' _ _ (by decide) hd

theorem ne_break_of_displayChar {q c d : Char} (hq : q ≠ '\n' ∧ q ≠ '\r')
    (hd : d ∈ Text.displayChar q c) :
    d ≠ '\n' ∧ d ≠ '\r' := by
  -- The branches of the display in turn: the quote and the backslash, the three escapes, what can
  -- be shown, and the rest.
  unfold Text.displayChar at hd
  split at hd
  · next hc =>
    obtain rfl | rfl := List.mem_pair.mp hd
    · decide
    · obtain rfl | rfl : d = q ∨ d = '\\' := by simpa using hc
      · exact hq
      · decide
  split at hd
  · obtain rfl | rfl := List.mem_pair.mp hd <;> decide
  split at hd
  · obtain rfl | rfl := List.mem_pair.mp hd <;> decide
  split at hd
  · obtain rfl | rfl := List.mem_pair.mp hd <;> decide
  split at hd
  · next hn hr _ _ =>
    obtain rfl := List.mem_singleton.mp hd
    exact ⟨hn, hr⟩
  · exact ne_break_of_byCode hd

theorem oneLine_display (s : String) : OneLine (Text.display s) := by
  have hq : Text.displayQuote s.toList ≠ '\n' ∧ Text.displayQuote s.toList ≠ '\r' := by
    unfold Text.displayQuote
    split <;> decide
  rw [oneLine_iff, Text.display, String.toList_ofList, Text.displayChars]
  intro d hd
  obtain hd | hd := List.mem_append.mp hd
  · obtain rfl | hd := List.mem_cons.mp hd
    · exact hq
    · obtain ⟨c, -, hd⟩ := List.mem_flatMap.mp hd
      exact ne_break_of_displayChar hq hd
  · obtain rfl := List.mem_singleton.mp hd
    exact hq

/-! ## Errors -/

theorem oneLine_tag (t : Tag) : OneLine t.word := by
  cases t <;> decide

theorem oneLine_kind (k : Kind) : OneLine k.name := by
  cases k with
  | mark m => cases m <;> decide
  | identifier | string | number | endOfInput => decide

theorem oneLine_message {d : Diagnostic} (h : OneLine d.text) : OneLine d.message := by
  have hbody : OneLine (d.tag.word ++ ": " ++ d.text) :=
    ((oneLine_tag d.tag).append (by decide)).append h
  unfold Diagnostic.message
  split
  · next row col _ _ =>
    exact (((((by decide : OneLine "[").append (oneLine_int row)).append (by decide)).append
      (oneLine_int col)).append (by decide)).append hbody
  · exact hbody

theorem oneLine_fault (e : ScanError) : OneLine e.text := by
  unfold ScanError.text
  split
  · exact OneLine.append (by decide) (oneLine_display _)
  · decide
  · exact (oneLine_display _).append (by decide)

/-- Of the errors that descent raises, only one for a missing token has a text of its own, and that
is one of its notes. -/
theorem oneLine_descent {z : Descent.Ending} {deep : Prop} {e : Descent.Error}
    (h : Descent.Raised z deep e) :
    OneLine e.diagnostic.text := by
  cases h with
  | @lexical f _ => exact oneLine_fault f
  | @missing k note t hnote =>
      show OneLine (if note = "" then "Expected " ++ k.name ++ ", got " ++ t.kind.name else note)
      have hnotes : ∀ note ∈ Descent.notes, OneLine note := by decide
      split
      · exact ((OneLine.append (by decide) (oneLine_kind k)).append (by decide)).append
          (oneLine_kind t.kind)
      · exact hnotes note hnote
  | @noOperand t =>
      show OneLine (Descent.Error.text (.noOperand t))
      unfold Descent.Error.text
      dsimp only
      split
      · decide
      · exact (OneLine.append (by decide) (oneLine_display t.lexeme)).append (by decide)
      · exact (OneLine.append (by decide) (oneLine_display t.lexeme)).append (by decide)
      · exact OneLine.append (by decide) (oneLine_display t.lexeme)
      · exact OneLine.append (by decide) (oneLine_kind t.kind)
  | @trailing t => exact (OneLine.append (by decide) (oneLine_display t.lexeme)).append (by decide)
  | tooDeep _ =>
      show OneLine "Expression nests too deeply"
      decide

theorem oneLine_place {col : String} (hcol : OneLine col) (p : Place) :
    OneLine (Grammar.Error.atPlace col p) :=
  ((OneLine.append (by decide) (oneLine_nat p.row)).append hcol).append (oneLine_nat p.col)

theorem oneLine_terminal (k : Kind) : OneLine (Grammar.kindName k) := by
  cases k with
  | mark m => cases m <;> decide
  | identifier | string | number | endOfInput => decide

theorem oneLine_firstLine (cs : List Char) : OneLine (String.ofList (Text.firstLine cs)) := by
  rw [oneLine_iff, String.toList_ofList]
  intro c hc
  have hbreak := Text.not_isLineBreak_of_mem_firstLine hc
  constructor
  · rintro rfl
    cases hbreak
  · rintro rfl
    cases hbreak

theorem oneLine_grammar (e : Grammar.Error) : OneLine e.text := by
  cases e with
  | unexpected t =>
      have htoken : OneLine ("Unexpected token Token('" ++ Grammar.kindName t.kind ++ "', " ++
          Text.display t.text ++ ")") :=
        (((OneLine.append (by decide) (oneLine_terminal t.kind)).append (by decide)).append
          (oneLine_display t.text)).append (by decide)
      exact (htoken.append (oneLine_place (by decide) t.place)).append (by decide)
  | unexpectedEnd p =>
      exact (OneLine.append (by decide) (oneLine_place (by decide) p)).append (by decide)
  | unmatched c p => exact oneLine_firstLine _
  | invalidNumber s p => exact (oneLine_display s).append (by decide)
  | tooDeep => decide

/-- Whatever is wrong with the text of a program or an expression is said on one line. -/
theorem oneLine_source {f : FrontEnd} {s : String} {e : SourceError}
    (h : f.parseProgram s = .error e ∨ f.parseExpr s = .error e) : OneLine e.diagnostic.text := by
  cases f with
  | descent =>
      have hample : Descent.Ample True false Descent.parseRoom (Descent.Stream.ofText s).ahead :=
        .inl trivial
      obtain h | h := h
      · obtain ⟨e', he', rfl⟩ := error_of_mapError h
        exact oneLine_descent (Descent.raised_program hample he')
      · obtain ⟨e', he', rfl⟩ := error_of_mapError h
        exact oneLine_descent (Descent.raised_expr hample he')
  | grammar =>
      obtain h | h := h
      · obtain ⟨e', -, rfl⟩ := error_of_mapError h
        exact oneLine_grammar e'
      · obtain ⟨e', -, rfl⟩ := error_of_mapError h
        exact oneLine_grammar e'

/-! ## Values and runs -/

theorem oneLine_value (v : Value) : OneLine v.display := by
  cases v with
  | number v => exact oneLine_number v
  | string s => exact oneLine_quote s
  | bool b => cases b <;> decide
  | nil => decide

theorem oneLine_sortName (v : Value) : OneLine v.sortName := by
  unfold Value.sortName
  split <;> decide

theorem oneLine_notANumber {op : String} (hop : OneLine op) (v : Value) :
    OneLine (RuntimeError.notANumber op v).text :=
  ((((OneLine.append (by decide) hop).append (by decide)).append (oneLine_sortName v)).append
    (by decide)).append (oneLine_value v)

theorem oneLine_notAddable (l r : Value) : OneLine (RuntimeError.notAddable l r).text :=
  ((OneLine.append (by decide) (oneLine_value l)).append (by decide)).append (oneLine_value r)

/-- If the evaluation fails, what is said of it takes one line. -/
def FailsOnOneLine (x : Except RuntimeError Value) : Prop := ∀ err, x = .error err → OneLine err.text

namespace FailsOnOneLine

theorem ok (v : Value) : FailsOnOneLine (.ok v) := fun _ h => nomatch h

theorem error {err : RuntimeError} (h : OneLine err.text) : FailsOnOneLine (.error err) := by
  intro err' heq
  cases heq
  exact h

theorem bind {x : Except RuntimeError Value} {f : Value → Except RuntimeError Value}
    (hx : FailsOnOneLine x) (hf : ∀ v, FailsOnOneLine (f v)) : FailsOnOneLine (x >>= f) := by
  cases x with
  | error err => exact hx
  | ok v => exact hf v

theorem descend {room need cost : Nat} {go : Nat → Except RuntimeError Value}
    (h : ∀ room, FailsOnOneLine (go room)) :
    FailsOnOneLine (Lox.descend room need cost go) := by
  unfold Lox.descend
  split
  · exact h _
  · exact error (by decide)

theorem toNumber {op : String} (hop : OneLine op) {f : Float → Except RuntimeError Value}
    (hf : ∀ v, FailsOnOneLine (f v)) (v : Value) : FailsOnOneLine (v.toNumber op >>= f) := by
  cases v with
  | number v => exact hf v
  | string _ | bool _ | nil => exact error (oneLine_notANumber hop _)

theorem unary (op : UnaryOp) (v : Value) : FailsOnOneLine (op.apply v) := by
  cases op with
  | negate => exact toNumber (by decide) (fun _ => ok _) v
  | not => exact ok _

theorem withNumbers {op : String} (hop : OneLine op) (f : Float → Float → Value) (l r : Value) :
    FailsOnOneLine (Value.withNumbers op f l r) :=
  toNumber hop (fun _ => toNumber hop (fun _ => ok _) r) l

theorem strict (op : StrictOp) (l r : Value) : FailsOnOneLine (op.apply l r) := by
  cases op with
  | equal | notEqual => exact ok _
  | add =>
      show FailsOnOneLine (Value.add l r)
      unfold Value.add
      split
      · exact ok _
      · exact ok _
      · exact error (oneLine_notAddable l r)
  | less | lessEqual | greater | greaterEqual | subtract | multiply | divide =>
      exact withNumbers (by decide) _ l r

end FailsOnOneLine

/-- The names in an expression that is complained of are names in the text. -/
theorem failsOnOneLine_literal {l : Literal} (h : l.isNamed) : FailsOnOneLine l.eval := by
  cases l with
  | identifier name =>
      have hname : OneLine name := oneLine_of_isName h
      exact .error ((OneLine.append (by decide) hname).append (by decide))
  | string s => exact .ok _
  | number v => exact .ok _
  | boolean b => exact .ok _
  | nil => exact .ok _

theorem failsOnOneLine_eval {e : Expr} (h : e.isNamed) (room : Nat) :
    FailsOnOneLine (e.toNode.eval room) := by
  induction e generalizing room with
  | literal l => exact failsOnOneLine_literal h
  | group e ih => exact .descend fun room => ih h room
  | unary op e ih => exact .descend fun room => (ih h room).bind (.unary op)
  | binary op l r ihl ihr =>
      obtain ⟨hl, hr⟩ : l.isNamed ∧ r.isNamed := by simpa [Expr.isNamed] using h
      cases op with
      | strict op =>
          apply FailsOnOneLine.descend
          intro room
          apply (ihl hl room).bind
          intro a
          exact (ihr hr room).bind (.strict op a)
      | logical op =>
          apply FailsOnOneLine.descend
          intro room
          apply (ihl hl room).bind
          intro a
          split
          · exact .ok _
          · exact (ihr hr room).bind fun _ => .ok _

theorem eval_of_failure {e : Expr} {err : RuntimeError} (h : (Stmt.expression e).failure? = some err) :
    e.eval = .error err := by
  cases hv : e.eval with
  | ok v => simp [Stmt.failure?, hv] at h
  | error err' => simpa [Stmt.failure?, hv] using h

/-- Why a statement fails is said on one line. -/
theorem oneLine_failure {st : Stmt} {err : RuntimeError} (h : st.isNamed)
    (hfail : st.failure? = some err) :
    OneLine err.text := by
  cases st with
  | expression e => exact failsOnOneLine_eval h evalRoom err (eval_of_failure hfail)
  | print e => exact failsOnOneLine_eval h evalRoom err (eval_of_failure hfail)
  | declare name e =>
      cases hfail
      have hname : OneLine name := oneLine_of_isName (Bool.and_eq_true_iff.mp h).1
      exact (OneLine.append (by decide) hname).append (by decide)

theorem oneLine_run {p : List Stmt} {err : RuntimeError} (h : ∀ st ∈ p, st.isNamed)
    (hfail : (Run.ofStatements p).failure = some err) : OneLine err.text := by
  rw [Run.failure_eq] at hfail
  obtain ⟨st, hst, hfail⟩ := List.exists_of_findSome?_eq_some hfail
  exact oneLine_failure (h st hst) hfail

/-! ## Complaints -/

/-- Nothing but one line of complaint. -/
def Complains (err : String) : Prop := ∃ m, OneLine m ∧ err = "Error: " ++ m ++ "\n"

theorem complains_of_oneLine {d : Diagnostic} (h : OneLine d.text) :
    Complains (complaint false d.message) :=
  ⟨d.message, oneLine_message h, String.append_empty⟩

theorem complains_source {f : FrontEnd} {s : String} {e : SourceError}
    (h : f.parseProgram s = .error e ∨ f.parseExpr s = .error e) :
    Complains (complaint false (Failure.source e).diagnostic.message) :=
  complains_of_oneLine (oneLine_source h)

theorem complains_render (e : RenderError) :
    Complains (complaint false (Failure.render e).diagnostic.message) :=
  complains_of_oneLine (by cases e; decide)

theorem complains_runtime {err : RuntimeError} (h : OneLine err.text) :
    Complains (complaint false (Failure.runtime err).diagnostic.message) := complains_of_oneLine h

theorem complains_ofRun {out : String} {e : Option Failure}
    (h : ∀ x, e = some x → Complains (complaint false x.diagnostic.message))
    (hcode : (Report.ofRun false out e).code.number ≠ 0) :
    Complains (Report.ofRun false out e).err := by
  cases e with
  | none => exact absurd rfl hcode
  | some x => exact h x rfl

/-- A script that fails writes one line of complaint. -/
theorem complains_script {f : FrontEnd} {tree : Bool} {s : String}
    (h : (runScript f tree false s).code.number ≠ 0) :
    Complains (runScript f tree false s).err := by
  unfold runScript at h ⊢
  cases hp : f.parseProgram s with
  | error e =>
      rw [hp] at h
      exact complains_source (.inl hp)
  | ok p =>
      rw [hp] at h
      cases tree with
      | true =>
          refine complains_ofRun ?_ h
          intro x hx
          obtain ⟨e, -, rfl⟩ := Option.map_eq_some_iff.mp hx
          exact complains_render e
      | false =>
          refine complains_ofRun ?_ h
          intro x hx
          obtain ⟨err, hfail, rfl⟩ := Option.map_eq_some_iff.mp hx
          exact complains_runtime (oneLine_run (FrontEnd.isNamed_of_parseProgram hp) hfail)

theorem complains_finish {f : FrontEnd} {tree : Bool} {out : String} {e : Option Failure}
    (h : ∀ x, e = some x → Complains (complaint false x.diagnostic.message)) :
    (Session.finish ⟨f, ⟨tree, false⟩⟩ out e).err = "" ∨
    Complains (Session.finish ⟨f, ⟨tree, false⟩⟩ out e).err := by
  cases e with
  | none => exact .inl rfl
  | some x => exact .inr (h x rfl)

/-- What is said of an answer that is a failure takes one line. -/
theorem complains_answer {f : FrontEnd} {entry : String} {e : Failure}
    (h : (answer f entry).1 = .error e) :
    Complains (complaint false e.diagnostic.message) := by
  -- An entry that is an expression fails only when it is evaluated; any other one is complained of
  -- as a program.
  cases hexpr : f.parseExpr entry with
  | ok x =>
      have hanswer : (answer f entry).1 = (x.eval.mapError .runtime).map .value := by rw [answer, hexpr]
      rw [hanswer] at h
      cases hv : x.eval with
      | ok v => rw [hv] at h; cases h
      | error err =>
          rw [hv] at h
          cases h
          exact complains_runtime (failsOnOneLine_eval (FrontEnd.isNamed_of_parseExpr hexpr)
            evalRoom err hv)
  | error err =>
      cases hprogram : f.parseProgram entry with
      | error err' =>
          rw [answer_of_rejected hexpr hprogram] at h
          cases h
          exact complains_source (.inl hprogram)
      | ok p =>
          rw [answer, hexpr, run_eq hprogram] at h
          cases hfail : (Run.ofStatements p).failure with
          | none => simp [hfail] at h
          | some err =>
              simp only [hfail] at h
              cases h
              exact complains_runtime (oneLine_run (FrontEnd.isNamed_of_parseProgram hprogram) hfail)

/-- What an entry is complained of takes one line, and an entry that is not
complained of takes none. -/
theorem complains_entry (f : FrontEnd) (tree : Bool) (entry : String) :
    ((Session.mk f ⟨tree, false⟩).enter entry).err = "" ∨
    Complains ((Session.mk f ⟨tree, false⟩).enter entry).err := by
  cases tree with
  | true =>
      show (Session.showTrees _ entry).err = "" ∨ Complains (Session.showTrees _ entry).err
      unfold Session.showTrees
      cases htrees : entryTrees f entry with
      | error e => exact .inr (complains_source (.inl (entryTrees_eq_error.mp htrees).2))
      | ok trees =>
          apply complains_finish
          intro x hx
          obtain ⟨e, -, rfl⟩ := Option.map_eq_some_iff.mp hx
          exact complains_render e
  | false =>
      show (Session.evaluateEntry _ entry).err = "" ∨ Complains (Session.evaluateEntry _ entry).err
      unfold Session.evaluateEntry
      split
      · next e out hanswer => exact .inr (complains_answer (congrArg Prod.fst hanswer))
      · exact .inl rfl
      · exact .inl rfl
      · exact .inl rfl

/-- Every complaint takes one line. A script that ends with another code than 0 has written one line
to the error stream and nothing else, whatever its text holds, and so has an entry of a session, if
it has written anything there. -/
theorem complaints_take_one_line :
    (∀ (f : FrontEnd) (tree : Bool) (s : String), (runScript f tree false s).code.number ≠ 0 →
      Complains (runScript f tree false s).err) ∧
    (∀ (f : FrontEnd) (tree : Bool) (entry : String),
      ((Session.mk f ⟨tree, false⟩).enter entry).err = "" ∨
      Complains ((Session.mk f ⟨tree, false⟩).enter entry).err) :=
  ⟨fun _ _ _ h => complains_script h, complains_entry⟩

/-- A text with a line break is no number, and is shown without its line break. -/
theorem complaints_take_one_line_quoted :
    (runScript .descent false false "-\"a\nb\";").code.number ≠ 0 ∧
    Complains (runScript .descent false false "-\"a\nb\";").err := by
  have hcode : (runScript .descent false false "-\"a\nb\";").code.number ≠ 0 := by
    have hp : FrontEnd.descent.parseProgram "-\"a\nb\";" =
        .ok [.expression (.unary .negate (.literal (.string "a\nb")))] := by
      cbv
    rw [runScript, hp]
    decide
  exact ⟨hcode, complaints_take_one_line.1 .descent false _ hcode⟩

end Lox
