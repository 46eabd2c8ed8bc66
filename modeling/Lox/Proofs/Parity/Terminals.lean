import Lox.Proofs.Grammar.Match
import Lox.Proofs.Parity.Simulation
/-!
# `Parity.Terminals` — the two divisions of a text

Scanning and the grammar divide a text in the same way. A token is a terminal, unless it is a brace,
a comma or a point, at which the grammar is stuck; of the faults, a number without a finite value is
a terminal all the same, a form feed is a blank, and the grammar is stuck at any other.
-/
namespace Lox.Parity

open Grammar

/-! ## Items as the grammar sees them -/

/-- What the grammar makes of an item. -/
inductive Seen where
  | terminal (t : Terminal)
  | blank
  | stuck (c : Char) (p : Place)
  deriving DecidableEq

def firstChar (lexeme : String) : Char := lexeme.toList.headD '\x00'

/-- Is there a terminal of the kind? -/
def kindHasTerminal : Kind → Bool
  | .mark m => hasTerminal m
  | _ => true

def seenAs : Item → Seen
  | .ok t =>
    if kindHasTerminal t.kind then .terminal t.terminal else .stuck (firstChar t.lexeme) t.place
  | .error e =>
    match e.cause with
    | .invalidNumber => .terminal ⟨.number, e.lexeme, e.place⟩
    | .unexpected c => if c = some '\x0c' then .blank else .stuck (firstChar e.lexeme) e.place
    | .unterminatedString => .stuck (firstChar e.lexeme) e.place

/-- Puts what is seen before the terminals of the rest; nothing is read behind a place
where the grammar is stuck. -/
def Seen.before : Seen → Terminals → Terminals
  | terminal t, more => ⟨t :: more.list, more.stuck⟩
  | blank, more => more
  | stuck c p, _ => ⟨[], some (c, p)⟩

/-- The terminals of a text, by its items. -/
def terminalsOf : List Item → Terminals
  | [] => ⟨[], none⟩
  | item :: items => (seenAs item).before (terminalsOf items)

/-! ## Steps of dividing -/

theorem divide_of_match {c : Char} {cs : List Char} {role : Role} {n : Nat}
    (h : match? (c :: cs) = some (role, n)) (hn : 0 < n) (p : Place) : divide (c :: cs) p =
      (match role.kind? (String.ofList ((c :: cs).take n)) with
        | some k => Seen.terminal ⟨k, String.ofList ((c :: cs).take n), p⟩
        | none => .blank).before (divide ((c :: cs).drop n) (p.after ((c :: cs).take n))) := by
  obtain ⟨m, rfl⟩ := Nat.exists_eq_add_one.mpr hn
  rw [divide]
  simp only [h]
  cases role.kind? (String.ofList ((c :: cs).take (m + 1))) <;> rfl

theorem divide_of_no_match {c : Char} {cs : List Char} (h : match? (c :: cs) = none) (p : Place) :
    divide (c :: cs) p = ⟨[], some (c, p)⟩ := by
  rw [divide]
  simp only [h]

/-- All blanks at the head of a text are left out at once. -/
theorem divide_blanks (cs : List Char) (p : Place) :
    divide cs p = divide (cs.dropWhile blank) (p.after (cs.takeWhile blank)) := by
  cases cs with
  | nil => rfl
  | cons c cs =>
      cases hc : blank c with
      | false =>
          rw [List.dropWhile_cons_of_neg (by simp [hc]), List.takeWhile_cons_of_neg (by simp [hc])]
          rfl
      | true =>
          rw [divide_of_match (match?_blank hc cs) (Nat.succ_pos _), List.dropWhile_cons_of_pos hc,
            List.takeWhile_cons_of_pos hc, List.drop_succ_cons, List.take_succ_cons, drop_takeWhile,
            take_takeWhile]
          rfl

theorem divide_blank {c : Char} (hc : blank c = true) (cs : List Char) (p : Place) :
    divide (c :: cs) p = divide cs (p.step c) := by
  rw [divide_blanks (c :: cs), divide_blanks cs, List.dropWhile_cons_of_pos hc,
    List.takeWhile_cons_of_pos hc]
  rfl

theorem divide_comment (cs : List Char) (p : Place) : divide ('/' :: '/' :: cs) p =
    divide (cs.dropWhile (· != '\n')) (p.after ('/' :: '/' :: cs.takeWhile (· != '\n'))) := by
  rw [divide_of_match (match?_comment cs) (Nat.succ_pos _), List.drop_succ_cons, List.drop_succ_cons,
    List.take_succ_cons, List.take_succ_cons, drop_takeWhile, take_takeWhile]
  rfl

/-! ## Lexemes -/

theorem firstChar_take {n : Nat} (hn : 0 < n) (c : Char) (cs : List Char) :
    firstChar (String.ofList ((c :: cs).take n)) = c := by
  obtain ⟨m, rfl⟩ : ∃ m, n = m + 1 := ⟨n - 1, by omega⟩
  simp [firstChar]

/-- A number is a terminal whatever its value. -/
theorem seenAs_number (p : Place) (text : List Char) :
    seenAs (itemOf p text (numberMeaning text)) = .terminal ⟨.number, String.ofList text, p⟩ := by
  unfold numberMeaning
  split
  · split <;> rfl
  · rfl

/-- A name or a reserved word is a terminal of the kind that the grammar gives to it. -/
theorem seenAs_name (p : Place) (text : List Char) :
    ∃ k, Role.name.kind? (String.ofList text) = some k ∧
    seenAs (itemOf p text (.ok (nameMeaning text))) = .terminal ⟨k, String.ofList text, p⟩ := by
  unfold nameMeaning Role.kind?
  cases hword : Mark.word? (String.ofList text) with
  | none => exact ⟨.identifier, rfl, rfl⟩
  | some m =>
      refine ⟨.mark m, rfl, ?_⟩
      have hwords : ∀ m ∈ Mark.words, hasTerminal m = true := by decide
      have hm : hasTerminal m = true := hwords m (List.mem_of_find?_eq_some hword)
      show (if hasTerminal m then _ else _) = _
      rw [if_pos hm]
      rfl

/-- The grammar takes the lexeme at the head of a text as scanning does, and sees it as what
scanning makes of it. -/
def TakesLexeme (cs : List Char) (p : Place) : Prop :=
  divide cs p = (seenAs (itemOf p (cs.take (lexemeAt cs).2) (lexemeAt cs).1)).before
    (divide (cs.drop (lexemeAt cs).2) (p.after (cs.take (lexemeAt cs).2)))

theorem takesLexeme_quote (cs : List Char) (p : Place) : TakesLexeme ('"' :: cs) p := by
  have hmatch := match?_quote cs
  unfold TakesLexeme
  rw [lexemeAt_quote]
  by_cases hterm : isTerminated ('"' :: cs) = true
  · rw [if_pos hterm] at hmatch ⊢
    exact divide_of_match hmatch (Nat.succ_pos _) p
  · rw [if_neg hterm] at hmatch ⊢
    rw [divide_of_no_match hmatch]
    show _ = (Seen.stuck (firstChar _) p).before _
    rw [firstChar_take (Nat.succ_pos _)]
    rfl

theorem takesLexeme_digit {c : Char} (hc : c.isDigit = true) (cs : List Char) (p : Place) :
    TakesLexeme (c :: cs) p := by
  have hpos := lexemeAt_pos (c :: cs)
  unfold TakesLexeme
  rw [lexemeAt_digit hc] at hpos ⊢
  rw [divide_of_match (match?_digit hc cs) hpos, seenAs_number]
  rfl

theorem takesLexeme_name {c : Char} (hc : isNameStart c = true) (cs : List Char) (p : Place) :
    TakesLexeme (c :: cs) p := by
  have hpos := lexemeAt_pos (c :: cs)
  unfold TakesLexeme
  rw [lexemeAt_nameStart hc] at hpos ⊢
  obtain ⟨k, hk, hseen⟩ := seenAs_name p ((c :: cs).take (nameLength (c :: cs)))
  rw [divide_of_match (match?_name hc cs) hpos, hk, hseen]

/-- Any other character begins a sign or is at fault; of the signs, the grammar does not know
all. -/
theorem takesLexeme_sign {c : Char} {cs : List Char} (hquote : c ≠ '"')
    (hdigit : ¬ c.isDigit = true) (hname : ¬ isNameStart c = true) (hblank : blank c = false)
    (hcomment : ['/', '/'].isPrefixOf (c :: cs) = false) (p : Place) : TakesLexeme (c :: cs) p := by
  have hmatch := match?_sign hquote hdigit hname hblank hcomment
  have hpos := lexemeAt_pos (c :: cs)
  unfold TakesLexeme
  rw [lexemeAt_other hquote hdigit hname] at hpos ⊢
  cases hsign : Mark.signAt? (c :: cs) with
  | none =>
      have hfeed : some c ≠ some '\x0c' := by
        rintro ⟨⟩
        revert hblank
        decide
      rw [hsign] at hmatch
      rw [divide_of_no_match hmatch]
      show _ = (if some c = some '\x0c' then Seen.blank else .stuck (firstChar _) p).before _
      rw [if_neg hfeed, firstChar_take (Nat.succ_pos _)]
      rfl
  | some m =>
      rw [hsign] at hmatch hpos
      show _ = (if hasTerminal m then Seen.terminal _ else .stuck (firstChar _) p).before _
      cases hm : hasTerminal m with
      | true =>
          rw [Option.filter_some_pos hm, Option.map_some] at hmatch
          rw [divide_of_match hmatch hpos, if_pos rfl]
          rfl
      | false =>
          rw [Option.filter_some_neg (by simp [hm])] at hmatch
          rw [divide_of_no_match hmatch, if_neg (by simp), firstChar_take hpos]
          rfl

theorem divide_lexeme {c : Char} {cs : List Char} (hlayout : layoutLength false (c :: cs) = 0)
    (p : Place) :
    TakesLexeme (c :: cs) p := by
  obtain ⟨hblank, hcomment⟩ := layoutLength_eq_zero.mp hlayout
  by_cases hquote : c = '"'
  · subst hquote
    exact takesLexeme_quote cs p
  by_cases hdigit : c.isDigit = true
  · exact takesLexeme_digit hdigit cs p
  by_cases hname : isNameStart c = true
  · exact takesLexeme_name hname cs p
  by_cases hfeed : c = '\x0c'
  · -- A form feed begins no sign; the grammar leaves it out.
    subst hfeed
    exact divide_blank (by decide) cs p
  refine takesLexeme_sign hquote hdigit hname ?_ hcomment p
  rw [blank_eq, hblank]
  simpa using hfeed

/-- The terminals of a text are its items as the grammar sees them. -/
theorem divide_eq_terminalsOf : ∀ cs p, divide cs p = terminalsOf (itemsFrom cs p) := by
  refine text_induction ?_ ?_ ?_ ?_
  · intro p
    rw [itemsFrom_nil, divide]
    rfl
  · intro c cs p hc ih
    have hblank : blank c = true := by rw [blank_eq, hc, Bool.true_or]
    rw [divide_blank hblank, itemsFrom_blank hc, ih]
  · intro cs p ih
    rw [divide_comment, itemsFrom_comment, ih]
  · intro cs p hne hlayout ih
    obtain ⟨c, cs, rfl⟩ := List.exists_cons_of_ne_nil hne
    have hdivide : divide (c :: cs) p = _ := divide_lexeme hlayout p
    rw [hdivide, itemsFrom_lexeme hne hlayout, ih]
    rfl

end Lox.Parity
