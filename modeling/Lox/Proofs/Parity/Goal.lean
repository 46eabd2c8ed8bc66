import Lox.Proofs.Parity.Simulation
/-!
# `Parity.Goal` — programs and single expressions alike

A text is read as a program or as one expression. The two differ in where the reader starts, in when
it is complete and in what is then made of it. A goal collects this together with what the proofs
about it need, so that every result about texts is proved once and holds of both.
-/
namespace Lox.Parity

open Descent Grammar

/-- What a text is read as: how the descent reads it, and how the grammar derives and makes it. -/
structure Goal (α β : Type) where
  descent : (rounds room : Nat) → Parser β
  start : Reader
  complete? : Reader → Option α
  /-- The tree of what was derived, however deep. -/
  value? : α → Option β
  /-- The tree of what was derived, within some room. -/
  build : (room : Nat) → α → Except Grammar.Error β
  numbers : α → List Terminal
  ends : ∀ {w : Reading} {s : Stream} {rounds : Nat}, w.start = start → Gives w.ending s w.tokens →
    w.tokens.length ≤ rounds → w.Ends complete? value? ((descent rounds w.room).run s).1
  built : ∀ a room, Built (numbers a) (value? a) (build room a)
  incomplete : ∀ {r : Reader}, r.program? = none → r.phrase? = none → complete? r = none
  numbers_eq : ∀ {ts : List Terminal} {r : Reader} {a : α}, start.shiftAll ts = .ok r →
    complete? r = some a →
    numbers a = ts.filter Terminal.isNumber
  completion : ∀ name close stop : Terminal, name.kind = .identifier → close.kind = .mark .rightParen →
    stop.kind = .mark .semicolon → ∀ {ts : List Terminal} {r : Reader}, start.shiftAll ts = .ok r →
    ∃ us r', (∀ t ∈ us, t = name ∨ t = close ∨ t = stop) ∧ r.shiftAll us = .ok r' ∧
    (complete? r').isSome

/-- Reading a program. -/
def Goal.program : Goal (List Sentence) (List Stmt) where
  descent := Descent.program
  start := .forProgram
  complete? := Reader.program?
  value? := List.mapM Sentence.stmt?
  build room ss := ss.mapM (Sentence.toStmt room)
  numbers ss := ss.flatMap Sentence.numbers
  ends := Reading.ends_program
  built := built_program
  incomplete h _ := h
  numbers_eq hrun ha := by
    rw [program?_numbers ha, numbers_of_shiftAll hrun]
    rfl
  completion _ _ _ hname hclose hstop _ _ hrun :=
    exists_program_completion hname hclose hstop (serves_of_shiftAll hrun rfl)

/-- Reading an expression. -/
def Goal.expr : Goal Phrase Expr where
  descent := Descent.wholeExpression
  start := .forExpr
  complete? := Reader.phrase?
  value? := Phrase.expr?
  build room p := p.toExpr room
  numbers := Phrase.numbers
  ends := Reading.ends_wholeExpression
  built := built_expr
  incomplete _ h := h
  numbers_eq hrun ha := by
    have hdone : Reader.done _ = [] := done_of_shiftAll (by simp [Reader.forExpr, State.Serves]) hrun
    have hnumbers := numbers_of_shiftAll hrun
    rw [Reader.numbers, hdone] at hnumbers
    rw [phrase?_state_numbers ha]
    exact hnumbers
  completion _ _ _ hname hclose _ _ _ hrun := by
    have hstart : Reader.forExpr.state.Serves true := by simp [Reader.forExpr, State.Serves]
    obtain ⟨us, r', hmem, hus, hr'⟩ :=
      exists_phrase_completion hname hclose (serves_of_shiftAll hrun hstart)
    exact ⟨us, r', fun t ht => (hmem t ht).imp_right .inl, hus, hr'⟩

/-! ## Readings of texts -/

theorem Reading.Reached.run {w : Reading} {r : Reader} (h : w.Reached r []) :
    w.start.shiftAll (w.tokens.map Token.terminal) = .ok r := by
  obtain ⟨us, hus, hrun⟩ := h
  rw [hus, List.append_nil]
  exact hrun

/-- A reader that refuses a token shifts no sequence through it. -/
theorem Reading.Reached.not_run {w : Reading} {r q : Reader} {t : Token} {ts : List Token}
    (h : w.Reached r (t :: ts)) (ht : r.shift t.terminal = none) :
    w.start.shiftAll (w.tokens.map Token.terminal) ≠ .ok q := by
  obtain ⟨us, hus, hrun⟩ := h
  rw [hus, List.map_append, List.map_cons, shiftAll_append_refused hrun ht]
  intro hq
  cases hq

variable {α β : Type}

/-- The reading of a text. -/
def Goal.ofText (g : Goal α β) (s : String) (room : Nat) : Reading where
  start := g.start
  tokens := (Stream.ofText s).ahead
  proper _ ht := (genuine_of_mem_ofText ht).isEnd_eq_false
  ending := endingOf s
  room := room

/-- How reading a text ends. -/
theorem Goal.ends_ofText (g : Goal α β) (s : String) (room : Nat) :
    (g.ofText s room).Ends g.complete? g.value? (runOn (g.descent · room) (.ofText s)).1 := by
  have hlen : (Stream.ofText s).ahead.length ≤ (Stream.ofText s).size + 1 := by
    show _ ≤ (Stream.ofText s).ahead.length + 1 + 1
    omega
  exact g.ends (w := g.ofText s room) rfl (gives_ofText s) hlen

end Lox.Parity
