import Lox.Proofs.Grammar.Moves
/-!
# `Grammar.Alone` — an expression by itself and as a statement

A reader for an expression and a reader for a program that is inside an expression statement differ
only in what the expression is for (`Twin`), and they go on being so: each shifts what the other
shifts, up to the semicolon that ends the statement. So an expression is complete exactly where a
semicolon would make it a program of one statement (`phrase_iff_statement`), and there the program
is not complete without the semicolon (`not_program_of_phrase`).
-/
namespace Lox.Grammar

/-- The same place in an expression that is the whole text and in one that is a statement. -/
inductive Twin : State → State → Prop
  | wanted (stack : List Open) : Twin (.operandWanted .alone stack) (.operandWanted .expression stack)
  | read (stack : List Open) (p : Phrase) :
      Twin (.operandRead .alone stack p) (.operandRead .expression stack p)

theorem Begins.twin {stack : List Open} {t : Terminal} {a : State} (h : Begins .alone stack t a) :
    ∃ b, Twin a b ∧ Begins .expression stack t b := by
  cases h with
  | leaf hp => exact ⟨_, .read _ _, .leaf hp⟩
  | sign hop => exact ⟨_, .wanted _, .sign hop⟩
  | paren hk => exact ⟨_, .wanted _, .paren hk⟩

theorem Begins.of_twin {stack : List Open} {t : Terminal} {a b : State}
    (h : Begins .expression stack t b) (hab : Twin a b) : Begins .alone stack t a := by
  cases h with
  | leaf hp => cases hab; exact .leaf hp
  | sign hop => cases hab; exact .sign hop
  | paren hk => cases hab; exact .paren hk

/-- What is shifted in an expression by itself is shifted in a statement. -/
theorem Twin.move {d : List Sentence} {a b : State} {t : Terminal} {r : Reader} (hab : Twin a b)
    (h : Move ⟨d, a⟩ t r) :
    ∃ a' b', r = ⟨d, a'⟩ ∧ Twin a' b' ∧ Move ⟨d, b⟩ t ⟨d, b'⟩ := by
  cases hab with
  | wanted stack =>
      cases h with
      | operand hb =>
          obtain ⟨b', hb', hbegins⟩ := hb.twin
          exact ⟨_, b', rfl, hb', .operand hbegins⟩
  | read stack p =>
      cases h with
      | operator hop hr => exact ⟨_, _, rfl, .wanted _, .operator hop hr⟩
      | close hk hr => exact ⟨_, _, rfl, .read _ _, .close hk hr⟩
      | finish _ _ hs => cases hs

/-- Before the first terminal of a program an expression may begin. -/
theorem Move.of_between {d : List Sentence} {b : State} {t : Terminal}
    (h : Move ⟨d, .operandWanted .expression []⟩ t ⟨d, b⟩) : Move ⟨d, .between⟩ t ⟨d, b⟩ := by
  cases h with
  | operand hb => exact .start hb

/-- Behind a statement there is a sentence. -/
theorem Move.done_ne_nil {r r' : Reader} {t : Terminal} (h : Move r t r')
    (hr' : r'.state = .between) : r'.done ≠ [] := by
  cases h with
  | declared _ => exact List.cons_ne_nil _ _
  | finish _ _ _ => exact List.cons_ne_nil _ _
  | start hb => cases hb <;> cases hr'
  | operand hb => cases hb <;> cases hr'
  | print _ | var _ | name _ | assign _ | operator _ _ | close _ _ => cases hr'

/-- What is shifted in an expression statement, or before it, is shifted in an expression by
itself. -/
theorem Move.back {d d' : List Sentence} {a' b b' : State} {t : Terminal}
    (h : Move ⟨d, b⟩ t ⟨d', b'⟩) (hab : Twin a' b') :
    d' = d ∧ ∃ a, (Twin a b ∨ b = .between ∧ a = .operandWanted .alone []) ∧ Move ⟨d, a⟩ t ⟨d, a'⟩ := by
  cases hab with
  | wanted stack =>
      cases h with
      | start hb => exact ⟨rfl, _, .inr ⟨rfl, rfl⟩, .operand (hb.of_twin (.wanted stack))⟩
      | operand hb =>
          cases hb with
          | sign hop => exact ⟨rfl, _, .inl (.wanted _), .operand (.sign hop)⟩
          | paren hk => exact ⟨rfl, _, .inl (.wanted _), .operand (.paren hk)⟩
      | operator hop hr => exact ⟨rfl, _, .inl (.read _ _), .operator hop hr⟩
  | read stack p =>
      cases h with
      | start hb => exact ⟨rfl, _, .inr ⟨rfl, rfl⟩, .operand (hb.of_twin (.read stack p))⟩
      | operand hb =>
          cases hb with
          | leaf hp => exact ⟨rfl, _, .inl (.wanted _), .operand (.leaf hp)⟩
      | close hk hr => exact ⟨rfl, _, .inl (.read _ _), .close hk hr⟩

theorem phrase?_read {d : List Sentence} {stack : List Open} {p q : Phrase} :
    (⟨d, .operandRead .alone stack p⟩ : Reader).phrase? = some q ↔ reduceAll stack p = ([], q) := by
  obtain ⟨q', hq⟩ | ⟨rest, q', hq, -⟩ := reduceAll_cases stack p
  · simp [Reader.phrase?, hq]
  · simp [Reader.phrase?, hq]

/-- A reader for a program is inside a statement wherever a reader for an expression is,
behind the first terminal. -/
theorem shiftAll_twin {ts : List Terminal} {r : Reader} (h : Reader.forExpr.shiftAll ts = .ok r) :
    (ts = [] ∧ r = .forExpr) ∨ ∃ a b, r = ⟨[], a⟩ ∧ Twin a b ∧
    Reader.forProgram.shiftAll ts = .ok ⟨[], b⟩ := by
  -- Before the first terminal the two are no twins yet: a program may still begin with
  -- another kind of statement.
  refine shiftAll_invariant (fun r us => (us = [] ∧ r = .forExpr) ∨
    ∃ a b, r = ⟨[], a⟩ ∧ Twin a b ∧ Reader.forProgram.shiftAll us = .ok ⟨[], b⟩) ?_ (.inl ⟨rfl, rfl⟩) h
  rintro q us t q' (⟨rfl, rfl⟩ | ⟨a, b, rfl, hab, hrun⟩) hm
  · obtain ⟨a', b', rfl, hab', hm'⟩ := (Twin.wanted []).move hm
    exact .inr ⟨a', b', rfl, hab', shiftAll_cons_ok.mpr ⟨_, shift_eq_some.mpr hm'.of_between, rfl⟩⟩
  · obtain ⟨a', b', rfl, hab', hm'⟩ := hab.move hm
    exact .inr ⟨a', b', rfl, hab', shiftAll_append_ok.mpr
      ⟨_, hrun, shiftAll_cons_ok.mpr ⟨_, shift_eq_some.mpr hm', rfl⟩⟩⟩

/-- Inside its first statement, if that is an expression, a reader for a program is where a reader
for an expression is. -/
theorem shiftAll_of_twin {ts : List Terminal} {a b : State}
    (h : Reader.forProgram.shiftAll ts = .ok ⟨[], b⟩) (hab : Twin a b) :
    Reader.forExpr.shiftAll ts = .ok ⟨[], a⟩ := by
  -- Sentences are only added, so the first statement is the one at hand as long as there is none.
  refine (shiftAll_invariant (fun r us => r.done = [] → (r.state = .between → us = []) ∧
    ∀ a, Twin a r.state → Reader.forExpr.shiftAll us = .ok ⟨[], a⟩) ?_ ?_ h rfl).2 a hab
  · rintro ⟨d, b⟩ us t ⟨d', b'⟩ hq hm (rfl : d' = [])
    refine ⟨fun hbetween => absurd rfl (hm.done_ne_nil hbetween), fun a' hab' => ?_⟩
    obtain ⟨rfl, a, ha, hm'⟩ := hm.back hab'
    refine shiftAll_append_ok.mpr ⟨⟨[], a⟩, ?_, shiftAll_cons_ok.mpr ⟨_, shift_eq_some.mpr hm', rfl⟩⟩
    obtain hab | ⟨hbetween, rfl⟩ := ha
    · exact (hq rfl).2 a hab
    · rw [(hq rfl).1 hbetween]
      rfl
  · exact fun _ => ⟨fun _ => rfl, fun a ha => nomatch ha⟩

/-- An expression is complete exactly if a semicolon makes it a program. -/
theorem phrase_iff_statement {ts : List Terminal} {stop : Terminal}
    (hstop : stop.kind = .mark .semicolon) {p : Phrase} :
    (∃ r, Reader.forExpr.shiftAll ts = .ok r ∧ r.phrase? = some p) ↔
      Reader.forProgram.shiftAll (ts ++ [stop]) = .ok ⟨[.expression p], .between⟩ := by
  constructor
  · rintro ⟨r, hrun, hp⟩
    obtain ⟨-, rfl⟩ | ⟨a, b, rfl, hab, hprogram⟩ := shiftAll_twin hrun
    · cases hp
    · cases hab with
      | wanted stack => cases hp
      | read stack q =>
          refine shiftAll_append_ok.mpr ⟨_, hprogram, shiftAll_cons_ok.mpr
            ⟨_, shift_eq_some.mpr ?_, rfl⟩⟩
          exact .finish hstop (phrase?_read.mp hp) rfl
  · intro h
    obtain ⟨⟨d, b⟩, hrun, hlast⟩ := shiftAll_append_ok.mp h
    obtain ⟨r, hshift, hr⟩ := shiftAll_cons_ok.mp hlast
    cases hr
    -- Only the end of a statement takes a semicolon, and the statement was an expression.
    have hm := shift_eq_some.mp hshift
    cases hm with
    | start hb => cases hb
    | operand hb => cases hb
    | @finish _ _ pu stack q _ _ hk hr hs =>
        cases pu with
        | expression =>
            cases hs
            exact ⟨_, shiftAll_of_twin hrun (.read stack q), phrase?_read.mpr hr⟩
        | alone | print | declare name => cases hs

/-- A complete expression is no complete program. -/
theorem not_program_of_phrase {ts : List Terminal} {r r' : Reader} {p : Phrase}
    (hexpr : Reader.forExpr.shiftAll ts = .ok r) (hp : r.phrase? = some p)
    (hprogram : Reader.forProgram.shiftAll ts = .ok r') : r'.program? = none := by
  obtain ⟨-, rfl⟩ | ⟨a, b, rfl, hab, hrun⟩ := shiftAll_twin hexpr
  · cases hp
  · obtain rfl := Except.ok.inj (hrun.symm.trans hprogram)
    cases hab with
    | wanted stack => rfl
    | read stack q => rfl

end Lox.Grammar
