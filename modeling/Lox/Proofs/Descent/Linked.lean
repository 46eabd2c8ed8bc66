import Lox.Proofs.Descent.Runs
/-!
# `Descent.Linked` — two runs of a parser side by side

A parser touches its stream by looking and consuming only, and of the tokens that it sees it uses
nothing but what they stand for. So two runs of it on two streams stay linked in whatever way
looking and consuming keep them linked. A `Link` says what holds between the streams while both runs
go well, between the tokens that they see, and between the ends of two runs that fail; this file
walks once through all parsers for all links.

With one stream on both sides a link is an invariant of a single run, which holds also
where the run breaks off.
-/
namespace Lox.Descent

variable {α β : Type}

/-- What holds between two runs. -/
structure Link where
  stream : Stream → Stream → Prop
  token : Token → Token → Prop
  failure : Error × Stream → Error × Stream → Prop

/-- Two runs end linked: both well, with results in the relation, or both with an error. -/
inductive Link.Ends (L : Link) (rel : α → α → Prop) :
    Except Error α × Stream → Except Error α × Stream → Prop where
  | ok {a b : α} {s s' : Stream} : rel a b → L.stream s s' → Ends L rel (.ok a, s) (.ok b, s')
  | error {e e' : Error} {s s' : Stream} : L.failure (e, s) (e', s') →
      Ends L rel (.error e, s) (.error e', s')

/-- On linked streams the two parsers end linked. -/
def Link.Keeps (L : Link) (rel : α → α → Prop) (p q : Parser α) : Prop :=
  ∀ s s', L.stream s s' → L.Ends rel (p.run s) (q.run s')

/-- Looking and consuming keep the link, linked tokens have the same meaning and text, and errors
about linked tokens are linked. -/
structure Link.Lawful (L : Link) : Prop where
  meaning : ∀ {t u : Token}, L.token t u → t.meaning = u.meaning
  lexeme : ∀ {t u : Token}, L.token t u → t.lexeme = u.lexeme
  peek : L.Keeps L.token peek peek
  advance : L.Keeps L.token advance advance
  missing : ∀ {s s' t u} (k : Kind) (note : String), L.stream s s' → L.token t u →
    L.failure (.missing k note t, s) (.missing k note u, s')
  noOperand : ∀ {s s' t u}, L.stream s s' → L.token t u → L.failure (.noOperand t, s) (.noOperand u, s')
  trailing : ∀ {s s' t u}, L.stream s s' → L.token t u → L.failure (.trailing t, s) (.trailing u, s')
  tooDeep : ∀ {s s'}, L.stream s s' → L.failure (.tooDeep s.here, s) (.tooDeep s'.here, s')

namespace Link

variable {L : Link}

/-! ## Rules -/

theorem Keeps.pure {rel : α → α → Prop} {a b : α} (h : rel a b) : L.Keeps rel (pure a) (pure b) :=
  fun _ _ hs => .ok h hs

theorem Keeps.throw {rel : α → α → Prop} {e e' : Error}
    (h : ∀ {s s'}, L.stream s s' → L.failure (e, s) (e', s')) :
    L.Keeps rel (throw e) (throw e') :=
  fun _ _ hs => .error (h hs)

theorem Keeps.bind {rel : α → α → Prop} {rel' : β → β → Prop} {p q : Parser α} {f g : α → Parser β}
    (hp : L.Keeps rel p q) (hf : ∀ a b, rel a b → L.Keeps rel' (f a) (g b)) :
    L.Keeps rel' (p >>= f) (q >>= g) := by
  intro s s' hs
  have hends := hp s s' hs
  rw [run_bind, run_bind]
  generalize p.run s = r at hends
  generalize q.run s' = r' at hends
  cases hends with
  | ok hrel hstream => exact hf _ _ hrel _ _ hstream
  | error hfailure => exact .error hfailure

theorem Keeps.map {rel : α → α → Prop} {rel' : β → β → Prop} {p q : Parser α} {f : α → β}
    (hp : L.Keeps rel p q) (hf : ∀ a b, rel a b → rel' (f a) (f b)) :
    L.Keeps rel' (f <$> p) (f <$> q) := by
  rw [← bind_pure_comp, ← bind_pure_comp]
  exact hp.bind fun a b hab => .pure (hf a b hab)

section

variable (hL : L.Lawful)

include hL

theorem Lawful.kind {t u : Token} (h : L.token t u) : t.kind = u.kind :=
  congrArg Meaning.kind (hL.meaning h)

/-! ## Tokens -/

theorem Lawful.check (kinds : List Kind) : L.Keeps Eq (check kinds) (check kinds) := by
  refine hL.peek.bind fun t u htu => .pure ?_
  rw [hL.kind htu]

theorem Lawful.accept (kinds : List Kind) : L.Keeps Eq (accept kinds) (accept kinds) := by
  refine (hL.check kinds).bind ?_
  rintro b _ rfl
  cases b with
  | true => exact hL.advance.bind fun _ _ _ => .pure rfl
  | false => exact .pure rfl

theorem Lawful.expect (k : Kind) (note : String) : L.Keeps L.token (expect k note) (expect k note) := by
  refine hL.peek.bind fun t u htu => ?_
  by_cases htk : t.kind = k
  · rw [if_pos htk, if_pos (hL.kind htu ▸ htk)]
    exact hL.advance
  · rw [if_neg htk, if_neg (hL.kind htu ▸ htk)]
    exact .throw fun hs => hL.missing k note hs htu

/-! ## Expressions -/

theorem Lawful.chainFrom {operand : Parser Expr} (h : L.Keeps Eq operand operand) (tier : Tier)
    (rounds : Nat) (left : Expr) :
    L.Keeps Eq (chainFrom operand tier rounds left) (chainFrom operand tier rounds left) := by
  induction rounds generalizing left with
  | zero => exact hL.peek.bind fun _ _ _ => .pure rfl
  | succ rounds ih =>
      refine hL.peek.bind fun t u htu => ?_
      rw [hL.kind htu]
      cases tier.op? u.kind with
      | none => exact .pure rfl
      | some op =>
          refine hL.advance.bind fun _ _ _ => h.bind ?_
          rintro right _ rfl
          exact ih _

theorem Lawful.chain {operand : Parser Expr} (h : L.Keeps Eq operand operand) (rounds : Nat)
    (tier : Tier) :
    L.Keeps Eq (chain rounds tier operand) (chain rounds tier operand) := by
  refine h.bind ?_
  rintro left _ rfl
  exact hL.chainFrom h tier rounds left

theorem Lawful.tierOver {unary : Parser Expr} (h : L.Keeps Eq unary unary) (rounds : Nat)
    (tier : Tier) :
    L.Keeps Eq (tierOver rounds unary tier) (tierOver rounds unary tier) := by
  let holds (_ : Nat) (p : Parser Expr) : Prop := L.Keeps Eq p p
  have hchain (tier : Tier) (operand : Parser Expr) (hoperand : holds (tier.rank + 1) operand) :
      holds tier.rank (Descent.chain rounds tier operand) := hL.chain hoperand rounds tier
  exact tierOver_rank (show holds 5 unary from h) hchain tier

/-- Linked tokens are the same leaf, or both none. -/
theorem Lawful.leaf? {t u : Token} (h : L.token t u) : leaf? t = leaf? u := by
  unfold Descent.leaf?
  rw [hL.meaning h]

theorem Lawful.primaryOver {opened : Parser Expr} (h : L.Keeps Eq opened opened) :
    L.Keeps Eq (primaryOver opened) (primaryOver opened) := by
  rw [primaryOver_eq]
  refine hL.peek.bind fun t u htu => ?_
  rw [hL.leaf? htu, hL.kind htu]
  cases Descent.leaf? u with
  | some l => exact hL.advance.bind fun _ _ _ => .pure rfl
  | none =>
      by_cases hp : u.kind = .mark .leftParen
      · simp only [if_pos hp]
        refine h.bind ?_
        rintro e _ rfl
        exact (hL.expect _ _).bind fun _ _ _ => .pure rfl
      · simp only [if_neg hp]
        exact .throw fun hs => hL.noOperand hs htu

theorem Lawful.nested {cost room : Nat} {inner : cost ≤ room → Parser Expr}
    (h : ∀ hle, L.Keeps Eq (inner hle) (inner hle)) :
    L.Keeps Eq (nested cost room inner) (nested cost room inner) := by
  refine hL.advance.bind fun _ _ _ => ?_
  by_cases hroom : cost ≤ room
  · simp only [dif_pos hroom]
    exact h hroom
  · simp only [dif_neg hroom]
    exact fun _ _ hs => .error (hL.tooDeep hs)

theorem Lawful.primary_of_unary {rounds room : Nat}
    (h : 13 ≤ room → L.Keeps Eq (Descent.unary rounds (room - 13)) (Descent.unary rounds (room - 13))) :
    L.Keeps Eq (primary rounds room) (primary rounds room) := by
  rw [Descent.primary]
  exact hL.primaryOver (hL.nested fun hroom => hL.tierOver (h hroom) rounds .logical)

/-- A sign or a parenthesis takes room, so the induction is on the room. -/
theorem Lawful.unary (rounds room : Nat) : L.Keeps Eq (unary rounds room) (unary rounds room) := by
  induction room using Nat.strongRecOn with
  | ind room ih =>
      rw [Descent.unary]
      refine hL.peek.bind fun t u htu => ?_
      rw [hL.kind htu]
      cases u.kind.unaryOp? with
      | none => exact hL.primary_of_unary fun hroom => ih (room - 13) (by omega)
      | some op =>
          refine (hL.nested fun hroom => ih (room - 1) (by omega)).bind ?_
          rintro e _ rfl
          exact .pure rfl

theorem Lawful.primary (rounds room : Nat) : L.Keeps Eq (primary rounds room) (primary rounds room) :=
  hL.primary_of_unary fun _ => hL.unary rounds (room - 13)

theorem Lawful.atTier (rounds room : Nat) (tier : Tier) :
    L.Keeps Eq (atTier rounds room tier) (atTier rounds room tier) :=
  hL.tierOver (hL.unary rounds room) rounds tier

theorem Lawful.expression (rounds room : Nat) :
    L.Keeps Eq (expression rounds room) (expression rounds room) :=
  hL.atTier rounds room .logical

/-! ## Statements and texts -/

theorem Lawful.declaration (rounds room : Nat) :
    L.Keeps Eq (declaration rounds room) (declaration rounds room) := by
  refine (hL.expect _ _).bind fun t u htu => ?_
  rw [hL.meaning htu, hL.lexeme htu]
  refine (hL.accept _).bind ?_
  rintro b _ rfl
  cases b with
  | true =>
      refine (hL.expression rounds room).bind ?_
      rintro e _ rfl
      exact .pure rfl
  | false => exact .pure rfl

theorem Lawful.statementBody (rounds room : Nat) :
    L.Keeps Eq (statementBody rounds room) (statementBody rounds room) := by
  refine (hL.accept _).bind ?_
  rintro b _ rfl
  cases b with
  | true => exact hL.declaration rounds room
  | false =>
      refine (hL.accept _).bind ?_
      rintro b _ rfl
      cases b with
      | true =>
          refine (hL.expression rounds room).bind ?_
          rintro e _ rfl
          exact .pure rfl
      | false =>
          refine (hL.expression rounds room).bind ?_
          rintro e _ rfl
          exact .pure rfl

theorem Lawful.statement (rounds room : Nat) :
    L.Keeps Eq (statement rounds room) (statement rounds room) := by
  refine (hL.statementBody rounds room).bind ?_
  rintro s _ rfl
  exact (hL.expect _ _).bind fun _ _ _ => .pure rfl

theorem Lawful.statements (rounds room count : Nat) :
    L.Keeps Eq (statements rounds room count) (statements rounds room count) := by
  induction count with
  | zero => exact hL.peek.bind fun _ _ _ => .pure rfl
  | succ count ih =>
      refine (hL.check _).bind ?_
      rintro b _ rfl
      cases b with
      | true => exact .pure rfl
      | false =>
          refine (hL.statement rounds room).bind ?_
          rintro s _ rfl
          refine ih.bind ?_
          rintro ss _ rfl
          exact .pure rfl

theorem Lawful.program (rounds room : Nat) : L.Keeps Eq (program rounds room) (program rounds room) :=
  hL.statements rounds room rounds

theorem Lawful.wholeExpression (rounds room : Nat) :
    L.Keeps Eq (wholeExpression rounds room) (wholeExpression rounds room) := by
  refine (hL.expression rounds room).bind ?_
  rintro e _ rfl
  refine hL.peek.bind fun t u htu => ?_
  have hend : t.isEnd = u.isEnd := congrArg (· == Kind.endOfInput) (hL.kind htu)
  rw [hend]
  cases u.isEnd with
  | true => exact .pure rfl
  | false => exact .throw fun hs => hL.trailing hs htu

end

end Link

/-! ## Streams that are alike -/

section

variable {R : Token → Token → Prop} {F : ScanError → ScanError → Prop} {P : Place → Place → Prop}

/-- The errors are of the same sort, and about related tokens, faults or places. -/
inductive Error.Alike (R : Token → Token → Prop) (F : ScanError → ScanError → Prop)
    (P : Place → Place → Prop) :
    Error → Error → Prop where
  | lexical {f g : ScanError} : F f g → Alike R F P (.lexical f) (.lexical g)
  | missing {t u : Token} (k : Kind) (note : String) : R t u →
      Alike R F P (.missing k note t) (.missing k note u)
  | noOperand {t u : Token} : R t u → Alike R F P (.noOperand t) (.noOperand u)
  | trailing {t u : Token} : R t u → Alike R F P (.trailing t) (.trailing u)
  | tooDeep {p q : Place} : P p q → Alike R F P (.tooDeep p) (.tooDeep q)

/-- The streams have related tokens left, and then related faults and ends of input, and they are
read up to related places. -/
structure Stream.Alike (R : Token → Token → Prop) (F : ScanError → ScanError → Prop)
    (P : Place → Place → Prop) (s s' : Stream) : Prop where
  buffered : Option.Rel R s.buffered s'.buffered
  ahead : List.Forall₂ R s.ahead s'.ahead
  fault : Option.Rel F s.fault s'.fault
  here : P s.here s'.here
  stop : R ⟨.endOfInput, s.stop, ""⟩ ⟨.endOfInput, s'.stop, ""⟩

/-- The link of two runs on streams that are alike, and stay so when the runs break off. -/
def alike (R : Token → Token → Prop) (F : ScanError → ScanError → Prop) (P : Place → Place → Prop) :
    Link where
  stream := Stream.Alike R F P
  token := R
  failure r r' := r.1.Alike R F P r'.1 ∧ r.2.Alike R F P r'.2

/-- Behind related tokens are related places. -/
theorem alike_peek (hP : ∀ {t u}, R t u → P t.behind u.behind) : (alike R F P).Keeps R peek peek := by
  rintro ⟨buffered, ahead, fault, here, stop⟩ ⟨buffered', ahead', fault', here', stop'⟩
    ⟨hbuffered, hahead, hfault, hhere, hstop⟩
  rw [run_peek, run_peek]
  -- Both streams have a token in the buffer or none, and so on for what is pulled.
  cases hbuffered with
  | some h => exact .ok h ⟨.some h, hahead, hfault, hhere, hstop⟩
  | none =>
      cases hahead with
      | cons h hahead => exact .ok h ⟨.some h, hahead, hfault, hP h, hstop⟩
      | nil =>
          cases hfault with
          | some h => exact .error ⟨.lexical h, .none, .nil, .none, hP hstop, hstop⟩
          | none => exact .ok hstop ⟨.some hstop, .nil, .none, hP hstop, hstop⟩

theorem lawful_alike (hR : ∀ {t u}, R t u → t.meaning = u.meaning ∧ t.lexeme = u.lexeme)
    (hP : ∀ {t u}, R t u → P t.behind u.behind) : (alike R F P).Lawful where
  meaning h := (hR h).1
  lexeme h := (hR h).2
  peek := alike_peek hP
  advance := by
    intro s s' hs
    have hpeek := alike_peek hP s s' hs
    rw [run_advance, run_advance]
    generalize peek.run s = r at hpeek
    generalize peek.run s' = r' at hpeek
    cases hpeek with
    | error h => exact .error h
    | @ok t u s s' h hs =>
        have hend : t.isEnd = u.isEnd := congrArg (·.kind == Kind.endOfInput) (hR h).1
        dsimp only
        rw [hend]
        cases u.isEnd with
        | true => exact .ok h hs
        | false => exact .ok h { hs with buffered := .none }
  missing k note hs h := ⟨.missing k note h, hs⟩
  noOperand hs h := ⟨.noOperand h, hs⟩
  trailing hs h := ⟨.trailing h, hs⟩
  tooDeep hs := ⟨.tooDeep hs.here, hs⟩

end

end Lox.Descent
