import Lox.Proofs.Descent.Runs
import Lox.Proofs.Grammar.Build
/-!
# `Parity.Simulation` — descent does what shifting and reducing does

A token is also a terminal, so a reader can be fed the tokens that the descent consumes. This file
shows that the descent never consumes a token that the reader refuses. When it has consumed an
operand of some rank, the reader has the same operand on top of what it had before, up to operators
that it has not closed yet; when it fails at a token, the reader refuses that token; and when it
fails at the end, the reader is not complete.

The statements are triples of `Descent.Runs` with one fixed condition on failure, `Reading.Rejects`.
-/
namespace Lox

/-- The terminal that a token is. -/
def Token.terminal (t : Token) : Grammar.Terminal := ⟨t.kind, t.lexeme, t.place⟩

namespace Parity

open Descent Grammar

/-! ## Leaves -/

theorem phrase?_of_leaf {t : Token} {l : Literal} (h : leaf? t = some l) :
    ∃ p, t.terminal.phrase? = some p ∧ (t.Genuine → p.expr? = some (.literal l)) := by
  obtain ⟨m, place, lexeme⟩ := t
  cases m with
  | mark m => cases m <;> cases h <;> exact ⟨_, rfl, fun _ => rfl⟩
  | identifier s =>
      cases h
      refine ⟨_, rfl, fun hg => ?_⟩
      have hs : lexeme = s := hg
      rw [← hs]
      rfl
  | string s =>
      cases h
      refine ⟨_, rfl, fun hg => ?_⟩
      have hs : String.ofList lexeme.toList.tail.dropLast = s := hg
      rw [← hs]
      rfl
  | number v =>
      cases h
      refine ⟨_, rfl, fun hg => ?_⟩
      obtain ⟨hread, hfinite⟩ : Number.read? lexeme.toList = some v ∧ Number.isInfinite v = false := hg
      simp [Terminal.number, Token.terminal, hread, hfinite, Except.toOption]
  | endOfInput => cases h

theorem phrase?_of_not_leaf {t : Token} (h : leaf? t = none) : t.terminal.phrase? = none := by
  obtain ⟨m, place, lexeme⟩ := t
  cases m with
  | mark m => cases m <;> simp_all [leaf?, Token.terminal, Token.kind, Meaning.kind, Terminal.phrase?]
  | identifier _ | string _ | number _ => cases h
  | endOfInput => rfl

/-! ## Readings -/

/-- What is read: the tokens of a text and what comes behind them, with the reader that they are fed
to and the room that the descent has for them. -/
structure Reading where
  start : Reader
  tokens : List Token
  proper : ∀ t ∈ tokens, t.isEnd = false
  ending : Ending
  room : Nat

namespace Reading

variable {w : Reading}

/-- The text of every token spells what it stands for. -/
def Genuine (w : Reading) : Prop := ∀ t ∈ w.tokens, t.Genuine

/-- The reader comes to `r` when all tokens but the last ones, `ts`, are shifted. -/
def Reached (w : Reading) (r : Reader) (ts : List Token) : Prop :=
  ∃ us, w.tokens = us ++ ts ∧ w.start.shiftAll (us.map Token.terminal) = .ok r

theorem reached_start (w : Reading) : w.Reached w.start w.tokens := ⟨[], rfl, rfl⟩

theorem Reached.mem {r : Reader} {t : Token} {ts : List Token} (h : w.Reached r (t :: ts)) :
    t ∈ w.tokens := by
  obtain ⟨us, hus, -⟩ := h
  simp [hus]

theorem Reached.length_le {r : Reader} {ts : List Token} (h : w.Reached r ts) :
    ts.length ≤ w.tokens.length := by
  obtain ⟨us, hus, -⟩ := h
  simp [hus]

theorem Reached.step {r r' : Reader} {t : Token} {ts : List Token} (h : w.Reached r (t :: ts))
    (ht : r.shift t.terminal = some r') : w.Reached r' ts := by
  obtain ⟨us, hus, hrun⟩ := h
  refine ⟨us ++ [t], by simp [hus], ?_⟩
  rw [List.map_append]
  exact shiftAll_append_ok.mpr ⟨r, hrun, shiftAll_cons_ok.mpr ⟨r', ht, rfl⟩⟩

/-! ## How the descent fails -/

/-- The error is about the token, and its class says whether the token is the end of input. -/
structure Blames (t : Token) (e : Descent.Error) : Prop where
  token : e.token? = some t
  atEnd : t.isEnd = true → e.tag = .endOfFile
  before : t.isEnd = false → e.tag = .badStructure ∨ e.tag = .badOperator ∨ e.tag = .unsupported

theorem blames_missing (k : Kind) (note : String) (t : Token) : Blames t (.missing k note t) where
  token := rfl
  atEnd ht := by simp [Descent.Error.tag, ht]
  before ht := by simp [Descent.Error.tag, ht]

theorem blames_trailing {t : Token} (ht : t.isEnd = false) : Blames t (.trailing t) where
  token := rfl
  atEnd h := by rw [ht] at h; cases h
  before _ := .inl rfl

/-- A token of the family of literals is a leaf, so no error of the last class is left. -/
theorem blames_noOperand {t : Token} (ht : leaf? t = none) : Blames t (.noOperand t) := by
  obtain ⟨m, place, lexeme⟩ := t
  refine ⟨rfl, fun hend => ?_, fun hend => ?_⟩
  · have hkind : m.kind = .endOfInput := eq_of_beq hend
    simp [Descent.Error.tag, Token.kind, hkind, Kind.family?]
  · cases m with
    | mark m =>
        cases m <;> simp_all [leaf?, Descent.Error.tag, Token.kind, Meaning.kind, Kind.family?,
          Mark.family]
    | identifier _ | string _ | number _ => cases ht
    | endOfInput => cases hend

/-- How the descent can fail, told by what the reader does. -/
inductive Rejects (w : Reading) : Descent.Error → Prop where
  /-- The reader shifts all tokens, and a fault comes behind them. -/
  | lexical {f r} : w.ending.fault = some f → w.Reached r [] → Rejects w (.lexical f)
  /-- There is no room behind the token. -/
  | tooDeep {t} : t ∈ w.tokens → w.room < 13 * w.tokens.length → Rejects w (.tooDeep t.behind)
  /-- The reader refuses the token. -/
  | refused {e t r ts} : Blames t e → w.Reached r (t :: ts) → r.shift t.terminal = none → Rejects w e
  /-- The reader shifts all tokens, and is not complete at the end of input. -/
  | unfinished {e r} : Blames w.ending.token e → w.ending.fault = none → w.Reached r [] →
      r.program? = none →
      r.phrase? = none → Rejects w e

theorem Reached.fault {r : Reader} {ts : List Token} {e : Descent.Error} (h : w.Reached r ts)
    (he : lookahead w.ending ts = .error e) : w.Rejects e := by
  obtain ⟨f, rfl, hf, rfl⟩ := lookahead_eq_error he
  exact .lexical hf h

theorem Reached.rejects {r : Reader} {ts : List Token} {t : Token} {e : Descent.Error}
    (h : w.Reached r ts) (ht : lookahead w.ending ts = .ok t) (hb : Blames t e)
    (hshift : r.shift t.terminal = none) (hprogram : r.program? = none) (hphrase : r.phrase? = none) :
    w.Rejects e := by
  rcases lookahead_eq_ok ht with ⟨us, rfl⟩ | ⟨rfl, hz, rfl⟩
  · exact .refused hb h hshift
  · exact .unfinished hb hz h hprogram hphrase

/-! ## Operands

Before an operand the reader wants one; that it stands before a statement comes to the same, as long
as there is a token that begins no other statement. -/

/-- The reader takes the next token as the beginning of an operand. -/
def Wants (w : Reading) (d : List Sentence) (pu : Purpose) (stack : List Open) (ts : List Token) :
    Prop :=
  ∃ r, w.Reached r ts ∧ (ts = [] → r = ⟨d, .operandWanted pu stack⟩) ∧
    ∀ t us, ts = t :: us → r.shift t.terminal = (shiftOperand pu stack t.terminal).map (⟨d, ·⟩)

variable {d : List Sentence} {pu : Purpose} {stack : List Open} {ts : List Token}

theorem Reached.wants (h : w.Reached ⟨d, .operandWanted pu stack⟩ ts) : w.Wants d pu stack ts :=
  ⟨_, h, fun _ => rfl, fun _ _ _ => rfl⟩

theorem Wants.length_le (h : w.Wants d pu stack ts) : ts.length ≤ w.tokens.length := by
  obtain ⟨r, hr, -⟩ := h
  exact hr.length_le

theorem Wants.mem {t : Token} (h : w.Wants d pu stack (t :: ts)) : t ∈ w.tokens := by
  obtain ⟨r, hr, -⟩ := h
  exact hr.mem

theorem Wants.step {t : Token} {s : State} (h : w.Wants d pu stack (t :: ts))
    (hb : Begins pu stack t.terminal s) :
    w.Reached ⟨d, s⟩ ts := by
  obtain ⟨r, hr, -, hshift⟩ := h
  apply hr.step
  rw [hshift t ts rfl, shiftOperand_eq_some.mpr hb]
  rfl

theorem Wants.fault {e : Descent.Error} (h : w.Wants d pu stack ts)
    (he : lookahead w.ending ts = .error e) :
    w.Rejects e := by
  obtain ⟨r, hr, -⟩ := h
  exact hr.fault he

/-- The reader refuses what begins no operand, as the descent does. -/
theorem Wants.rejects {t : Token} (h : w.Wants d pu stack ts) (ht : lookahead w.ending ts = .ok t)
    (hleaf : leaf? t = none) (hsign : t.kind.unaryOp? = none) (hparen : t.kind ≠ .mark .leftParen) :
    w.Rejects (.noOperand t) := by
  obtain ⟨r, hr, hnil, hshift⟩ := h
  have hnone : shiftOperand pu stack t.terminal = none := by
    apply Option.eq_none_iff_forall_ne_some.mpr
    intro s hs
    cases shiftOperand_eq_some.mp hs with
    | leaf hp => rw [phrase?_of_not_leaf hleaf] at hp; cases hp
    | sign hop => cases hsign.symm.trans hop
    | paren hk => exact hparen hk
  rcases lookahead_eq_ok ht with ⟨us, rfl⟩ | ⟨rfl, hz, rfl⟩
  · exact .refused (blames_noOperand hleaf) hr (by rw [hshift t us rfl, hnone]; rfl)
  · obtain rfl := hnil rfl
    exact .unfinished (blames_noOperand hleaf) hz hr rfl rfl

/-- The descent has read an operand `e`, and what the reader has on top of the stack amounts to it
before an operator of at most rank `k`. What follows is no operator of at least rank `stop`. -/
structure Behind (w : Reading) (k stop : Nat) (d : List Sentence) (pu : Purpose) (stack : List Open)
    (size : Nat) (e : Expr) (us : List Token) : Prop where
  shorter : us.length < size
  read : ∃ stack' p q, w.Reached ⟨d, .operandRead pu stack' p⟩ us ∧
    (∀ rank ≤ k, reduce rank stack' p = reduce rank stack q) ∧ (w.Genuine → q.expr? = some e)
  stops : ∀ t, lookahead w.ending us = .ok t → ∀ op, t.kind.binaryOp? = some op → op.tier.rank < stop

/-- There is no operator above all tiers. -/
theorem stops_five {us : List Token} :
    ∀ t, lookahead w.ending us = .ok t → ∀ op, t.kind.binaryOp? = some op → op.tier.rank < 5 :=
  fun _ _ op _ => Nat.lt_succ_of_le op.tier.rank_le_four

/-- Reading an operand of rank `k` takes the reader behind it. -/
def Follows (w : Reading) (rounds room k : Nat) (p : Parser Expr) : Prop :=
  ∀ d pu stack ts, ts.length ≤ rounds → w.room + 13 * ts.length ≤ room + 13 * w.tokens.length →
    w.Wants d pu stack ts → Shielded k stack →
    Runs w.ending p ts (w.Behind k k d pu stack ts.length) w.Rejects

variable {rounds room : Nat}

/-- One operator and the operand behind it: the reader closes the left operand, which the stack
below shields from anything looser, and opens the right one. -/
theorem Behind.operator {tier : Tier} {op : BinaryOp} {size : Nat} {left : Expr} {t : Token}
    {us : List Token} {operand : Parser Expr}
    (h : w.Behind tier.rank (tier.rank + 1) d pu stack size left (t :: us))
    (hoperand : w.Follows rounds room (tier.rank + 1) operand) (hshield : Shielded tier.rank stack)
    (hop : tier.op? t.kind = some op) (hlen : us.length ≤ rounds)
    (hroom : w.room + 13 * us.length ≤ room + 13 * w.tokens.length) :
    Runs w.ending operand us (fun right vs => vs.length ≤ us.length ∧
      w.Behind tier.rank (tier.rank + 1) d pu stack size (.binary op left right) vs) w.Rejects := by
  obtain ⟨hbinary, rfl⟩ := op?_eq_some.mp hop
  obtain ⟨hshorter, ⟨stack', p, q, hreached, hreduce, hq⟩, -⟩ := h
  have hclosed : reduce (layer op) stack' p = (stack, q) := by
    rw [layer_eq, hreduce _ (Nat.le_refl _), reduce_of_shielded hshield]
  have hopened : w.Reached ⟨d, .operandWanted pu (.left q op :: stack)⟩ us :=
    hreached.step (shift_eq_some.mpr (.operator hbinary hclosed))
  have hshield' : Shielded (op.tier.rank + 1) (.left q op :: stack) :=
    Nat.lt_succ_of_le (layer_eq op).le
  refine (hoperand d pu _ us hlen hroom hopened.wants hshield').mono ?_ (fun _ he => he)
  rintro right vs ⟨hvs, ⟨stack'', p', q', hreached', hreduce', hq'⟩, hstops⟩
  refine ⟨Nat.le_of_lt hvs, ?_, ⟨stack'', p', .binary op q q', hreached', fun rank hrank => ?_,
    fun hg => ?_⟩, hstops⟩
  · simp only [List.length_cons] at hshorter
    omega
  · rw [hreduce' rank (Nat.le_succ_of_le hrank), reduce_left (hrank.trans (layer_eq op).ge)]
  · simp [hq hg, hq' hg]

/-- A row of operands, given its operands one tier up. -/
theorem follows_chain {tier : Tier} {operand : Parser Expr}
    (h : w.Follows rounds room (tier.rank + 1) operand) :
    w.Follows rounds room tier.rank (chain rounds tier operand) := by
  intro d pu stack ts hlen hroom hwants hshield
  refine Runs.bind (h d pu stack ts hlen hroom hwants hshield.succ) ?_
  intro left us hleft
  -- What holds between two operands of the row: the left ones amount to one operand of its rank.
  have hrow : w.Behind tier.rank (tier.rank + 1) d pu stack ts.length left us := by
    obtain ⟨hshorter, ⟨stack', p, q, hreached, hreduce, hq⟩, hstops⟩ := hleft
    exact ⟨hshorter, ⟨stack', p, q, hreached, fun rank hrank =>
      hreduce rank (Nat.le_succ_of_le hrank), hq⟩, hstops⟩
  -- The row ends before an operator of a looser tier: none of a tighter one can follow an operand.
  refine Runs.chainFrom ?_ ?_ ?_ rounds left us ?_ hrow
  · intro left us t hbehind ht hop
    refine ⟨hbehind.shorter, hbehind.read, fun u hu op hbinary => ?_⟩
    obtain rfl : t = u := Except.ok.inj (ht.symm.trans hu)
    have hle := hbehind.stops t ht op hbinary
    have hne : op.tier.rank ≠ tier.rank :=
      fun hrank => op?_eq_none.mp hop op hbinary (Tier.rank_injective hrank)
    omega
  · intro left t us op hbehind hop
    have hshorter := hbehind.shorter
    simp only [List.length_cons] at hshorter
    exact hbehind.operator h hshield hop (by omega) (by omega)
  · intro left us e hbehind he
    obtain ⟨stack', p, q, hreached, -⟩ := hbehind.read
    exact hreached.fault he
  · have := hleft.shorter
    omega

/-- An expression in parentheses, where there is room for one. -/
theorem runs_parenthesis {t : Token} {us : List Token} (hwants : w.Wants d pu stack (t :: us))
    (ht : t.kind = .mark .leftParen) (hlen : (t :: us).length ≤ rounds)
    (hroom : w.room + 13 * (t :: us).length ≤ room + 13 * w.tokens.length) (hle : 13 ≤ room)
    (hinner : w.Follows rounds (room - 13) 5 (Descent.unary rounds (room - 13))) :
    Runs w.ending (tierOver rounds (Descent.unary rounds (room - 13)) .logical) us
      (w.Behind 0 0 d pu (.paren :: stack) us.length) w.Rejects := by
  have hopened := (hwants.step (.paren ht)).wants
  simp only [List.length_cons] at hlen hroom
  have hfollows := tierOver_rank hinner (fun tier operand h => follows_chain h) .logical
  exact hfollows d pu _ us (by omega) (by omega) hopened trivial

/-- Behind what a parenthesis holds, the reader takes the closing one and nothing else. -/
theorem Behind.close {size : Nat} {e : Expr} {us : List Token}
    (h : w.Behind 0 0 d pu (.paren :: stack) size e us) :
    (∀ c vs, us = c :: vs → c.kind = .mark .rightParen → w.Behind 5 5 d pu stack size (.group e) vs) ∧
    (∀ t, lookahead w.ending us = .ok t → t.kind ≠ .mark .rightParen →
      w.Rejects (.missing (.mark .rightParen) "Expected ')' after expression" t)) ∧
    (∀ e, lookahead w.ending us = .error e → w.Rejects e) := by
  obtain ⟨hshorter, ⟨stack', p, q, hreached, hreduce, hq⟩, hstops⟩ := h
  have hclosed : reduceAll stack' p = (.paren :: stack, q) := hreduce 0 (Nat.le_refl 0)
  refine ⟨?_, ?_, fun e he => hreached.fault he⟩
  · rintro c vs rfl hc
    have hgroup : w.Reached ⟨d, .operandRead pu stack (.group q)⟩ vs :=
      hreached.step (shift_eq_some.mpr (.close hc hclosed))
    simp only [List.length_cons] at hshorter
    exact ⟨by omega, ⟨stack, _, .group q, hgroup, fun _ _ => rfl, fun hg => by simp [hq hg]⟩,
      stops_five⟩
  · intro t ht hne
    refine hreached.rejects ht (blames_missing _ _ t) ?_ rfl ?_
    -- No operator follows, and the open parenthesis stands between the reader and
    -- the end of a sentence.
    · apply Option.eq_none_iff_forall_ne_some.mpr
      intro r' hr'
      cases shift_eq_some.mp hr' with
      | operator hop _ => exact absurd (hstops t ht _ hop) (Nat.not_lt_zero _)
      | close hk _ => exact hne hk
      | finish _ hr _ => cases hclosed.symm.trans hr
    · unfold Reader.phrase?
      split
      · rename_i hs
        cases hs
        rw [hclosed]
      · rfl

/-- What no binary operator takes apart, by induction on the room: a sign takes one level of it, a
parenthesis thirteen. The stack may end in signs, which an operator of any rank closes. -/
theorem runs_unary (rounds room : Nat) : ∀ d pu stack ts, ts.length ≤ rounds →
    w.room + 13 * ts.length ≤ room + 13 * w.tokens.length → w.Wants d pu stack ts →
    Runs w.ending (unary rounds room) ts (w.Behind 5 5 d pu stack ts.length) w.Rejects := by
  induction room using Nat.strongRecOn with
  | ind room ih =>
      intro d pu stack ts hlen hroom hwants
      have hle := hwants.length_le
      refine Runs.unary ?_ ?_ (fun hsign => ?_) (fun e he => hwants.fault he)
      -- A sign stays on the stack while its operand is read.
      · rintro t us op rfl hop hr
        have hopened := (hwants.step (.sign hop)).wants
        simp only [List.length_cons] at hlen hroom ⊢
        refine (ih (room - 1) (by omega) d pu _ us (by omega) (by omega) hopened).mono ?_
          (fun _ he => he)
        rintro e vs ⟨hvs, ⟨stack', p, q, hreached, hreduce, hq⟩, hstops⟩
        refine ⟨by omega, ⟨stack', p, .unary op q, hreached, fun rank hrank => ?_, fun hg => ?_⟩,
          hstops⟩
        · rw [hreduce rank hrank, reduce_sign]
        · simp [hq hg]
      · rintro t us op rfl - rfl
        simp only [List.length_cons] at hroom
        exact .tooDeep hwants.mem (by omega)
      · -- There is a leaf, a parenthesis with or without room for what it holds, or no operand.
        refine Runs.primary ?_ ?_ ?_ ?_ (fun e he => hwants.fault he)
        · rintro t us l rfl hl
          obtain ⟨p, hp, hexpr⟩ := phrase?_of_leaf hl
          have hread := hwants.step (.leaf hp)
          exact ⟨by simp, ⟨stack, p, p, hread, fun _ _ => rfl, fun hg => hexpr (hg t hwants.mem)⟩,
            stops_five⟩
        · rintro t us rfl ht hr
          refine (runs_parenthesis hwants ht hlen hroom hr ?_).mono (fun e vs hvs => ?_)
            (fun _ he => he)
          · intro d pu stack ts hlen hroom hwants _
            exact ih (room - 13) (by omega) d pu stack ts hlen hroom hwants
          · obtain ⟨hclose, hmiss, hfault⟩ := hvs.close
            refine ⟨fun c ws hc hk => ?_, hmiss, hfault⟩
            obtain ⟨hshorter, hread, hstops⟩ := hclose c ws hc hk
            exact ⟨by simp only [List.length_cons]; omega, hread, hstops⟩
        · rintro t us rfl - hr
          simp only [List.length_cons] at hroom hle
          exact .tooDeep hwants.mem (by omega)
        · intro t ht hleaf hparen
          exact hwants.rejects ht hleaf (hsign t ht) hparen

theorem follows_expression (rounds room : Nat) : w.Follows rounds room 0 (expression rounds room) :=
  tierOver_rank (fun d pu stack ts hlen hroom hwants _ =>
    runs_unary rounds room d pu stack ts hlen hroom hwants)
    (fun _ _ h => follows_chain h) .logical

/-! ## Statements -/

/-- The descent has read a statement up to its semicolon, and the reader takes a
semicolon and nothing else. -/
structure Ready (w : Reading) (d : List Sentence) (size : Nat) (st : Stmt) (us : List Token) :
    Prop where
  shorter : us.length ≤ size
  read : ∃ r sent, w.Reached r us ∧ r.program? = none ∧ r.phrase? = none ∧
    (w.Genuine → sent.stmt? = some st) ∧
    ∀ t, lookahead w.ending us = .ok t →
      r.shift t.terminal = if t.kind = .mark .semicolon then some ⟨sent :: d, .between⟩ else none

theorem Ready.mono {size size' : Nat} {st : Stmt} {us : List Token} (h : w.Ready d size st us)
    (hle : size ≤ size') :
    w.Ready d size' st us :=
  ⟨Nat.le_trans h.shorter hle, h.read⟩

/-- Behind the expression of a statement, the reader takes the semicolon. -/
theorem Behind.ready {size : Nat} {e : Expr} {us : List Token} {sentence : Phrase → Sentence}
    {st : Stmt} (h : w.Behind 0 0 d pu [] size e us) (hpu : ∀ q, pu.sentence? q = some (sentence q))
    (hst : w.Genuine → ∀ q, q.expr? = some e → (sentence q).stmt? = some st) :
    w.Ready d size st us := by
  obtain ⟨hshorter, ⟨stack', p, q, hreached, hreduce, hq⟩, hstops⟩ := h
  have hclosed : reduceAll stack' p = ([], q) := hreduce 0 (Nat.le_refl 0)
  refine ⟨Nat.le_of_lt hshorter, _, sentence q, hreached, rfl, ?_, fun hg => hst hg q (hq hg),
    fun t ht => ?_⟩
  · unfold Reader.phrase?
    split
    · rename_i hs
      cases hs
      cases hpu q
    · rfl
  · split
    · rename_i hk
      exact shift_eq_some.mpr (.finish hk hclosed (hpu q))
    · rename_i hk
      apply Option.eq_none_iff_forall_ne_some.mpr
      intro r' hr'
      -- No operator follows, and no parenthesis is open.
      cases shift_eq_some.mp hr' with
      | operator hop _ => exact absurd (hstops t ht _ hop) (Nat.not_lt_zero _)
      | close _ hr => cases hclosed.symm.trans hr
      | finish hk' _ _ => exact hk hk'

/-- An expression of a statement. -/
theorem runs_expression {sentence : Phrase → Sentence} {stmt : Expr → Stmt}
    (hwants : w.Wants d pu [] ts) (hlen : ts.length ≤ rounds)
    (hroom : w.room + 13 * ts.length ≤ room + 13 * w.tokens.length)
    (hpu : ∀ q, pu.sentence? q = some (sentence q))
    (hst : w.Genuine → ∀ q e, q.expr? = some e → (sentence q).stmt? = some (stmt e)) :
    Runs w.ending (do return stmt (← expression rounds room)) ts (w.Ready d ts.length) w.Rejects := by
  refine Runs.bind (follows_expression rounds room d pu [] ts hlen hroom hwants trivial) ?_
  intro e us hbehind
  exact Runs.pure (hbehind.ready hpu fun hg q => hst hg q e)

theorem runs_declaration (hreached : w.Reached ⟨d, .nameWanted⟩ ts) (hlen : ts.length ≤ rounds)
    (hroom : w.room + 13 * ts.length ≤ room + 13 * w.tokens.length) :
    Runs w.ending (declaration rounds room) ts (w.Ready d ts.length) w.Rejects := by
  refine Runs.expect_bind (by decide) ?_ ?_ (fun e he => hreached.fault he)
  · rintro t us rfl hk
    have hnamed : w.Reached ⟨d, .nameRead t.lexeme⟩ us := hreached.step (shift_eq_some.mpr (.name hk))
    -- The name is taken from what the token stands for; the reader takes it from its text.
    obtain ⟨name, hmeaning⟩ : ∃ name, t.meaning = .identifier name := by
      obtain ⟨m, place, lexeme⟩ := t
      cases m with
      | identifier name => exact ⟨name, rfl⟩
      | mark _ | string _ | number _ | endOfInput => cases hk
    have hname : w.Genuine → t.lexeme = name := by
      intro hg
      have := hg t hreached.mem
      rwa [Token.Genuine, hmeaning] at this
    simp only [List.length_cons, hmeaning] at hlen hroom ⊢
    refine Runs.accept_bind (by decide) ?_ ?_ (fun e he => hnamed.fault he)
    · rintro t' vs rfl hk'
      have hassigned : w.Reached ⟨d, .operandWanted (.declare t.lexeme) []⟩ vs :=
        hnamed.step (shift_eq_some.mpr (.assign hk'))
      simp only [List.length_cons] at hlen hroom ⊢
      refine (runs_expression hassigned.wants (by omega) (by omega) (fun _ => rfl)
        fun hg q e hq => ?_).mono (fun _ _ hready => hready.mono (by omega)) (fun _ he => he)
      simp [hq, hname hg]
    -- Without an initial value the declaration ends behind the name.
    · intro t' ht' hk'
      refine Runs.pure ⟨by omega, _, .declare t.lexeme none, hnamed, rfl, rfl, fun hg => ?_,
        fun u hu => ?_⟩
      · rw [hname hg]; rfl
      · obtain rfl : t' = u := Except.ok.inj (ht'.symm.trans hu)
        split
        · rename_i hsemi
          exact shift_eq_some.mpr (.declared hsemi)
        · rename_i hsemi
          apply Option.eq_none_iff_forall_ne_some.mpr
          intro r' hr'
          cases shift_eq_some.mp hr' with
          | assign hk => exact hk' hk
          | declared hk => exact hsemi hk
  · intro t ht hk
    refine hreached.rejects ht (blames_missing _ _ t) ?_ rfl rfl
    apply Option.eq_none_iff_forall_ne_some.mpr
    intro r' hr'
    cases shift_eq_some.mp hr' with
    | name hk' => exact hk hk'

theorem runs_statementBody {t : Token} {us : List Token}
    (hreached : w.Reached ⟨d, .between⟩ (t :: us)) (hlen : (t :: us).length ≤ rounds)
    (hroom : w.room + 13 * (t :: us).length ≤ room + 13 * w.tokens.length) :
    Runs w.ending (statementBody rounds room) (t :: us) (w.Ready d (t :: us).length) w.Rejects := by
  have hfault : ∀ e, lookahead w.ending (t :: us) = .error e → w.Rejects e :=
    fun e he => hreached.fault he
  refine Runs.accept_bind (by decide) ?_ ?_ hfault
  · rintro _ _ ⟨⟩ hk
    simp only [List.length_cons] at hlen hroom ⊢
    have hvar : w.Reached ⟨d, .nameWanted⟩ us := hreached.step (shift_eq_some.mpr (.var hk))
    exact (runs_declaration hvar (by omega) (by omega)).mono (fun _ _ h => h.mono (by omega))
      (fun _ he => he)
  · rintro _ ⟨⟩ hvar
    refine Runs.accept_bind (by decide) ?_ ?_ hfault
    · rintro _ _ ⟨⟩ hk
      simp only [List.length_cons] at hlen hroom ⊢
      have hprint : w.Reached ⟨d, .operandWanted .print []⟩ us :=
        hreached.step (shift_eq_some.mpr (.print hk))
      refine (runs_expression hprint.wants (by omega) (by omega) (fun _ => rfl) fun _ q e hq => ?_).mono
        (fun _ _ h => h.mono (by omega)) (fun _ he => he)
      simp [hq]
    · rintro _ ⟨⟩ hprint
      -- The token begins no other statement, so the reader takes it as it would
      -- inside an expression.
      have hwants : w.Wants d .expression [] (t :: us) := by
        refine ⟨_, hreached, (by intro h; cases h), ?_⟩
        rintro _ _ ⟨⟩
        simp only [Reader.shift]
        split
        · rename_i hk; exact absurd hk hprint
        · rename_i hk; exact absurd hk hvar
        · rfl
      refine runs_expression hwants hlen hroom (fun _ => rfl) ?_
      intro _ q e hq
      simp [hq]

/-- A statement is a sentence of the reader. -/
theorem runs_statement {t : Token} {us : List Token} (hreached : w.Reached ⟨d, .between⟩ (t :: us))
    (hlen : (t :: us).length ≤ rounds)
    (hroom : w.room + 13 * (t :: us).length ≤ room + 13 * w.tokens.length) :
    Runs w.ending (statement rounds room) (t :: us) (fun st vs => vs.length < (t :: us).length ∧
      ∃ sent, w.Reached ⟨sent :: d, .between⟩ vs ∧ (w.Genuine → sent.stmt? = some st)) w.Rejects := by
  refine Runs.bind (runs_statementBody hreached hlen hroom) ?_
  intro st vs hready
  obtain ⟨hshorter, r, sent, hr, hprogram, hphrase, hsent, hshift⟩ := hready
  refine Runs.expect_bind (by decide) ?_ ?_ (fun e he => hr.fault he)
  · rintro c xs rfl hc
    have hstep : r.shift c.terminal = some ⟨sent :: d, .between⟩ := by rw [hshift c rfl, if_pos hc]
    simp only [List.length_cons] at hshorter ⊢
    exact Runs.pure ⟨by omega, sent, hr.step hstep, hsent⟩
  · intro c hc hk
    have hnone : r.shift c.terminal = none := by rw [hshift c hc, if_neg hk]
    exact hr.rejects hc (blames_missing _ _ c) hnone hprogram hphrase

/-- Statements up to the end of input are the sentences that the reader completes. -/
theorem runs_statements (count : Nat) : ∀ d ts, ts.length ≤ rounds → ts.length ≤ count →
    w.room + 13 * ts.length ≤ room + 13 * w.tokens.length → w.Reached ⟨d, .between⟩ ts →
    Runs w.ending (statements rounds room count) ts (fun sts _ => w.ending.fault = none ∧
      ∃ sents : List Sentence, w.Reached ⟨sents.reverse ++ d, .between⟩ [] ∧
        (w.Genuine → sents.mapM Sentence.stmt? = some sts)) w.Rejects := by
  induction count with
  | zero =>
      intro d ts _ hcount _ hreached
      obtain rfl : ts = [] := List.length_eq_zero_iff.mp (Nat.le_zero.mp hcount)
      refine Runs.peek_bind (fun t ht => Runs.pure ?_) (fun e he => hreached.fault he)
      obtain ⟨us, hus⟩ | ⟨-, hz, -⟩ := lookahead_eq_ok ht
      · cases hus
      · exact ⟨hz, [], hreached, fun _ => rfl⟩
  | succ count ih =>
      intro d ts hlen hcount hroom hreached
      refine Runs.check_end_bind ?_ ?_ (fun e he => hreached.fault he)
      · rintro rfl hz
        exact Runs.pure ⟨hz, [], hreached, fun _ => rfl⟩
      · rintro t us rfl
        refine Runs.bind (runs_statement hreached hlen hroom) ?_
        rintro st vs ⟨hvs, sent, hsent, hst⟩
        refine Runs.bind (ih (sent :: d) vs (by omega) (by omega) (by omega) hsent) ?_
        rintro sts xs ⟨hz, sents, hreached', hsts⟩
        refine Runs.pure ⟨hz, sent :: sents, by simpa using hreached', fun hg => ?_⟩
        simp [hst hg, hsts hg]

/-! ## Whole texts -/

/-- How the descent ends: it rejects, or the reader is complete at the end of input with something
of which the result is the value. -/
inductive Ends {α β : Type} (w : Reading) (complete? : Reader → Option α) (value? : α → Option β) :
    Except Descent.Error β → Prop where
  | accepted {r a b} : w.ending.fault = none → w.Reached r [] → complete? r = some a →
      (w.Genuine → value? a = some b) →
      Ends w complete? value? (.ok b)
  | rejected {e} : w.Rejects e → Ends w complete? value? (.error e)

theorem ends_of_runs {α β : Type} {complete? : Reader → Option α} {value? : α → Option β}
    {p : Parser β} {s : Stream}
    (h : Runs w.ending p w.tokens (fun b _ => w.ending.fault = none ∧ ∃ r a, w.Reached r [] ∧
      complete? r = some a ∧ (w.Genuine → value? a = some b)) w.Rejects)
    (hs : Gives w.ending s w.tokens) : w.Ends complete? value? (p.run s).1 := by
  obtain ⟨b, _, hb, hz, r, a, hr, ha, hvalue⟩ | ⟨e, he, hrejects⟩ := h.result hs
  · rw [hb]; exact .accepted hz hr ha hvalue
  · rw [he]; exact .rejected hrejects

/-- How reading a program ends. -/
theorem ends_program {s : Stream} (hstart : w.start = .forProgram) (hs : Gives w.ending s w.tokens)
    (hlen : w.tokens.length ≤ rounds) :
    w.Ends Reader.program? (List.mapM Sentence.stmt?) ((program rounds w.room).run s).1 := by
  have hreached : w.Reached ⟨[], .between⟩ w.tokens := by
    have h := w.reached_start
    rwa [hstart] at h
  refine ends_of_runs
    ((runs_statements rounds [] w.tokens hlen hlen (Nat.le_refl _) hreached).mono ?_
      (fun _ he => he)) hs
  rintro sts _ ⟨hz, sents, hr, hsts⟩
  exact ⟨hz, _, sents, hr, by simp [Reader.program?], hsts⟩

/-- How reading an expression ends. -/
theorem ends_wholeExpression {s : Stream} (hstart : w.start = .forExpr) (hs : Gives w.ending s w.tokens)
    (hlen : w.tokens.length ≤ rounds) :
    w.Ends Reader.phrase? Phrase.expr? ((wholeExpression rounds w.room).run s).1 := by
  have hreached : w.Reached ⟨[], .operandWanted .alone []⟩ w.tokens := by
    have h := w.reached_start
    rwa [hstart] at h
  refine ends_of_runs ?_ hs
  refine Runs.bind
    (follows_expression rounds w.room [] .alone [] w.tokens hlen (Nat.le_refl _) hreached.wants
      trivial) ?_
  intro e us hbehind
  obtain ⟨-, ⟨stack, p, q, hr, hreduce, hq⟩, hstops⟩ := hbehind
  have hclosed : reduceAll stack p = ([], q) := hreduce 0 (Nat.le_refl 0)
  refine Runs.peek_bind (fun t ht => ?_) (fun e he => hr.fault he)
  obtain ⟨vs, rfl⟩ | ⟨rfl, hz, rfl⟩ := lookahead_eq_ok ht
  · have hend : t.isEnd = false := w.proper t hr.mem
    rw [hend]
    refine Runs.throw (.refused (blames_trailing hend) hr ?_)
    apply Option.eq_none_iff_forall_ne_some.mpr
    intro r' hr'
    cases shift_eq_some.mp hr' with
    | operator hop _ => exact absurd (hstops t ht _ hop) (Nat.not_lt_zero _)
    | close _ hred => cases hclosed.symm.trans hred
    | finish _ _ hsent => cases hsent
  · exact Runs.pure ⟨hz, _, q, hr, by simp [Reader.phrase?, hclosed], hq⟩

end Reading
end Parity
end Lox
