import Lox.Proofs.Precedence
import Lox.Proofs.Scan.Items
/-!
# `Descent.Runs` — what a step of reading does to the tokens that are left

A stream buffers one token, and the end of input for ever; a parser only cares about the tokens that
it has not consumed and about what comes behind them. `Gives` says what these are, and `Runs` is the
triple of a parser over them: on tokens `ts` it either ends with a result and the tokens that it
leaves, or with an error. Every fact about the parsers is proved with the rules of this file, so
that the buffer is looked at only here.
-/
namespace Lox.Descent

variable {α β : Type}

/-! ## What a stream gives -/

/-- What comes behind the tokens of a stream: a fault, or else the end of input at a place. -/
structure Ending where
  fault : Option ScanError
  stop : Place

/-- The token for the end of input. -/
def Ending.token (z : Ending) : Token := ⟨.endOfInput, z.stop, ""⟩

/-- The stream has the tokens left, and then the ending. -/
structure Gives (z : Ending) (s : Stream) (ts : List Token) : Prop where
  /-- None of the tokens is the end of input. -/
  proper : ∀ t ∈ ts, t.isEnd = false
  stop : s.stop = z.stop
  /-- Reading has come to the end of what is buffered. -/
  reached : ∀ t, s.buffered = some t → s.here = t.behind
  held : (s.buffered = none ∧ s.ahead = ts ∧ s.fault = z.fault) ∨
    (∃ t, s.buffered = some t ∧ ts = t :: s.ahead ∧ s.fault = z.fault) ∨
    (s.buffered = some z.token ∧ ts = [] ∧ z.fault = none)

/-- What looking at the next token tells. -/
def lookahead (z : Ending) : List Token → Except Error Token
  | t :: _ => .ok t
  | [] =>
    match z.fault with
    | some e => .error (.lexical e)
    | none => .ok z.token

@[simp] theorem lookahead_cons (z : Ending) (t : Token) (ts : List Token) :
    lookahead z (t :: ts) = .ok t :=
  rfl

/-- What is seen is the next token, or the ending of a stream without tokens and faults. -/
theorem lookahead_eq_ok {z : Ending} {ts : List Token} {t : Token} (h : lookahead z ts = .ok t) :
    (∃ us, ts = t :: us) ∨ (ts = [] ∧ z.fault = none ∧ t = z.token) := by
  cases ts with
  | cons u us =>
      rw [lookahead_cons] at h
      exact .inl ⟨us, by rw [Except.ok.inj h]⟩
  | nil =>
      unfold lookahead at h
      cases hf : z.fault with
      | some e => rw [hf] at h; cases h
      | none =>
          rw [hf] at h
          exact .inr ⟨rfl, rfl, (Except.ok.inj h).symm⟩

/-- Looking fails only at the fault behind the last token. -/
theorem lookahead_eq_error {z : Ending} {ts : List Token} {e : Error} (h : lookahead z ts = .error e) :
    ∃ f, ts = [] ∧ z.fault = some f ∧ e = .lexical f := by
  cases ts with
  | cons u us => rw [lookahead_cons] at h; cases h
  | nil =>
      unfold lookahead at h
      cases hf : z.fault with
      | none => rw [hf] at h; cases h
      | some f =>
          rw [hf] at h
          exact ⟨f, rfl, rfl, (Except.error.inj h).symm⟩

/-- The error is for want of room, wherever reading has come to. -/
def Error.IsTooDeep (e : Error) : Prop := ∃ p, e = .tooDeep p

/-- The result is an error for want of room. -/
def TooDeep (x : Except Error α) : Prop := ∃ p, x = .error (.tooDeep p)

/-! ## Triples -/

/-- From tokens `ts` the parser ends with a result and tokens in `post`, or with an error in
`fail`. -/
def Runs (z : Ending) (p : Parser α) (ts : List Token) (post : α → List Token → Prop)
    (fail : Error → Prop) : Prop :=
  ∀ s, Gives z s ts →
    (∃ a s' us, p.run s = (.ok a, s') ∧ Gives z s' us ∧ post a us) ∨
    (∃ e s', p.run s = (.error e, s') ∧ fail e)

variable {z : Ending} {p : Parser α} {ts : List Token} {post : α → List Token → Prop}
    {fail : Error → Prop}

theorem Runs.mono {post' : α → List Token → Prop} {fail' : Error → Prop} (h : Runs z p ts post fail)
    (hpost : ∀ a us, post a us → post' a us) (hfail : ∀ e, fail e → fail' e) :
    Runs z p ts post' fail' := by
  intro s hs
  rcases h s hs with ⟨a, s', us, hr, hg, hp⟩ | ⟨e, s', hr, he⟩
  · exact .inl ⟨a, s', us, hr, hg, hpost a us hp⟩
  · exact .inr ⟨e, s', hr, hfail e he⟩

/-- The end of input is never among the tokens. -/
theorem Runs.of_proper (h : (∀ t ∈ ts, t.isEnd = false) → Runs z p ts post fail) :
    Runs z p ts post fail :=
  fun s hs => h hs.proper s hs

theorem Runs.pure {a : α} (h : post a ts) : Runs z (pure a) ts post fail :=
  fun s hs => .inl ⟨a, s, ts, rfl, hs, h⟩

theorem Runs.throw {e : Error} (h : fail e) : Runs z (throw e : Parser α) ts post fail :=
  fun s _ => .inr ⟨e, s, rfl, h⟩

theorem Runs.throw_bind {e : Error} {f : β → Parser α} (h : fail e) :
    Runs z (MonadExcept.throw e >>= f) ts post fail :=
  fun s _ => .inr ⟨e, s, rfl, h⟩

theorem run_bind (p : Parser α) (f : α → Parser β) (s : Stream) :
    (p >>= f).run s = match p.run s with
      | (.ok a, s') => (f a).run s'
      | (.error e, s') => (.error e, s') := by
  show (ExceptT.bindCont f (p.run s).1) (p.run s).2 = _
  rcases p.run s with ⟨_ | _, _⟩ <;> rfl

/-- The second parser starts on the tokens that the first one leaves. -/
theorem Runs.bind {f : α → Parser β} {mid : α → List Token → Prop} {post : β → List Token → Prop}
    (hp : Runs z p ts mid fail) (hf : ∀ a us, mid a us → Runs z (f a) us post fail) :
    Runs z (p >>= f) ts post fail := by
  intro s hs
  rw [run_bind]
  rcases hp s hs with ⟨a, s', us, hr, hg, hm⟩ | ⟨e, s', hr, he⟩
  · rw [hr]; exact hf a us hm s' hg
  · rw [hr]; exact .inr ⟨e, s', rfl, he⟩

/-- What a run from a stream says about its result. -/
theorem Runs.result {s : Stream} (h : Runs z p ts post fail) (hs : Gives z s ts) :
    (∃ a us, (p.run s).1 = .ok a ∧ post a us) ∨ (∃ e, (p.run s).1 = .error e ∧ fail e) := by
  rcases h s hs with ⟨a, s', us, hr, _, hp⟩ | ⟨e, s', hr, he⟩
  · exact .inl ⟨a, us, by rw [hr], hp⟩
  · exact .inr ⟨e, by rw [hr], he⟩

/-! ## Looking and consuming

Each rule hands on to the rest of a parser what it then knows about the tokens. -/

/-- What is buffered is seen again; otherwise the next token is pulled and buffered. -/
theorem run_peek (s : Stream) : peek.run s = match s.buffered with
    | some t => (.ok t, s)
    | none => match s.pull with
      | (.ok t, s') => (.ok t, { s' with buffered := some t })
      | (.error e, s') => (.error e, s') := by
  obtain ⟨buffered, ahead, fault, here, stop⟩ := s
  cases buffered with
  | some t => rfl
  | none =>
      cases ahead with
      | cons t ts => rfl
      | nil => cases fault <;> rfl

/-- Consuming is looking, and then dropping the buffer unless it holds the end of input. -/
theorem run_advance (s : Stream) : advance.run s = match peek.run s with
    | (.ok t, s') => (.ok t, if t.isEnd then s' else { s' with buffered := none })
    | (.error e, s') => (.error e, s') := by
  unfold advance
  rw [run_bind]
  rcases peek.run s with ⟨e | t, s'⟩
  · rfl
  · dsimp only
    cases t.isEnd <;> rfl

/-- Looking buffers what it sees and keeps the tokens. -/
theorem peek_run {s : Stream} (hs : Gives z s ts) :
    (∃ t s', peek.run s = (.ok t, s') ∧ lookahead z ts = .ok t ∧ s'.buffered = some t ∧ Gives z s' ts) ∨
      (∃ e s', peek.run s = (.error e, s') ∧ lookahead z ts = .error e) := by
  obtain ⟨buffered, ahead, fault, here, stop⟩ := s
  obtain ⟨hproper, hstop, hreached, held⟩ := hs
  -- What is buffered already, a token or the end of input, is seen again.
  obtain ⟨rfl, rfl, rfl⟩ | ⟨t, rfl, rfl, rfl⟩ | ⟨rfl, rfl, hz⟩ := held
  · cases ahead with
    | cons t us =>
        refine .inl ⟨t, ⟨some t, us, z.fault, t.behind, stop⟩, rfl, rfl, rfl, hproper, hstop, ?_, ?_⟩
        · rintro _ ⟨⟩
          rfl
        · exact .inr (.inl ⟨t, rfl, rfl, rfl⟩)
    | nil =>
        cases hz : z.fault with
        | some f => exact .inr ⟨.lexical f, ⟨none, [], none, stop, stop⟩, rfl, by simp [lookahead, hz]⟩
        | none =>
            have htok : z.token = ⟨.endOfInput, stop, ""⟩ :=
              congrArg (Token.mk .endOfInput · "") hstop.symm
            refine .inl ⟨z.token, ⟨some z.token, [], none, stop, stop⟩,
              ?_, by simp [lookahead, hz], rfl, ?_⟩
            · rw [htok]; rfl
            · refine ⟨hproper, hstop, ?_, .inr (.inr ⟨rfl, rfl, hz⟩)⟩
              rintro _ ⟨⟩
              exact hstop
  · exact .inl ⟨t, _, rfl, rfl, rfl, hproper, hstop, hreached, .inr (.inl ⟨t, rfl, rfl, rfl⟩)⟩
  · exact .inl ⟨z.token, _, rfl, by simp [lookahead, hz], rfl, hproper, hstop, hreached,
      .inr (.inr ⟨rfl, rfl, hz⟩)⟩

/-- Consuming drops the token that is seen, and reading has come to its end; at the end of input
there is none to drop. -/
theorem advance_run {s : Stream} (hs : Gives z s ts) :
    (∃ t s', advance.run s = (.ok t, s') ∧ lookahead z ts = .ok t ∧ Gives z s' ts.tail ∧
      s'.here = t.behind) ∨
      (∃ e s', advance.run s = (.error e, s') ∧ lookahead z ts = .error e) := by
  rw [run_advance]
  rcases peek_run hs with ⟨t, s', hr, hl, hb, hg⟩ | ⟨e, s', hr, hl⟩
  · rw [hr]
    have hhere := hg.reached t hb
    refine .inl ⟨t, _, rfl, hl, ?_⟩
    rcases lookahead_eq_ok hl with ⟨us, rfl⟩ | ⟨rfl, hz, rfl⟩
    · have ht : t.isEnd = false := hg.proper t (by simp)
      obtain ⟨hproper, hstop, -, held⟩ := hg
      obtain ⟨h, -⟩ | ⟨u, -, hu, hf⟩ | ⟨-, h, -⟩ := held
      · rw [hb] at h; cases h
      · rw [ht]
        refine ⟨⟨fun v hv => hproper v (by simp_all), hstop, ?_, .inl ⟨rfl, ?_, hf⟩⟩, hhere⟩
        · intro v hv
          cases hv
        · exact (List.cons.inj hu).2.symm
      · cases h
    · exact ⟨hg, hhere⟩
  · rw [hr]; exact .inr ⟨e, s', rfl, hl⟩

theorem Runs.peek_bind {f : Token → Parser α}
    (hok : ∀ t, lookahead z ts = .ok t → Runs z (f t) ts post fail)
    (hfault : ∀ e, lookahead z ts = .error e → fail e) : Runs z (peek >>= f) ts post fail := by
  intro s hs
  rw [run_bind]
  rcases peek_run hs with ⟨t, s', hr, hl, -, hg⟩ | ⟨e, s', hr, hl⟩
  · rw [hr]; exact hok t hl s' hg
  · rw [hr]; exact .inr ⟨e, s', rfl, hfault e hl⟩

theorem Runs.advance_bind {f : Token → Parser α}
    (hok : ∀ t, lookahead z ts = .ok t → Runs z (f t) ts.tail post fail)
    (hfault : ∀ e, lookahead z ts = .error e → fail e) : Runs z (advance >>= f) ts post fail := by
  intro s hs
  rw [run_bind]
  rcases advance_run hs with ⟨t, s', hr, hl, hg, -⟩ | ⟨e, s', hr, hl⟩
  · rw [hr]; exact hok t hl s' hg
  · rw [hr]; exact .inr ⟨e, s', rfl, hfault e hl⟩

/-- Asking for a kind consumes a token of that kind and keeps any other. -/
theorem Runs.accept_bind {k : Kind} {f : Bool → Parser α} (hk : k ≠ .endOfInput)
    (hhit : ∀ t us, ts = t :: us → t.kind = k → Runs z (f true) us post fail)
    (hmiss : ∀ t, lookahead z ts = .ok t → t.kind ≠ k → Runs z (f false) ts post fail)
    (hfault : ∀ e, lookahead z ts = .error e → fail e) : Runs z (accept [k] >>= f) ts post fail := by
  unfold accept check
  simp only [bind_assoc, pure_bind, List.contains_cons, List.contains_nil, Bool.or_false]
  refine Runs.peek_bind (fun t ht => ?_) hfault
  by_cases htk : t.kind = k
  · rw [if_pos (by simpa using htk)]
    simp only [bind_assoc, pure_bind]
    refine Runs.advance_bind (fun _ _ => ?_) hfault
    rcases lookahead_eq_ok ht with ⟨us, rfl⟩ | ⟨-, -, rfl⟩
    · exact hhit t us rfl htk
    · exact absurd htk (Ne.symm hk)
  · rw [if_neg (by simpa using htk)]
    simp only [pure_bind]
    exact hmiss t ht htk

/-- Demanding a kind consumes a token of that kind and fails at any other. -/
theorem Runs.expect_bind {k : Kind} {note : String} {f : Token → Parser α} (hk : k ≠ .endOfInput)
    (hhit : ∀ t us, ts = t :: us → t.kind = k → Runs z (f t) us post fail)
    (hmiss : ∀ t, lookahead z ts = .ok t → t.kind ≠ k → fail (.missing k note t))
    (hfault : ∀ e, lookahead z ts = .error e → fail e) : Runs z (expect k note >>= f) ts post fail := by
  unfold expect
  rw [bind_assoc]
  refine Runs.peek_bind (fun t ht => ?_) hfault
  by_cases htk : t.kind = k
  · rw [if_pos htk]
    refine Runs.advance_bind (fun u hu => ?_) hfault
    obtain rfl : t = u := Except.ok.inj (ht.symm.trans hu)
    rcases lookahead_eq_ok ht with ⟨us, rfl⟩ | ⟨-, -, rfl⟩
    · exact hhit t us rfl htk
    · exact absurd htk (Ne.symm hk)
  · rw [if_neg htk]
    exact Runs.throw_bind (hmiss t ht htk)

/-- Asking for the end of input tells whether there are tokens left. -/
theorem Runs.check_end_bind {f : Bool → Parser α}
    (hend : ts = [] → z.fault = none → Runs z (f true) [] post fail)
    (hmore : ∀ t us, ts = t :: us → Runs z (f false) ts post fail)
    (hfault : ∀ e, lookahead z ts = .error e → fail e) :
    Runs z (check [.endOfInput] >>= f) ts post fail := by
  refine Runs.of_proper ?_
  intro hproper
  unfold check
  simp only [bind_assoc, pure_bind, List.contains_cons, List.contains_nil, Bool.or_false]
  refine Runs.peek_bind (fun t ht => ?_) hfault
  rcases lookahead_eq_ok ht with ⟨us, rfl⟩ | ⟨rfl, hz, rfl⟩
  · have hkind : (t.kind == .endOfInput) = false := hproper t (by simp)
    rw [hkind]
    exact hmore t us rfl
  · exact hend rfl hz

/-! ## Tiers -/

/-- A row ends before a token that is no operator of the tier. -/
theorem Runs.chainFrom_stop {operand : Parser Expr} {tier : Tier} {left : Expr} {t : Token}
    {post : Expr → List Token → Prop} (rounds : Nat) (ht : lookahead z ts = .ok t)
    (hop : tier.op? t.kind = none) (hpost : post left ts) :
    Runs z (chainFrom operand tier rounds left) ts post fail := by
  have hfault : ∀ e, lookahead z ts = .error e → fail e := by
    intro e he
    rw [ht] at he
    cases he
  cases rounds with
  | zero => exact Runs.peek_bind (fun _ _ => Runs.pure hpost) hfault
  | succ rounds =>
      refine Runs.peek_bind (fun u hu => ?_) hfault
      obtain rfl : t = u := Except.ok.inj (ht.symm.trans hu)
      rw [hop]
      exact Runs.pure hpost

/-- A row goes on with an operator of the tier and the operand behind it. -/
theorem Runs.chainFrom_step {operand : Parser Expr} {tier : Tier} {rounds : Nat} {left : Expr}
    {t : Token} {us : List Token} {op : BinaryOp} {mid post : Expr → List Token → Prop}
    (hop : tier.op? t.kind = some op) (hoperand : Runs z operand us mid fail)
    (hrest : ∀ right vs, mid right vs →
      Runs z (Descent.chainFrom operand tier rounds (.binary op left right)) vs post fail) :
    Runs z (Descent.chainFrom operand tier (rounds + 1) left) (t :: us) post fail := by
  refine Runs.peek_bind (fun u hu => ?_) (by intro e he; cases he)
  obtain rfl : t = u := Except.ok.inj hu
  rw [hop]
  exact Runs.advance_bind (fun _ _ => Runs.bind hoperand hrest) (by intro e he; cases he)

/-- A row of operands keeps an invariant between the operand to its left and the tokens that are
left: it holds behind the first operand, and an operator with the operand behind it keeps it up. -/
theorem Runs.chainFrom {operand : Parser Expr} {tier : Tier} {inv post : Expr → List Token → Prop}
    (hstop : ∀ left ts t, inv left ts → lookahead z ts = .ok t → tier.op? t.kind = none → post left ts)
    (hstep : ∀ left t us op, inv left (t :: us) → tier.op? t.kind = some op →
      Runs z operand us (fun right vs => vs.length ≤ us.length ∧ inv (.binary op left right) vs) fail)
    (hfault : ∀ left ts e, inv left ts → lookahead z ts = .error e → fail e) :
    ∀ rounds left ts, ts.length ≤ rounds → inv left ts →
      Runs z (chainFrom operand tier rounds left) ts post fail := by
  intro rounds
  induction rounds with
  | zero =>
      intro left ts hlen hinv
      obtain rfl : ts = [] := List.length_eq_zero_iff.mp (Nat.le_zero.mp hlen)
      -- With no tokens left, the loop sees the end of input, which is no operator.
      refine Runs.peek_bind (fun t ht => Runs.pure (hstop left [] t hinv ht ?_)) (hfault left [] · hinv)
      rcases lookahead_eq_ok ht with ⟨us, hus⟩ | ⟨-, -, rfl⟩
      · cases hus
      · rfl
  | succ rounds ih =>
      intro left ts hlen hinv
      cases ht : lookahead z ts with
      | error e => exact Runs.peek_bind (fun t h => by rw [ht] at h; cases h) (hfault left ts · hinv)
      | ok t =>
          cases hop : tier.op? t.kind with
          | none => exact Runs.chainFrom_stop _ ht hop (hstop left ts t hinv ht hop)
          | some op =>
              rcases lookahead_eq_ok ht with ⟨us, rfl⟩ | ⟨-, -, rfl⟩
              · refine Runs.chainFrom_step hop (hstep left t us op hinv hop) (fun right vs hvs => ?_)
                refine ih (.binary op left right) vs ?_ hvs.2
                have := hvs.1
                simp only [List.length_cons] at hlen
                omega
              · cases hop

/-- A property of tiers that what binds tightest has, and that a row of operands has if they have it
one tier up, holds of every tier. -/
theorem tierOver_rank {holds : Nat → Parser Expr → Prop} {rounds : Nat} {unary : Parser Expr}
    (hunary : holds 5 unary)
    (hchain : ∀ (tier : Tier) operand, holds (tier.rank + 1) operand →
      holds tier.rank (chain rounds tier operand))
    (tier : Tier) : holds tier.rank (tierOver rounds unary tier) := by
  have hfactor := hchain .factor unary hunary
  have hterm := hchain .term _ hfactor
  have hcomparison := hchain .comparison _ hterm
  have hequality := hchain .equality _ hcomparison
  have hlogical := hchain .logical _ hequality
  cases tier with
  | logical => exact hlogical
  | equality => exact hequality
  | comparison => exact hcomparison
  | term => exact hterm
  | factor => exact hfactor

/-! ## Operands -/

/-- The leaf that a token is by itself. -/
def leaf? (t : Token) : Option Literal :=
  match t.meaning with
  | .mark .trueWord => some (.boolean true)
  | .mark .falseWord => some (.boolean false)
  | .mark .nilWord => some .nil
  | .number v => some (.number v)
  | .string s => some (.string s)
  | .identifier s => some (.identifier s)
  | _ => none

/-- An operand without a sign, told apart by what the next token is. -/
theorem primaryOver_eq (opened : Parser Expr) : primaryOver opened = peek >>= fun t =>
    match leaf? t with
    | some l => primaryOver.leaf l
    | none =>
      if t.kind = .mark .leftParen then do
        let e ← opened
        let _ ← expect (.mark .rightParen) "Expected ')' after expression"
        return .group e
      else throw (.noOperand t) := by
  unfold primaryOver
  congr 1
  funext ⟨m, place, lexeme⟩
  cases m with
  | mark m => cases m <;> rfl
  | identifier _ | string _ | number _ | endOfInput => rfl

/-- An operand without a sign is a leaf, or a parenthesis that is closed behind what it holds. -/
theorem Runs.primaryOver {opened : Parser Expr} {post : Expr → List Token → Prop}
    (hleaf : ∀ t us l, ts = t :: us → leaf? t = some l → post (.literal l) us)
    (hparen : ∀ t us, ts = t :: us → t.kind = .mark .leftParen →
      Runs z opened ts (fun e vs => (∀ c ws, vs = c :: ws → c.kind = .mark .rightParen →
      post (.group e) ws) ∧ (∀ t, lookahead z vs = .ok t → t.kind ≠ .mark .rightParen →
      fail (.missing (.mark .rightParen) "Expected ')' after expression" t)) ∧
      (∀ e, lookahead z vs = .error e → fail e)) fail)
    (hnone : ∀ t, lookahead z ts = .ok t → leaf? t = none → t.kind ≠ .mark .leftParen →
      fail (.noOperand t)) (hfault : ∀ e, lookahead z ts = .error e → fail e) :
    Runs z (primaryOver opened) ts post fail := by
  rw [primaryOver_eq]
  refine Runs.peek_bind (fun t ht => ?_) hfault
  cases hl : leaf? t with
  | some l =>
      refine Runs.advance_bind (fun _ _ => Runs.pure ?_) hfault
      rcases lookahead_eq_ok ht with ⟨us, rfl⟩ | ⟨-, -, rfl⟩
      · exact hleaf t us l rfl hl
      · cases hl
  | none =>
      by_cases hp : t.kind = .mark .leftParen
      · simp only [if_pos hp]
        rcases lookahead_eq_ok ht with ⟨us, rfl⟩ | ⟨-, -, rfl⟩
        · refine Runs.bind (hparen t us rfl hp) ?_
          rintro e vs ⟨hclose, hmiss, hend⟩
          exact Runs.expect_bind (by decide) (fun c ws hvs hc => Runs.pure (hclose c ws hvs hc))
            hmiss hend
        · cases hp
      · simp only [if_neg hp]
        exact Runs.throw (hnone t ht hl hp)

/-- Reading goes on behind the token, or it gives up there for want of room. -/
theorem Runs.nested {cost room : Nat} {inner : cost ≤ room → Parser Expr} {t : Token} {us : List Token}
    {post : Expr → List Token → Prop} (hinner : ∀ h, Runs z (inner h) us post fail)
    (hdeep : room < cost → fail (.tooDeep t.behind)) :
    Runs z (Descent.nested cost room inner) (t :: us) post fail := by
  intro s hs
  unfold Descent.nested
  rw [run_bind]
  obtain ⟨u, s', hr, hl, hg, hhere⟩ | ⟨e, s', -, hl⟩ := advance_run hs
  · obtain rfl : t = u := Except.ok.inj hl
    rw [hr]
    by_cases hroom : cost ≤ room
    · simp only [dif_pos hroom]
      exact hinner hroom s' hg
    · simp only [dif_neg hroom]
      refine .inr ⟨.tooDeep s'.here, s', rfl, ?_⟩
      rw [hhere]
      exact hdeep (Nat.lt_of_not_le hroom)
  · cases hl

/-- What no binary operator takes apart is a sign before something of the same sort, or has no
sign. -/
theorem Runs.unary {rounds room : Nat} {post : Expr → List Token → Prop}
    (hsign : ∀ t us op, ts = t :: us → t.kind.unaryOp? = some op → 1 ≤ room →
      Runs z (unary rounds (room - 1)) us (fun e vs => post (.unary op e) vs) fail)
    (hdeep : ∀ t us op, ts = t :: us → t.kind.unaryOp? = some op → room = 0 → fail (.tooDeep t.behind))
    (hprimary : (∀ t, lookahead z ts = .ok t → t.kind.unaryOp? = none) →
      Runs z (primary rounds room) ts post fail)
    (hfault : ∀ e, lookahead z ts = .error e → fail e) :
    Runs z (Descent.unary rounds room) ts post fail := by
  rw [Descent.unary]
  refine Runs.peek_bind (fun t ht => ?_) hfault
  cases hop : t.kind.unaryOp? with
  | none =>
      refine hprimary ?_
      intro u hu
      obtain rfl : t = u := Except.ok.inj (ht.symm.trans hu)
      exact hop
  | some op =>
      rcases lookahead_eq_ok ht with ⟨us, rfl⟩ | ⟨-, -, rfl⟩
      · refine Runs.bind (Runs.nested (hsign t us op rfl hop) ?_) (fun e vs h => Runs.pure h)
        exact fun hroom => hdeep t us op rfl hop (Nat.lt_one_iff.mp hroom)
      · cases hop

/-- An operand without a sign is a leaf, or a parenthesis around an expression for which there is
room. -/
theorem Runs.primary {rounds room : Nat} {post : Expr → List Token → Prop}
    (hleaf : ∀ t us l, ts = t :: us → leaf? t = some l → post (.literal l) us)
    (hparen : ∀ t us, ts = t :: us → t.kind = .mark .leftParen → 13 ≤ room →
      Runs z (tierOver rounds (Descent.unary rounds (room - 13)) .logical) us
      (fun e vs => (∀ c ws, vs = c :: ws → c.kind = .mark .rightParen → post (.group e) ws) ∧
      (∀ t, lookahead z vs = .ok t → t.kind ≠ .mark .rightParen →
      fail (.missing (.mark .rightParen) "Expected ')' after expression" t)) ∧
      (∀ e, lookahead z vs = .error e → fail e)) fail)
    (hdeep : ∀ t us, ts = t :: us → t.kind = .mark .leftParen → room < 13 → fail (.tooDeep t.behind))
    (hnone : ∀ t, lookahead z ts = .ok t → leaf? t = none → t.kind ≠ .mark .leftParen →
      fail (.noOperand t)) (hfault : ∀ e, lookahead z ts = .error e → fail e) :
    Runs z (Descent.primary rounds room) ts post fail := by
  rw [Descent.primary]
  refine Runs.primaryOver hleaf ?_ hnone hfault
  rintro t us rfl ht
  exact Runs.nested (hparen t us rfl ht) (hdeep t us rfl ht)

/-! ## Where a run starts -/

/-- The items of a text are its tokens up to the first fault, the fault, and what comes behind
it. -/
theorem upToFault_spec (items : List Item) :
    ((Stream.upToFault items).2 = none ∧ items = (Stream.upToFault items).1.map .ok) ∨
      ∃ e rest, (Stream.upToFault items).2 = some e ∧
      items = (Stream.upToFault items).1.map .ok ++ .error e :: rest := by
  induction items with
  | nil => exact .inl ⟨rfl, rfl⟩
  | cons item items ih =>
      cases item with
      | error e => exact .inr ⟨e, items, rfl, rfl⟩
      | ok t =>
          obtain ⟨hnone, heq⟩ | ⟨e, rest, hsome, heq⟩ := ih
          · exact .inl ⟨hnone, congrArg (.ok t :: ·) heq⟩
          · exact .inr ⟨e, rest, hsome, congrArg (.ok t :: ·) heq⟩

/-- What comes behind the tokens of a text. -/
def endingOf (s : String) : Ending := ⟨(Stream.ofText s).fault, (Stream.ofText s).stop⟩

/-- The tokens of a text are items of it. -/
theorem mem_scan_of_mem_ofText {s : String} {t : Token} (ht : t ∈ (Stream.ofText s).ahead) :
    (.ok t : Item) ∈ scan s := by
  have hmem : (.ok t : Item) ∈ (Stream.upToFault (scan s)).1.map .ok := List.mem_map_of_mem ht
  obtain ⟨-, heq⟩ | ⟨e, rest, -, heq⟩ := upToFault_spec (scan s)
  · rw [heq]
    exact hmem
  · rw [heq]
    exact List.mem_append_left _ hmem

/-- Without a fault they are all the items. -/
theorem scan_of_no_fault {s : String} (h : (Stream.ofText s).fault = none) :
    scan s = (Stream.ofText s).ahead.map .ok := by
  obtain ⟨-, heq⟩ | ⟨e, rest, hsome, -⟩ := upToFault_spec (scan s)
  · exact heq
  · cases hsome.symm.trans h

theorem upToFault_map_ok (ts : List Token) : Stream.upToFault (ts.map .ok) = (ts, none) := by
  induction ts with
  | nil => rfl
  | cons t ts ih =>
      rw [List.map_cons, Stream.upToFault, ih]

/-- A text whose items are all tokens is read up to its end. -/
theorem ofText_of_scan {s : String} {ts : List Token} (h : scan s = ts.map .ok) :
    (Stream.ofText s).ahead = ts ∧ (Stream.ofText s).fault = none := by
  have htokens := upToFault_map_ok ts
  rw [← h] at htokens
  exact ⟨congrArg Prod.fst htokens, congrArg Prod.snd htokens⟩

/-- The tokens of a text spell what they stand for. -/
theorem genuine_of_mem_ofText {s : String} {t : Token} (ht : t ∈ (Stream.ofText s).ahead) :
    t.Genuine := by
  apply genuine_of_mem_itemsFrom s.toList .origin
  rw [← scan_eq]
  exact mem_scan_of_mem_ofText ht

/-- A stream that was not looked at gives its tokens. -/
theorem gives_fresh {ts : List Token} (hts : ∀ t ∈ ts, t.isEnd = false) (z : Ending) (here : Place) :
    Gives z ⟨none, ts, z.fault, here, z.stop⟩ ts := by
  refine ⟨hts, rfl, ?_, .inl ⟨rfl, rfl, rfl⟩⟩
  intro t ht
  cases ht

theorem gives_ofText (s : String) : Gives (endingOf s) (.ofText s) (Stream.ofText s).ahead :=
  gives_fresh (fun _ ht => (genuine_of_mem_ofText ht).isEnd_eq_false) (endingOf s) .origin

end Lox.Descent
