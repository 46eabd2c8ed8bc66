import Lox.Proofs.Descent.Consumption
/-!
# `Descent.Extension` — a run with more behind it

Reading goes on the same if more tokens or another ending stand behind a text, as long as it does
not look behind it; and it goes on the same with more rounds than are enough, and with more room
than it takes. An `Extension` says what there is more of, and `Ends` how a run may then compare with
the first one; this file walks once through all parsers.

If nothing is behind the text but what was there, the two runs end the same (`Ends.eq`), so that
neither the number of rounds matters nor the room, as long as they are enough (`statements_mono`).
And statements that were read to their end are read the same before others (`statements_append`).
-/
namespace Lox.Descent

variable {α β : Type}

/-- Two ways to read the same tokens: up to an ending with a number of rounds, or with more tokens
behind them up to another ending, with another number of rounds and with room to spare. -/
structure Extension where
  ending : Ending
  ending' : Ending
  more : List Token
  rounds : Nat
  rounds' : Nat
  spare : Nat

namespace Extension

/-- Something else is behind the tokens. -/
def Longer (X : Extension) : Prop := X.more ≠ [] ∨ X.ending' ≠ X.ending

/-- There are rounds for all tokens. -/
def Fits (X : Extension) (ts : List Token) : Prop :=
  ts.length ≤ X.rounds ∧ ts.length + X.more.length ≤ X.rounds'

/-- How the second run compares with the first one. It ends the same unless there is room to
spare and the first run ran out of room, or something else is behind the tokens and the
first run came to their end. -/
inductive Ends (X : Extension) (ts : List Token) :
    Except Error α × Stream → Except Error α × Stream → Prop where
  | ok {a : α} {s s' : Stream} {us : List Token} : Gives X.ending s us →
      Gives X.ending' s' (us ++ X.more) →
      us.length ≤ ts.length → Ends X ts (.ok a, s) (.ok a, s')
  | error {e : Error} {s s' : Stream} : Ends X ts (.error e, s) (.error e, s')
  | deep {p : Place} {s : Stream} {r' : Except Error α × Stream} : X.spare ≠ 0 →
      Ends X ts (.error (.tooDeep p), s) r'
  | lost {a : α} {s : Stream} {r' : Except Error α × Stream} : X.Longer → Gives X.ending s [] →
      Ends X ts (.ok a, s) r'
  | stuck {e : Error} {s : Stream} {r' : Except Error α × Stream} : X.Longer →
      Ends X ts (.error e, s) r'

/-- The second parser goes on as the first one does, on these tokens. -/
def Carries (X : Extension) (p q : Parser α) (ts : List Token) : Prop :=
  ∀ s s', Gives X.ending s ts → Gives X.ending' s' (ts ++ X.more) → X.Ends ts (p.run s) (q.run s')

/-- It goes on so once both runs have come to the place. -/
def CarriesAt (X : Extension) (place : Place) (p q : Parser α) (ts : List Token) : Prop :=
  ∀ s s', Gives X.ending s ts → Gives X.ending' s' (ts ++ X.more) → s.here = place → s'.here = place →
    X.Ends ts (p.run s) (q.run s')

/-- The second parser goes on as the first one does, on all tokens that there are rounds for. -/
def Covers (X : Extension) (p q : Parser α) : Prop := ∀ ts, X.Fits ts → X.Carries p q ts

variable {X : Extension} {ts us : List Token}

theorem Fits.mono (h : X.Fits ts) (hle : us.length ≤ ts.length) : X.Fits us :=
  ⟨hle.trans h.1, (Nat.add_le_add_right hle _).trans h.2⟩

/-! ## How runs compare -/

theorem Ends.mono {r r' : Except Error α × Stream} (h : X.Ends us r r') (hle : us.length ≤ ts.length) :
    X.Ends ts r r' := by
  cases h with
  | ok hs hs' hlen => exact .ok hs hs' (hlen.trans hle)
  | error => exact .error
  | deep hspare => exact .deep hspare
  | lost hlonger hs => exact .lost hlonger hs
  | stuck hlonger => exact .stuck hlonger

/-- Once the first run has come to the end of the tokens, nothing is asked of the second one. -/
theorem Ends.of_nil {r r' r'' : Except Error α × Stream} (hlonger : X.Longer) (h : X.Ends [] r r') :
    X.Ends ts r r'' := by
  cases h with
  | ok hs _ hlen =>
      rw [List.eq_nil_of_length_eq_zero (Nat.le_zero.mp hlen)] at hs
      exact .lost hlonger hs
  | error => exact .stuck hlonger
  | deep hspare => exact .deep hspare
  | lost _ hs => exact .lost hlonger hs
  | stuck _ => exact .stuck hlonger

/-- With nothing else behind the tokens the runs end the same, unless the first one runs out of room
that the second one has. -/
theorem Ends.eq {r r' : Except Error α × Stream} (h : X.Ends ts r r') (hsame : ¬ X.Longer)
    (hroom : X.spare = 0 ∨ ¬TooDeep r.1) : r'.1 = r.1 := by
  cases h with
  | ok => rfl
  | error => rfl
  | deep hspare =>
      obtain hnone | hdeep := hroom
      · exact absurd hnone hspare
      · exact absurd ⟨_, rfl⟩ hdeep
  | lost hlonger => exact absurd hlonger hsame
  | stuck hlonger => exact absurd hlonger hsame

/-! ## Rules -/

theorem Carries.pure (a : α) : X.Carries (pure a) (pure a) ts := fun _ _ hs hs' => .ok hs hs' le_rfl

theorem Carries.throw (e : Error) : X.Carries (throw e : Parser α) (throw e) ts := fun _ _ _ _ => .error

theorem Carries.at_place {p q : Parser α} (h : X.Carries p q ts) (place : Place) :
    X.CarriesAt place p q ts :=
  fun s s' hs hs' _ _ => h s s' hs hs'

/-- The rest of a parser starts on the tokens that are left, or at the end of the tokens. -/
theorem Carries.bind {p q : Parser α} {f g : α → Parser β} (hp : X.Carries p q ts)
    (hf : ∀ a us, us.length ≤ ts.length → X.Carries (f a) (g a) us) :
    X.Carries (p >>= f) (q >>= g) ts := by
  intro s s' hs hs'
  have hends := hp s s' hs hs'
  rw [run_bind, run_bind]
  generalize p.run s = r at hends
  generalize q.run s' = r' at hends
  cases hends with
  | ok hs hs' hlen => exact (hf _ _ hlen _ _ hs hs').mono hlen
  | error => exact .error
  | deep hspare => exact .deep hspare
  | stuck hlonger => exact .stuck hlonger
  | lost hlonger hs =>
      have hmore : ∀ t ∈ X.more, t.isEnd = false :=
        fun t ht => hs'.proper t (List.mem_append_right ts ht)
      exact .of_nil hlonger (hf _ [] (Nat.zero_le _) _ _ hs (gives_fresh hmore X.ending' .origin))

theorem Carries.map {p q : Parser α} (hp : X.Carries p q ts) (f : α → β) :
    X.Carries (f <$> p) (f <$> q) ts := by
  rw [← bind_pure_comp, ← bind_pure_comp]
  exact hp.bind fun a _ _ => .pure (f a)

/-- The same is seen in both runs, unless the first one has come to the end of its tokens. -/
theorem seen_cases (X : Extension) (ts : List Token) :
    (∃ t us, ts = t :: us) ∨ (X.more = [] ∧ X.ending' = X.ending) ∨ (ts = [] ∧ X.Longer) := by
  cases ts with
  | cons t us => exact .inl ⟨t, us, rfl⟩
  | nil =>
      by_cases hlonger : X.Longer
      · exact .inr (.inr ⟨rfl, hlonger⟩)
      · obtain ⟨hmore, hending⟩ := not_or.mp hlonger
        exact .inr (.inl ⟨not_not.mp hmore, not_not.mp hending⟩)

/-- A parser that tells the next token, and drops it or not, is followed by the same in both
runs. -/
theorem Carries.token_bind {p : Parser Token} {f g : Token → Parser α} {k : Nat} (hk : k ≤ 1)
    (hp : ∀ {z s ts}, Gives z s ts →
      (∃ t s', p.run s = (.ok t, s') ∧ lookahead z ts = .ok t ∧ Gives z s' (ts.drop k) ∧
      s'.here = t.behind) ∨ (∃ e s', p.run s = (.error e, s') ∧ lookahead z ts = .error e))
    (h : ∀ t, lookahead X.ending ts = .ok t → X.CarriesAt t.behind (f t) (g t) (ts.drop k)) :
    X.Carries (p >>= f) (p >>= g) ts := by
  intro s s' hs hs'
  rw [run_bind, run_bind]
  have hle : (ts.drop k).length ≤ ts.length := by simp
  obtain ⟨t, us, rfl⟩ | ⟨hmore, hending⟩ | ⟨rfl, hlonger⟩ := X.seen_cases ts
  · obtain ⟨u, s₁, hr, hl, hg, hhere⟩ | ⟨e, s₁, -, hl⟩ := hp hs
    · obtain ⟨u', s₁', hr', hl', hg', hhere'⟩ | ⟨e, s₁', -, hl'⟩ := hp hs'
      · obtain rfl : t = u := Except.ok.inj hl
        obtain rfl : t = u' := Except.ok.inj hl'
        rw [hr, hr']
        have hlen : k ≤ (t :: us).length := hk.trans (Nat.le_add_left 1 us.length)
        rw [List.drop_append_of_le_length hlen] at hg'
        exact (h t hl s₁ s₁' hg hg' hhere hhere').mono hle
      · cases hl'
    · cases hl
  · rw [hmore, List.append_nil, hending] at hs'
    obtain ⟨t, s₁, hr, hl, hg, hhere⟩ | ⟨e, s₁, hr, hl⟩ := hp hs
    · obtain ⟨u, s₁', hr', hl', hg', hhere'⟩ | ⟨e, s₁', -, hl'⟩ := hp hs'
      · obtain rfl : t = u := Except.ok.inj (hl.symm.trans hl')
        rw [hr, hr']
        rw [← hending, ← List.append_nil (ts.drop k), ← hmore] at hg'
        exact (h t hl s₁ s₁' hg hg' hhere hhere').mono hle
      · cases hl.symm.trans hl'
    · obtain ⟨u, s₁', -, hl', -⟩ | ⟨e', s₁', hr', hl'⟩ := hp hs'
      · cases hl.symm.trans hl'
      · obtain rfl : e = e' := Except.error.inj (hl.symm.trans hl')
        rw [hr, hr']
        exact .error
  · have hmore : ∀ t ∈ X.more, t.isEnd = false := fun t ht => hs'.proper t (by simpa using ht)
    obtain ⟨t, s₁, hr, hl, hg, hhere⟩ | ⟨e, s₁, hr, -⟩ := hp hs
    · rw [hr]
      rw [List.drop_nil] at hg h
      exact .of_nil hlonger (h t hl s₁ _ hg (gives_fresh hmore X.ending' t.behind) hhere rfl)
    · rw [hr]
      exact .stuck hlonger

theorem Carries.peek_bind {f g : Token → Parser α}
    (h : ∀ t, lookahead X.ending ts = .ok t → X.Carries (f t) (g t) ts) :
    X.Carries (peek >>= f) (peek >>= g) ts := by
  refine Carries.token_bind (Nat.zero_le 1) ?_ fun t ht => (h t ht).at_place t.behind
  intro z s ts hs
  obtain ⟨t, s', hr, hl, hbuffer, hg⟩ | hfault := peek_run hs
  · exact .inl ⟨t, s', hr, hl, hg, hg.reached t hbuffer⟩
  · exact .inr hfault

/-- Behind a token that both runs have consumed they are at the same place. -/
theorem Carries.advance_at {f g : Token → Parser α}
    (h : ∀ t, lookahead X.ending ts = .ok t → X.CarriesAt t.behind (f t) (g t) ts.tail) :
    X.Carries (advance >>= f) (advance >>= g) ts := by
  rw [← List.drop_one] at h
  refine Carries.token_bind le_rfl ?_ h
  intro z s ts hs
  rw [List.drop_one]
  exact advance_run hs

theorem Carries.advance_bind {f g : Token → Parser α}
    (h : ∀ t, lookahead X.ending ts = .ok t → X.Carries (f t) (g t) ts.tail) :
    X.Carries (advance >>= f) (advance >>= g) ts :=
  Carries.advance_at fun t ht => (h t ht).at_place t.behind

/-! ## Tokens -/

theorem carries_advance : X.Carries advance advance ts := by
  rw [← bind_pure advance]
  exact Carries.advance_bind fun t _ s s' hs hs' => (Carries.pure t s s' hs hs').mono (by simp)

theorem carries_check (kinds : List Kind) : X.Carries (check kinds) (check kinds) ts :=
  Carries.peek_bind fun t _ => .pure (kinds.contains t.kind)

theorem carries_accept (kinds : List Kind) : X.Carries (accept kinds) (accept kinds) ts := by
  refine (carries_check kinds).bind fun b us _ => ?_
  cases b with
  | true => exact carries_advance.bind fun _ _ _ => .pure true
  | false => exact .pure false

theorem carries_expect (k : Kind) (note : String) : X.Carries (expect k note) (expect k note) ts := by
  refine Carries.peek_bind fun t _ => ?_
  split
  · exact carries_advance
  · exact .throw _

/-! ## Expressions -/

/-- An operator is always a token, never the end of input. -/
theorem op?_of_lookahead {z : Ending} {t : Token} {tier : Tier} (h : lookahead z [] = .ok t) :
    tier.op? t.kind = none := by
  obtain ⟨us, hus⟩ | ⟨-, -, rfl⟩ := lookahead_eq_ok h
  · cases hus
  · rfl

/-- A row of operands goes on the same with any number of rounds that is enough. -/
theorem carries_chainFrom {operand operand' : Parser Expr} (h : X.Covers operand operand')
    (tier : Tier) :
    ∀ n n' left ts, n ≤ X.rounds → n' ≤ X.rounds' → ts.length ≤ n → ts.length + X.more.length ≤ n' →
      X.Carries (chainFrom operand tier n left) (chainFrom operand' tier n' left) ts := by
  intro n
  induction n with
  | zero =>
      intro n' left ts _ _ hlen _
      obtain rfl : ts = [] := List.eq_nil_of_length_eq_zero (Nat.le_zero.mp hlen)
      -- At the end of the tokens no operator is seen, with rounds left or without.
      cases n' with
      | zero => exact Carries.peek_bind fun _ _ => .pure left
      | succ n' =>
          refine Carries.peek_bind fun t ht => ?_
          rw [op?_of_lookahead ht]
          exact .pure left
  | succ n ih =>
      intro n' left ts hn hn' hlen hlen'
      cases n' with
      | zero =>
          obtain rfl : ts = [] := List.eq_nil_of_length_eq_zero (by omega)
          refine Carries.peek_bind fun t ht => ?_
          rw [op?_of_lookahead ht]
          exact .pure left
      | succ n' =>
          refine Carries.peek_bind fun t ht => ?_
          cases hop : tier.op? t.kind with
          | none => exact .pure left
          | some op =>
              obtain ⟨us, rfl⟩ | ⟨rfl, -⟩ := lookahead_eq_ok ht
              · rw [List.length_cons] at hlen hlen'
                refine Carries.advance_bind (fun _ _ => ?_)
                refine (h us ⟨by omega, by omega⟩).bind fun right vs hvs => ?_
                exact ih n' _ vs (by omega) (by omega) (by omega) (by omega)
              · rw [op?_of_lookahead ht] at hop
                cases hop

theorem covers_chain {operand operand' : Parser Expr} (h : X.Covers operand operand') (tier : Tier) :
    X.Covers (chain X.rounds tier operand) (chain X.rounds' tier operand') := by
  intro ts hts
  refine (h ts hts).bind fun left us hus => ?_
  obtain ⟨hlen, hlen'⟩ := hts.mono hus
  exact carries_chainFrom h tier _ _ left us le_rfl le_rfl hlen hlen'

theorem covers_tierOver {unary unary' : Parser Expr} (h : X.Covers unary unary') (tier : Tier) :
    X.Covers (tierOver X.rounds unary tier) (tierOver X.rounds' unary' tier) := by
  have hfactor := covers_chain h .factor
  have hterm := covers_chain hfactor .term
  have hcomparison := covers_chain hterm .comparison
  have hequality := covers_chain hcomparison .equality
  cases tier with
  | factor => exact hfactor
  | term => exact hterm
  | comparison => exact hcomparison
  | equality => exact hequality
  | logical => exact covers_chain hequality .logical

theorem covers_primaryOver {opened opened' : Parser Expr} (h : X.Covers opened opened') :
    X.Covers (primaryOver opened) (primaryOver opened') := by
  intro ts hts
  rw [primaryOver_eq, primaryOver_eq]
  refine Carries.peek_bind fun t _ => ?_
  cases leaf? t with
  | some l => exact carries_advance.bind fun _ _ _ => .pure (Expr.literal l)
  | none =>
      by_cases hp : t.kind = .mark .leftParen
      · simp only [if_pos hp]
        refine (h ts hts).bind fun e _ _ => ?_
        exact (carries_expect _ _).bind fun _ _ _ => .pure (Expr.group e)
      · simp only [if_neg hp]
        exact .throw (.noOperand t)

/-- Where the first run has no room left, the second one has none either and gives up at the same
place, or it has room to spare. -/
theorem covers_nested {p q : Parser Expr} {cost room : Nat} (h : cost ≤ room → X.Covers p q) :
    X.Covers (nested cost room fun _ => p) (nested cost (room + X.spare) fun _ => q) := by
  intro ts hts
  refine Carries.advance_at fun t _ => ?_
  by_cases hroom : cost ≤ room
  · simp only [dif_pos hroom, dif_pos (hroom.trans (Nat.le_add_right room X.spare))]
    exact (h hroom ts.tail (hts.mono (by simp))).at_place t.behind
  · rw [dif_neg hroom]
    intro s s' _ _ hhere hhere'
    show X.Ends ts.tail (.error (.tooDeep s.here), s) _
    by_cases hspare : X.spare = 0
    · rw [dif_neg (by omega)]
      show X.Ends ts.tail _ (.error (.tooDeep s'.here), s')
      rw [hhere, hhere']
      exact .error
    · exact .deep hspare

theorem unary_eq (rounds room : Nat) : unary rounds room = peek >>= fun t =>
    match t.kind.unaryOp? with
    | some op => Expr.unary op <$> nested 1 room fun _ => unary rounds (room - 1)
    | none => primary rounds room := by
  rw [Descent.unary]
  rfl

/-- A sign or a parenthesis takes room, so the induction is on the room. -/
theorem covers_unary (room : Nat) :
    X.Covers (unary X.rounds room) (unary X.rounds' (room + X.spare)) := by
  induction room using Nat.strongRecOn with
  | ind room ih =>
      intro ts hts
      rw [unary_eq X.rounds room, unary_eq X.rounds' (room + X.spare)]
      refine Carries.peek_bind fun t _ => ?_
      cases t.kind.unaryOp? with
      | some op =>
          refine Carries.map (covers_nested (fun hroom => ?_) ts hts) (Expr.unary op)
          rw [show room + X.spare - 1 = room - 1 + X.spare by omega]
          exact ih (room - 1) (by omega)
      | none =>
          dsimp only
          rw [primary, primary]
          refine covers_primaryOver (covers_nested fun hroom => ?_) ts hts
          rw [show room + X.spare - 13 = room - 13 + X.spare by omega]
          exact covers_tierOver (ih (room - 13) (by omega)) .logical

theorem covers_expression (room : Nat) :
    X.Covers (expression X.rounds room) (expression X.rounds' (room + X.spare)) :=
  covers_tierOver (covers_unary room) .logical

/-! ## Statements -/

theorem covers_declaration (room : Nat) :
    X.Covers (declaration X.rounds room) (declaration X.rounds' (room + X.spare)) := by
  intro ts hts
  refine (carries_expect _ _).bind fun t us hus => (carries_accept _).bind fun b vs hvs => ?_
  cases b with
  | true => exact (covers_expression room vs (hts.mono (hvs.trans hus))).map _
  | false => exact .pure _

theorem covers_statementBody (room : Nat) :
    X.Covers (statementBody X.rounds room) (statementBody X.rounds' (room + X.spare)) := by
  intro ts hts
  refine (carries_accept _).bind fun b us hus => ?_
  cases b with
  | true => exact covers_declaration room us (hts.mono hus)
  | false =>
      refine (carries_accept _).bind fun b vs hvs => ?_
      cases b with
      | true => exact (covers_expression room vs (hts.mono (hvs.trans hus))).map _
      | false => exact (covers_expression room vs (hts.mono (hvs.trans hus))).map _

theorem covers_statement (room : Nat) :
    X.Covers (statement X.rounds room) (statement X.rounds' (room + X.spare)) := by
  intro ts hts
  exact (covers_statementBody room ts hts).bind fun s _ _ =>
    (carries_expect _ _).bind fun _ _ _ => .pure s

/-- What is demanded is the next token, which is dropped then; there is an error
only if it is of another kind. -/
theorem runs_expect {z : Ending} {k : Kind} (hk : k ≠ .endOfInput) (note : String) :
    Runs z (expect k note) ts (fun t us => ts = t :: us ∧ t.kind = k)
      (fun _ => ∀ t us, ts = t :: us → t.kind ≠ k) := by
  rw [← bind_pure (expect k note)]
  refine Runs.expect_bind hk (fun t us hts htk => .pure ⟨hts, htk⟩) ?_ ?_
  · rintro t ht htk u us rfl
    obtain rfl : u = t := Except.ok.inj ht
    exact htk
  · rintro e he u us rfl
    cases he

/-- A statement ends with a token of its own, so it is read the same whatever is behind it. -/
theorem statement_ok {room : Nat} {s s' s₁ : Stream} {st : Stmt} (hts : X.Fits ts)
    (hs : Gives X.ending s ts) (hs' : Gives X.ending' s' (ts ++ X.more))
    (h : (statement X.rounds room).run s = (.ok st, s₁)) :
    ∃ us s₁', us.length < ts.length ∧ (statement X.rounds' (room + X.spare)).run s' = (.ok st, s₁') ∧
      Gives X.ending s₁ us ∧ Gives X.ending' s₁' (us ++ X.more) := by
  have hends := covers_statementBody room ts hts s s' hs hs'
  have hsemicolon : Kind.mark .semicolon ≠ .endOfInput := by decide
  unfold statement at h ⊢
  rw [run_bind] at h ⊢
  generalize (statementBody X.rounds room).run s = r at hends h
  generalize (statementBody X.rounds' (room + X.spare)).run s' = r' at hends ⊢
  cases hends with
  | error | deep | stuck => cases h
  | lost _ hg =>
      dsimp only at h
      rw [run_bind] at h
      obtain ⟨t, s₂, us, -, -, hnil, -⟩ | ⟨e, s₂, hr, -⟩ :=
        runs_expect hsemicolon "Expected ';' after statement" _ hg
      · cases hnil
      · rw [hr] at h
        cases h
  | @ok st' _ _ us hg hg' hlen =>
      dsimp only at h ⊢
      rw [run_bind] at h ⊢
      obtain ⟨t, s₂, vs, hr, hg₂, rfl, htk⟩ | ⟨e, s₂, hr, -⟩ :=
        runs_expect hsemicolon "Expected ';' after statement" _ hg
      · rw [hr] at h
        cases h
        obtain ⟨t', s₂', vs', hr', hg₂', hvs, -⟩ | ⟨e, s₂', -, hother⟩ :=
          runs_expect hsemicolon "Expected ';' after statement" _ hg'
        · rw [hr']
          cases hvs
          exact ⟨vs, s₂', hlen, rfl, hg₂, hg₂'⟩
        · exact absurd htk (hother t _ rfl)
      · rw [hr] at h
        cases h

theorem Carries.statement_bind {room : Nat} {f g : Stmt → Parser α} (hts : X.Fits ts)
    (h : ∀ st us, us.length < ts.length → X.Carries (f st) (g st) us) :
    X.Carries (statement X.rounds room >>= f) (statement X.rounds' (room + X.spare) >>= g) ts := by
  intro s s' hs hs'
  have hends := covers_statement room ts hts s s' hs hs'
  rw [run_bind, run_bind]
  cases hleft : (statement X.rounds room).run s with
  | mk r s₁ =>
      cases r with
      | error e =>
          rw [hleft] at hends
          generalize (statement X.rounds' (room + X.spare)).run s' = r' at hends
          cases hends with
          | error => exact .error
          | deep hspare => exact .deep hspare
          | stuck hlonger => exact .stuck hlonger
      | ok st =>
          obtain ⟨us, s₁', hlt, hr', hg, hg'⟩ := statement_ok hts hs hs' hleft
          rw [hr']
          exact (h st us hlt s₁ s₁' hg hg').mono hlt.le

/-- Statements, told apart by whether the next token is the end of input. -/
theorem statements_eq (rounds room count : Nat) : statements rounds room (count + 1) = peek >>= fun t =>
    if t.isEnd then pure [] else statement rounds room >>= fun st =>
      (st :: ·) <$> statements rounds room count := by
  have hcheck : check [.endOfInput] = peek >>= fun t => pure t.isEnd := by
    unfold check Token.isEnd
    simp only [List.contains_cons, List.contains_nil, Bool.or_false]
  rw [statements, hcheck, bind_assoc]
  refine congrArg _ (funext fun t => ?_)
  rw [pure_bind]
  cases t.isEnd <;> rfl

theorem isEnd_of_lookahead {z : Ending} {t : Token} (h : lookahead z [] = .ok t) : t.isEnd = true := by
  obtain ⟨us, hus⟩ | ⟨-, -, rfl⟩ := lookahead_eq_ok h
  · cases hus
  · rfl

/-- Statements are read the same with any number of rounds that is enough. -/
theorem carries_statements (room : Nat) : ∀ n n' ts, n ≤ X.rounds → n' ≤ X.rounds' → ts.length ≤ n →
    ts.length + X.more.length ≤ n' →
      X.Carries (statements X.rounds room n) (statements X.rounds' (room + X.spare) n') ts := by
  intro n
  induction n with
  | zero =>
      intro n' ts _ _ hlen _
      obtain rfl : ts = [] := List.eq_nil_of_length_eq_zero (Nat.le_zero.mp hlen)
      cases n' with
      | zero => exact Carries.peek_bind fun _ _ => .pure []
      | succ n' =>
          rw [statements_eq]
          refine Carries.peek_bind fun t ht => ?_
          rw [isEnd_of_lookahead ht]
          exact .pure []
  | succ n ih =>
      intro n' ts hn hn' hlen hlen'
      rw [statements_eq]
      cases n' with
      | zero =>
          obtain rfl : ts = [] := List.eq_nil_of_length_eq_zero (by omega)
          refine Carries.peek_bind fun t ht => ?_
          rw [isEnd_of_lookahead ht]
          exact .pure []
      | succ n' =>
          rw [statements_eq]
          refine Carries.peek_bind fun t _ => ?_
          cases t.isEnd with
          | true => exact .pure []
          | false =>
              refine Carries.statement_bind ⟨hlen.trans hn, hlen'.trans hn'⟩ fun st us hus => ?_
              exact (ih n' us (by omega) (by omega) (by omega) (by omega)).map _

/-- Where there are no tokens, no statements are read, and only without a fault. -/
theorem statements_nil {z : Ending} {rounds room n : Nat} {s s₁ : Stream} {ss : List Stmt}
    (hs : Gives z s []) (h : (statements rounds room n).run s = (.ok ss, s₁)) :
    ss = [] ∧ z.fault = none := by
  have hfault {t : Token} (ht : lookahead z [] = .ok t) : z.fault = none := by
    obtain ⟨us, hus⟩ | ⟨-, hz, -⟩ := lookahead_eq_ok ht
    · cases hus
    · exact hz
  have hruns : Runs z (statements rounds room n) [] (fun ss _ => ss = [] ∧ z.fault = none)
      (fun _ => True) := by
    cases n with
    | zero => exact Runs.peek_bind (fun _ ht => .pure ⟨rfl, hfault ht⟩) (fun _ _ => trivial)
    | succ n =>
        rw [statements_eq]
        refine Runs.peek_bind (fun t ht => ?_) (fun _ _ => trivial)
        rw [isEnd_of_lookahead ht]
        exact .pure ⟨rfl, hfault ht⟩
  obtain ⟨a, s', us, hr, -, ha⟩ | ⟨e, s', hr, -⟩ := hruns s hs
  · cases h.symm.trans hr
    exact ha
  · cases h.symm.trans hr

/-- Where there are tokens, a statement is read and then the others. -/
theorem run_statements_cons {z : Ending} {s : Stream} {t : Token} (hs : Gives z s (t :: ts))
    (rounds room n : Nat) :
    ∃ s₁, Gives z s₁ (t :: ts) ∧ (statements rounds room (n + 1)).run s =
    match (statement rounds room).run s₁ with
      | (.ok st, s₂) =>
        (((statements rounds room n).run s₂).1.map (st :: ·), ((statements rounds room n).run s₂).2)
      | (.error e, s₂) => (.error e, s₂) := by
  obtain ⟨u, s₁, hr, hl, -, hg⟩ | ⟨e, s₁, -, hl⟩ := peek_run hs
  · obtain rfl : t = u := Except.ok.inj hl
    have hend : t.isEnd = false := hs.proper t List.mem_cons_self
    refine ⟨s₁, hg, ?_⟩
    rw [statements_eq, run_bind, hr]
    dsimp only
    rw [hend, if_neg Bool.false_ne_true, run_bind]
    rcases (statement rounds room).run s₁ with ⟨e | st, s₂⟩
    · rfl
    · exact run_map _ _ _
  · cases hl

theorem statements_cons_ok {z : Ending} {rounds room n : Nat} {s s₁ : Stream} {t : Token}
    {ss : List Stmt} (hs : Gives z s (t :: ts))
    (h : (statements rounds room (n + 1)).run s = (.ok ss, s₁)) :
    ∃ st rest s₂ s₃, Gives z s₂ (t :: ts) ∧ (statement rounds room).run s₂ = (.ok st, s₃) ∧
      (statements rounds room n).run s₃ = (.ok rest, s₁) ∧ ss = st :: rest := by
  obtain ⟨s₂, hg, hrun⟩ := run_statements_cons hs rounds room n
  rw [hrun] at h
  cases hst : (statement rounds room).run s₂ with
  | mk r s₃ =>
      rw [hst] at h
      cases r with
      | error e => cases h
      | ok st =>
          dsimp only at h
          cases hrest : (statements rounds room n).run s₃ with
          | mk r s₄ =>
              rw [hrest] at h
              cases r with
              | error e => cases h
              | ok rest =>
                  cases h
                  exact ⟨st, rest, s₂, s₃, hg, hst, hrest, rfl⟩

/-- Statements that were read to their end are read the same before others, which are read then. -/
theorem statements_append (room : Nat) :
    ∀ n n' ts s s' s₁ ss, n ≤ X.rounds → n' ≤ X.rounds' → ts.length ≤ n →
    ts.length + X.more.length ≤ n' → Gives X.ending s ts → Gives X.ending' s' (ts ++ X.more) →
    (statements X.rounds room n).run s = (.ok ss, s₁) →
      X.ending.fault = none ∧ ∃ k s'', k ≤ n' ∧ X.more.length ≤ k ∧ Gives X.ending' s'' X.more ∧
        ((statements X.rounds' (room + X.spare) n').run s').1 =
          ((statements X.rounds' (room + X.spare) k).run s'').1.map (ss ++ ·) := by
  intro n
  induction n with
  | zero =>
      intro n' ts s s' s₁ ss _ _ hlen hlen' hs hs' hrun
      obtain rfl : ts = [] := List.eq_nil_of_length_eq_zero (Nat.le_zero.mp hlen)
      obtain ⟨rfl, hfault⟩ := statements_nil hs hrun
      refine ⟨hfault, n', s', le_rfl, by simpa using hlen', hs', ?_⟩
      cases ((statements X.rounds' (room + X.spare) n').run s').1 <;> rfl
  | succ n ih =>
      intro n' ts s s' s₁ ss hn hn' hlen hlen' hs hs' hrun
      cases ts with
      | nil =>
          obtain ⟨rfl, hfault⟩ := statements_nil hs hrun
          refine ⟨hfault, n', s', le_rfl, by simpa using hlen', hs', ?_⟩
          cases ((statements X.rounds' (room + X.spare) n').run s').1 <;> rfl
      | cons t us =>
          have hfits : X.Fits (t :: us) := ⟨hlen.trans hn, hlen'.trans hn'⟩
          rw [List.length_cons] at hlen hlen'
          obtain ⟨n', rfl⟩ : ∃ m, n' = m + 1 := ⟨n' - 1, by omega⟩
          obtain ⟨st, rest, s₂, s₃, hg, hst, hrest, rfl⟩ := statements_cons_ok hs hrun
          obtain ⟨s₂', hg', hrun'⟩ := run_statements_cons hs' X.rounds' (room + X.spare) n'
          obtain ⟨vs, s₃', hlt, hst', hg₃, hg₃'⟩ := statement_ok hfits hg hg' hst
          rw [List.length_cons] at hlt
          obtain ⟨hfault, k, s'', hk, hmore, hg'', heq⟩ :=
            ih n' vs s₃ s₃' s₁ rest (by omega) (by omega) (by omega)
            (by omega) hg₃ hg₃' hrest
          refine ⟨hfault, k, s'', by omega, hmore, hg'', ?_⟩
          rw [hrun', hst']
          dsimp only
          rw [heq]
          cases ((statements X.rounds' (room + X.spare) k).run s'').1 <;> rfl

/-- An expression that spans the whole text is read the same with any number of rounds that is
enough. -/
theorem covers_wholeExpression (room : Nat) :
    X.Covers (wholeExpression X.rounds room) (wholeExpression X.rounds' (room + X.spare)) := by
  intro ts hts
  refine (covers_expression room ts hts).bind fun e us _ => Carries.peek_bind fun t _ => ?_
  cases t.isEnd with
  | true => exact .pure e
  | false => exact .throw (.trailing t)

end Extension

/-! ## Rounds and room -/

section

variable {z : Ending} {ts : List Token} {s s' : Stream} {rounds rounds' : Nat}

/-- Two parsers that go on alike on the same text end the same, unless the first one runs out of
room that the second one has. -/
theorem run_eq_of_carries {p q : Parser α} {spare : Nat}
    (h : Extension.Carries ⟨z, z, [], rounds, rounds', spare⟩ p q ts) (hs : Gives z s ts)
    (hs' : Gives z s' ts) (hroom : spare = 0 ∨ ¬TooDeep (p.run s).1) :
    (q.run s').1 = (p.run s).1 := by
  have hsame : ¬ Extension.Longer ⟨z, z, [], rounds, rounds', spare⟩ := by
    rintro (hmore | hending)
    · exact hmore rfl
    · exact hending rfl
  rw [← List.append_nil ts] at hs'
  exact (h s s' hs hs').eq hsame hroom

/-- What is made of statements depends neither on the number of rounds, as long as it is enough, nor
on the room, as long as it does not run out. -/
theorem statements_mono {n n' : Nat} (room spare : Nat) (hs : Gives z s ts) (hs' : Gives z s' ts)
    (hlen : ts.length ≤ n) (hn : n ≤ rounds) (hlen' : ts.length ≤ n') (hn' : n' ≤ rounds')
    (hroom : spare = 0 ∨ ¬TooDeep ((statements rounds room n).run s).1) :
    ((statements rounds' (room + spare) n').run s').1 = ((statements rounds room n).run s).1 := by
  let X : Extension := ⟨z, z, [], rounds, rounds', spare⟩
  exact run_eq_of_carries (X.carries_statements room n n' ts hn hn' hlen hlen') hs hs' hroom

/-- Nor is what is made of an expression. -/
theorem wholeExpression_mono (room spare : Nat) (hs : Gives z s ts) (hlen : ts.length ≤ rounds)
    (hroom : ¬TooDeep ((wholeExpression rounds room).run s).1) :
    ((wholeExpression rounds (room + spare)).run s).1 = ((wholeExpression rounds room).run s).1 := by
  let X : Extension := ⟨z, z, [], rounds, rounds, spare⟩
  exact run_eq_of_carries (X.covers_wholeExpression room ts ⟨hlen, hlen⟩) hs hs (.inr hroom)

end

end Lox.Descent
