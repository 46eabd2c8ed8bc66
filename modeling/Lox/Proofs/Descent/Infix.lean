import Lox.Proofs.Descent.Runs
/-!
# `Descent.Infix` — reading is the inverse of writing infix

A tree is written as a row of meanings: operands and operators from left to right, brackets where
the tree has them. Not every tree can be read back: `a * (b + c)` without its bracket is another
tree. The trees that can be read back are those that respect precedence, and on them reading undoes
writing, in both directions: what is read respects precedence and is written as the tokens that it
was read from, and a tree that respects precedence is read from the tokens that it is written as.
-/
namespace Lox

/-! ## Writing -/

/-- The mark that a unary operator is written as. -/
def UnaryOp.mark : UnaryOp → Mark
  | negate => .minus
  | not => .bang

/-- The mark that a binary operator is written as. -/
def BinaryOp.mark : BinaryOp → Mark
  | logical .and => .andWord
  | logical .or => .orWord
  | strict .equal => .equal
  | strict .notEqual => .notEqual
  | strict .less => .less
  | strict .lessEqual => .lessEqual
  | strict .greater => .greater
  | strict .greaterEqual => .greaterEqual
  | strict .add => .plus
  | strict .subtract => .minus
  | strict .multiply => .star
  | strict .divide => .slash

/-- What a leaf is written as. -/
def Literal.meaning : Literal → Meaning
  | string s => .string s
  | identifier s => .identifier s
  | number v => .number v
  | boolean true => .mark .trueWord
  | boolean false => .mark .falseWord
  | nil => .mark .nilWord

/-- What an expression is written as. -/
def Expr.yield : Expr → List Meaning
  | literal l => [l.meaning]
  | group e => .mark .leftParen :: e.yield ++ [.mark .rightParen]
  | unary op e => .mark op.mark :: e.yield
  | binary op l r => l.yield ++ .mark op.mark :: r.yield

/-- What a statement is written as. -/
def Stmt.yield : Stmt → List Meaning
  | expression e => e.yield ++ [.mark .semicolon]
  | print e => .mark .printWord :: e.yield ++ [.mark .semicolon]
  | declare name none => [.mark .varWord, .identifier name, .mark .semicolon]
  | declare name (some e) =>
    .mark .varWord :: .identifier name :: .mark .assign :: e.yield ++ [.mark .semicolon]

/-! ## Precedence -/

/-- How tightly an expression holds together: the rank of its operator, a sign above all of them, a
leaf or a bracket above that. -/
def Expr.level : Expr → Nat
  | literal _ | group _ => 6
  | unary _ _ => 5
  | binary op _ _ => op.tier.rank

/-- Every operand holds together at least as tightly as its operator, and more tightly if it is the
right one of two. -/
def Expr.Respects : Expr → Prop
  | literal _ => True
  | group e => e.Respects
  | unary _ e => 5 ≤ e.level ∧ e.Respects
  | binary op l r => op.tier.rank ≤ l.level ∧ op.tier.rank < r.level ∧ l.Respects ∧ r.Respects

/-- The expression of a statement respects precedence. -/
def Stmt.Respects : Stmt → Prop
  | expression e | print e | declare _ (some e) => e.Respects
  | declare _ none => True

instance Expr.decidableRespects : (e : Expr) → Decidable e.Respects
  | literal _ => inferInstanceAs (Decidable True)
  | group e => decidableRespects e
  | unary _ e => @instDecidableAnd _ _ _ (decidableRespects e)
  | binary _ l r =>
    @instDecidableAnd _ _ _ (@instDecidableAnd _ _ _
      (@instDecidableAnd _ _ (decidableRespects l) (decidableRespects r)))

/-! ## Marks and operators -/

theorem unaryOp?_eq_some {k : Kind} {op : UnaryOp} : k.unaryOp? = some op ↔ k = .mark op.mark := by
  constructor
  · intro h
    unfold Kind.unaryOp? at h
    split at h <;> cases h <;> rfl
  · rintro rfl
    cases op <;> rfl

theorem binaryOp?_eq_some {k : Kind} {op : BinaryOp} : k.binaryOp? = some op ↔ k = .mark op.mark := by
  constructor
  · intro h
    unfold Kind.binaryOp? at h
    split at h <;> cases h <;> rfl
  · rintro rfl
    obtain ⟨_ | _⟩ | ⟨_ | _ | _ | _ | _ | _ | _ | _ | _ | _⟩ := op <;> rfl

theorem kind_eq_mark {t : Token} {m : Mark} : t.kind = .mark m ↔ t.meaning = .mark m := by
  obtain ⟨meaning, place, lexeme⟩ := t
  cases meaning <;> simp [Token.kind, Meaning.kind]

theorem kind_eq_identifier {t : Token} :
    t.kind = .identifier ↔ ∃ name, t.meaning = .identifier name := by
  obtain ⟨meaning, place, lexeme⟩ := t
  cases meaning <;> simp [Token.kind, Meaning.kind]

namespace Descent

theorem leaf?_eq_some {t : Token} {l : Literal} : leaf? t = some l ↔ t.meaning = l.meaning := by
  obtain ⟨meaning, place, lexeme⟩ := t
  constructor
  · intro h
    unfold leaf? at h
    split at h <;> simp_all [Literal.meaning] <;> (subst h; rfl)
  · rintro rfl
    obtain _ | _ | _ | ⟨_ | _⟩ | _ := l <;> rfl

/-! ## What is read is written so

The tokens that a parser consumes are those that its tree is written as. -/

/-- Of the tokens `ts`, those before `us` are what the expression is written as; it holds together
at least at the rank, and respects precedence. -/
def Spelled (rank : Nat) (ts : List Token) (e : Expr) (us : List Token) : Prop :=
  ∃ cs, ts = cs ++ us ∧ cs.map (·.meaning) = e.yield ∧ rank ≤ e.level ∧ e.Respects

/-- The parser reads expressions of the rank off the tokens that they are written as. -/
def Sound (z : Ending) (rounds rank : Nat) (p : Parser Expr) : Prop :=
  ∀ ts, ts.length ≤ rounds → Runs z p ts (Spelled rank ts) (fun _ => True)

variable {z : Ending} {rounds : Nat}

theorem Spelled.length_le {rank : Nat} {ts us : List Token} {e : Expr} (h : Spelled rank ts e us) :
    us.length ≤ ts.length := by
  obtain ⟨cs, rfl, -⟩ := h
  simp

/-- An operator and its right operand extend what was read to a larger tree of the same tier. -/
theorem Spelled.binary {tier : Tier} {op : BinaryOp} {t : Token} {ts us vs : List Token}
    {left right : Expr} (hleft : Spelled tier.rank ts left (t :: us))
    (hop : tier.op? t.kind = some op) (hright : Spelled (tier.rank + 1) us right vs) :
    Spelled tier.rank ts (.binary op left right) vs := by
  obtain ⟨cs, rfl, hcs, hlevel, hrespects⟩ := hleft
  obtain ⟨ds, rfl, hds, hlevel', hrespects'⟩ := hright
  obtain ⟨hmark, htier⟩ := op?_eq_some.mp hop
  have ht : t.meaning = .mark op.mark := kind_eq_mark.mp (binaryOp?_eq_some.mp hmark)
  subst htier
  refine ⟨cs ++ t :: ds, by simp, by simp [Expr.yield, hcs, ht, hds], Nat.le_refl _, hlevel, ?_,
    hrespects, hrespects'⟩
  omega

theorem sound_chain {tier : Tier} {operand : Parser Expr} (h : Sound z rounds (tier.rank + 1) operand) :
    Sound z rounds tier.rank (chain rounds tier operand) := by
  intro ts hlen
  have hfirst : Runs z operand ts (Spelled tier.rank ts) (fun _ => True) := by
    refine (h ts hlen).mono ?_ (fun _ _ => trivial)
    rintro e us ⟨cs, hts, hcs, hlevel, hrespects⟩
    exact ⟨cs, hts, hcs, by omega, hrespects⟩
  refine Runs.bind hfirst ?_
  intro left us hleft
  refine Runs.chainFrom (fun left us _ hinv _ _ => hinv) ?_ (fun _ _ _ _ _ => trivial)
    rounds left us ?_ hleft
  · intro left t us op hinv hop
    have hus := hinv.length_le
    simp only [List.length_cons] at hus
    refine (h us (by omega)).mono (fun right vs hright => ?_) (fun _ _ => trivial)
    exact ⟨hright.length_le, hinv.binary hop hright⟩
  · have := hleft.length_le
    omega

/-- What no binary operator takes apart, by induction on the room: a sign takes one
level of it, a bracket thirteen. -/
theorem sound_unary (room : Nat) : Sound z rounds 5 (unary rounds room) := by
  induction room using Nat.strongRecOn with
  | ind room ih =>
      intro ts hlen
      refine Runs.unary ?_ (fun _ _ _ _ _ _ => trivial) ?_ (fun _ _ => trivial)
      -- A sign, and behind it the operand that it is for.
      · rintro t us op rfl hop hroom
        simp only [List.length_cons] at hlen
        refine (ih (room - 1) (by omega) us (by omega)).mono ?_ (fun _ _ => trivial)
        rintro e vs ⟨cs, rfl, hcs, hlevel, hrespects⟩
        have ht : t.meaning = .mark op.mark := kind_eq_mark.mp (unaryOp?_eq_some.mp hop)
        exact ⟨t :: cs, rfl, by simp [Expr.yield, ht, hcs], Nat.le_refl _, hlevel, hrespects⟩
      · intro _
        refine Runs.primary ?_ ?_ (fun _ _ _ _ _ => trivial) (fun _ _ _ _ => trivial)
          (fun _ _ => trivial)
        · rintro t us l rfl hl
          exact ⟨[t], rfl, by simp [Expr.yield, leaf?_eq_some.mp hl], by simp [Expr.level], trivial⟩
        · rintro t us rfl ht hroom
          simp only [List.length_cons] at hlen
          -- All tiers start over inside a parenthesis.
          have hinner : Sound z rounds 0 (tierOver rounds (unary rounds (room - 13)) .logical) :=
            tierOver_rank (ih (room - 13) (by omega)) (fun _ _ h => sound_chain h) .logical
          refine (hinner us (by omega)).mono ?_ (fun _ _ => trivial)
          rintro e vs ⟨cs, rfl, hcs, -, hrespects⟩
          refine ⟨?_, fun _ _ _ => trivial, fun _ _ => trivial⟩
          rintro c ws rfl hc
          refine ⟨t :: cs ++ [c], by simp, ?_, by simp [Expr.level], hrespects⟩
          simp [Expr.yield, kind_eq_mark.mp ht, hcs, kind_eq_mark.mp hc]

theorem sound_expression (room : Nat) : Sound z rounds 0 (expression rounds room) :=
  tierOver_rank (sound_unary room) (fun _ _ h => sound_chain h) .logical

/-- Of the tokens `ts`, those before `us` are what the statement is written as, up to its
semicolon. -/
def SpelledBody (ts : List Token) (s : Stmt) (us : List Token) : Prop :=
  ∃ cs, ts = cs ++ us ∧ cs.map (·.meaning) ++ [.mark .semicolon] = s.yield ∧ s.Respects

theorem sound_declaration (room : Nat) {t : Token} {ts : List Token} (ht : t.kind = .mark .varWord)
    (hlen : ts.length ≤ rounds) :
    Runs z (declaration rounds room) ts (fun s us => SpelledBody (t :: ts) s us) (fun _ => True) := by
  have hvar := kind_eq_mark.mp ht
  refine Runs.expect_bind (by decide) ?_ (fun _ _ _ => trivial) (fun _ _ => trivial)
  rintro n us rfl hn
  obtain ⟨name, hname⟩ := kind_eq_identifier.mp hn
  simp only [List.length_cons] at hlen
  simp only [hname]
  refine Runs.accept_bind (by decide) ?_ ?_ (fun _ _ => trivial)
  · rintro a vs rfl ha
    simp only [List.length_cons] at hlen
    refine Runs.bind (sound_expression room vs (by omega)) ?_
    rintro e ws ⟨cs, rfl, hcs, -, hrespects⟩
    refine Runs.pure ⟨t :: n :: a :: cs, rfl, ?_, hrespects⟩
    simp [Stmt.yield, hvar, hname, kind_eq_mark.mp ha, hcs]
  · intro _ _ _
    exact Runs.pure ⟨[t, n], rfl, by simp [Stmt.yield, hvar, hname], trivial⟩

theorem sound_statement (room : Nat) {ts : List Token} (hlen : ts.length ≤ rounds) :
    Runs z (statement rounds room) ts
      (fun s us => ∃ cs, cs ≠ [] ∧ ts = cs ++ us ∧ cs.map (·.meaning) = s.yield ∧ s.Respects)
        (fun _ => True) := by
  have hbody : Runs z (statementBody rounds room) ts (SpelledBody ts) (fun _ => True) := by
    refine Runs.accept_bind (by decide) ?_ (fun _ _ _ => ?_) (fun _ _ => trivial)
    · rintro t us rfl ht
      simp only [List.length_cons] at hlen
      exact sound_declaration room ht (by omega)
    refine Runs.accept_bind (by decide) ?_ (fun _ _ _ => ?_) (fun _ _ => trivial)
    · rintro t us rfl ht
      simp only [List.length_cons] at hlen
      refine Runs.bind (sound_expression room us (by omega)) ?_
      rintro e vs ⟨cs, rfl, hcs, -, hrespects⟩
      exact Runs.pure ⟨t :: cs, rfl, by simp [Stmt.yield, kind_eq_mark.mp ht, hcs], hrespects⟩
    · refine Runs.bind (sound_expression room ts hlen) ?_
      rintro e vs ⟨cs, rfl, hcs, -, hrespects⟩
      exact Runs.pure ⟨cs, rfl, by simp [Stmt.yield, hcs], hrespects⟩
  refine Runs.bind hbody ?_
  rintro s us ⟨cs, rfl, hcs, hrespects⟩
  refine Runs.expect_bind (by decide) ?_ (fun _ _ _ => trivial) (fun _ _ => trivial)
  rintro c vs rfl hc
  exact Runs.pure ⟨cs ++ [c], by simp, by simp, by simp [← hcs, kind_eq_mark.mp hc], hrespects⟩

theorem sound_statements (room count : Nat) : ∀ ts : List Token, ts.length ≤ count → count ≤ rounds →
    Runs z (statements rounds room count) ts
      (fun ss _ => ts.map (·.meaning) = ss.flatMap Stmt.yield ∧ ∀ s ∈ ss, s.Respects)
        (fun _ => True) := by
  induction count with
  | zero =>
      intro ts hlen _
      obtain rfl : ts = [] := List.length_eq_zero_iff.mp (Nat.le_zero.mp hlen)
      exact Runs.peek_bind (fun _ _ => Runs.pure ⟨rfl, by simp⟩) (fun _ _ => trivial)
  | succ count ih =>
      intro ts hlen hcount
      refine Runs.check_end_bind ?_ (fun _ _ _ => ?_) (fun _ _ => trivial)
      · rintro rfl -
        exact Runs.pure ⟨rfl, by simp⟩
      refine Runs.bind (sound_statement room (by omega)) ?_
      rintro s us ⟨cs, hne, rfl, hcs, hrespects⟩
      have hpos := List.length_pos_iff.mpr hne
      simp only [List.length_append] at hlen
      refine Runs.bind (ih us (by omega) (by omega)) ?_
      rintro ss _ ⟨hss, hall⟩
      exact Runs.pure ⟨by simp [hcs, hss], by simp [hrespects]; exact hall⟩

/-! ## What is written is read

The token behind an expression must not continue it. A row of operands is read by its left
spine: where the tree has an operator of the tier, the loop has arrived at the left operand
when it meets the operator. -/

/-- The room did not suffice; `deep` is what follows from that. -/
def Overrun (deep : Prop) (e : Error) : Prop := e.IsTooDeep ∧ deep

variable {deep : Prop}

/-- The tokens do not start with an operator of at least the rank, and not with a fault. -/
def Stops (z : Ending) (rank : Nat) (ts : List Token) : Prop :=
  ∃ t, lookahead z ts = .ok t ∧ ∀ op, t.kind.binaryOp? = some op → op.tier.rank < rank

theorem Stops.mono {rank rank' : Nat} {ts : List Token} (h : Stops z rank ts) (hle : rank ≤ rank') :
    Stops z rank' ts := by
  obtain ⟨t, ht, hop⟩ := h
  exact ⟨t, ht, fun op ho => Nat.lt_of_lt_of_le (hop op ho) hle⟩

/-- The parser reads every expression of the rank that is written with at most `size` tokens. -/
def Complete (z : Ending) (rounds : Nat) (deep : Prop) (size rank : Nat) (p : Parser Expr) : Prop :=
  ∀ (e : Expr) (cs us : List Token), e.Respects → rank ≤ e.level → cs.map (·.meaning) = e.yield →
    cs.length ≤ size →
    (cs ++ us).length ≤ rounds → Stops z rank us →
    Runs z p (cs ++ us) (fun e' vs => e' = e ∧ vs = us) (Overrun deep)

/-- Behind the tokens of an expression the loop of a tier goes on with that expression to its
left. -/
theorem chain_of_chainFrom {size : Nat} {tier : Tier} {operand : Parser Expr}
    (h : Complete z rounds deep size (tier.rank + 1) operand) {post : Expr → List Token → Prop}
    {fail : Error → Prop} (hfail : ∀ e, Overrun deep e → fail e) (e : Expr) :
    ∀ cs us, e.Respects → tier.rank ≤ e.level → cs.map (·.meaning) = e.yield → cs.length ≤ size →
      (cs ++ us).length ≤ rounds → Stops z (tier.rank + 1) us →
      (∀ n, us.length ≤ n → Runs z (chainFrom operand tier n e) us post fail) →
      Runs z (chain rounds tier operand) (cs ++ us) post fail := by
  -- An operand of the row by itself is read by the next tier.
  have hoperand : ∀ e cs us, Expr.Respects e → tier.rank + 1 ≤ e.level → cs.map (·.meaning) = e.yield →
      cs.length ≤ size → (cs ++ us).length ≤ rounds → Stops z (tier.rank + 1) us →
      (∀ n, us.length ≤ n → Runs z (chainFrom operand tier n e) us post fail) →
      Runs z (chain rounds tier operand) (cs ++ us) post fail := by
    intro e cs us hrespects hlevel hcs hsize hlen hstops hrest
    refine Runs.bind ((h e cs us hrespects hlevel hcs hsize hlen hstops).mono (fun _ _ h => h) hfail) ?_
    rintro _ _ ⟨rfl, rfl⟩
    exact hrest rounds (by simp only [List.length_append] at hlen; omega)
  have hrank := tier.rank_le_four
  induction e with
  | literal _ | group _ _ | unary _ _ _ =>
      intro cs us hrespects _
      exact hoperand _ cs us hrespects (by simp only [Expr.level]; omega)
  | binary op l r ihl _ =>
      intro cs us hrespects hlevel hcs hsize hlen hstops hrest
      -- An operator of the tier is on the left spine; one of a tier above belongs to an operand.
      by_cases hrank : tier.rank = op.tier.rank
      · obtain rfl := Tier.rank_injective hrank
        obtain ⟨hl, hr, hlrespects, hrrespects⟩ := hrespects
        obtain ⟨cl, ds, rfl, hcl, hds⟩ := List.map_eq_append_iff.mp hcs
        obtain ⟨t, cr, rfl, ht, hcr⟩ := List.map_eq_cons_iff.mp hds
        have hop : op.tier.op? t.kind = some op :=
          op?_eq_some.mpr ⟨binaryOp?_eq_some.mpr (kind_eq_mark.mpr ht), rfl⟩
        simp only [List.length_append, List.length_cons] at hsize hlen
        rw [List.append_assoc, List.cons_append]
        refine ihl cl (t :: (cr ++ us)) hlrespects hl hcl (by omega) (by simp; omega) ⟨t, rfl, ?_⟩ ?_
        · intro op' hop'
          obtain rfl : op = op' := Option.some.inj ((op?_eq_some.mp hop).1.symm.trans hop')
          exact Nat.lt_succ_self _
        -- Behind the left operand the loop meets the operator, and has rounds left for it.
        · intro n hn
          cases n with
          | zero => simp at hn
          | succ n =>
              simp only [List.length_cons, List.length_append] at hn
              refine Runs.chainFrom_step hop
                ((h r cr us hrrespects hr hcr (by omega) (by simp; omega) hstops).mono
                (fun _ _ h => h) hfail) ?_
              rintro _ _ ⟨rfl, rfl⟩
              exact hrest n (by omega)
      · refine hoperand _ cs us hrespects ?_ hcs hsize hlen hstops hrest
        simp only [Expr.level] at hlevel ⊢
        omega

theorem complete_chain {size : Nat} {tier : Tier} {operand : Parser Expr}
    (h : Complete z rounds deep size (tier.rank + 1) operand) :
    Complete z rounds deep size tier.rank (chain rounds tier operand) := by
  intro e cs us hrespects hlevel hcs hsize hlen hstops
  refine chain_of_chainFrom h (fun _ h => h) e cs us hrespects hlevel hcs hsize hlen
    (hstops.mono (Nat.le_succ _)) ?_
  intro n _
  obtain ⟨t, ht, hlt⟩ := hstops
  refine Runs.chainFrom_stop n ht (op?_eq_none.mpr ?_) ⟨rfl, rfl⟩
  rintro op hop rfl
  exact Nat.lt_irrefl _ (hlt op hop)

/-- A leaf is no sign. -/
theorem unaryOp?_of_leaf {t : Token} {l : Literal} (h : leaf? t = some l) : t.kind.unaryOp? = none := by
  cases hop : t.kind.unaryOp? with
  | none => rfl
  | some op =>
      have ht := leaf?_eq_some.mp h
      rw [kind_eq_mark.mp (unaryOp?_eq_some.mp hop)] at ht
      obtain _ | _ | _ | ⟨_ | _⟩ | _ := l <;> cases op <;> cases ht

/-- A leaf, whatever follows it. -/
theorem runs_primary_leaf {room : Nat} {t : Token} {us : List Token} {l : Literal}
    (hl : leaf? t = some l) :
    Runs z (primary rounds room) (t :: us) (fun e vs => e = .literal l ∧ vs = us) (Overrun deep) := by
  refine Runs.primary ?_ ?_ ?_ ?_ (by intro e he; cases he)
  · rintro _ _ l' ⟨⟩ hl'
    obtain rfl : l = l' := Option.some.inj (hl.symm.trans hl')
    exact ⟨rfl, rfl⟩
  · rintro _ _ ⟨⟩ hp
    simp [leaf?, kind_eq_mark.mp hp] at hl
  · rintro _ _ ⟨⟩ hp
    simp [leaf?, kind_eq_mark.mp hp] at hl
  · rintro _ ⟨⟩ hnone
    rw [hl] at hnone
    cases hnone

/-- A parenthesis, if what it holds is read up to its closing one. -/
theorem runs_primary_group {room : Nat} {t c : Token} {cs us : List Token} {e : Expr}
    (ht : t.kind = .mark .leftParen) (hc : c.kind = .mark .rightParen) (hdeep : room < 13 → deep)
    (hinner : 13 ≤ room → Runs z (tierOver rounds (unary rounds (room - 13)) .logical)
      (cs ++ c :: us) (fun e' vs => e' = e ∧ vs = c :: us) (Overrun deep)) :
    Runs z (primary rounds room) (t :: (cs ++ c :: us)) (fun e' vs => e' = .group e ∧ vs = us)
      (Overrun deep) := by
  refine Runs.primary ?_ ?_ ?_ ?_ (by intro e he; cases he)
  · rintro _ _ l ⟨⟩ hl
    simp [leaf?, kind_eq_mark.mp ht] at hl
  · rintro _ _ ⟨⟩ - hroom
    refine (hinner hroom).mono ?_ (fun _ h => h)
    rintro _ _ ⟨rfl, rfl⟩
    refine ⟨?_, ?_, by intro e he; cases he⟩
    · rintro _ _ ⟨⟩ -
      exact ⟨rfl, rfl⟩
    · rintro _ ⟨⟩ hne
      exact absurd hc hne
  · intro _ _ _ _ hroom
    exact ⟨⟨_, rfl⟩, hdeep hroom⟩
  · rintro _ ⟨⟩ - hne
    exact absurd ht hne

/-- Without a sign in front, what binds tightest is a leaf or a parenthesis. -/
theorem runs_unary_of_primary {room : Nat} {t : Token} {us : List Token}
    {post : Expr → List Token → Prop} (ht : t.kind.unaryOp? = none)
    (h : Runs z (primary rounds room) (t :: us) post (Overrun deep)) :
    Runs z (unary rounds room) (t :: us) post (Overrun deep) := by
  rw [unary]
  refine Runs.peek_bind ?_ (by intro e he; cases he)
  rintro _ ⟨⟩
  rw [ht]
  exact h

/-- Thirteen levels of room for every token are enough. The induction is on the room. -/
theorem complete_unary (room : Nat) :
    ∀ size, (room < 13 * size → deep) → Complete z rounds deep size 5 (unary rounds room) := by
  induction room using Nat.strongRecOn with
  | ind room ih =>
      intro size hdeep e cs us hrespects hlevel hcs hlen hrounds hstops
      cases e with
      | literal l =>
          obtain ⟨t, rfl, ht⟩ := List.map_eq_singleton_iff.mp hcs
          have hleaf := leaf?_eq_some.mpr ht
          exact runs_unary_of_primary (unaryOp?_of_leaf hleaf) (runs_primary_leaf hleaf)
      | group e =>
          obtain ⟨t, ds, rfl, ht, hds⟩ := List.map_eq_cons_iff.mp hcs
          obtain ⟨ci, dc, rfl, hci, hdc⟩ := List.map_eq_append_iff.mp hds
          obtain ⟨c, rfl, hc⟩ := List.map_eq_singleton_iff.mp hdc
          simp only [List.length_cons, List.length_append, List.length_nil] at hlen hrounds
          have hkind := kind_eq_mark.mpr ht
          have hts : t :: (ci ++ [c]) ++ us = t :: (ci ++ c :: us) := by simp
          rw [hts]
          apply runs_unary_of_primary (by rw [hkind]; rfl)
          refine runs_primary_group hkind (kind_eq_mark.mpr hc) (fun _ => hdeep (by omega)) ?_
          intro hroom
          have hinner : Complete z rounds deep ci.length 0
              (tierOver rounds (unary rounds (room - 13)) .logical) :=
            tierOver_rank (ih (room - 13) (by omega) ci.length (fun _ => hdeep (by omega)))
              (fun _ _ h => complete_chain h) .logical
          refine hinner e ci (c :: us) hrespects (Nat.zero_le _) hci (Nat.le_refl _) ?_ ⟨c, rfl, ?_⟩
          · simp only [List.length_append, List.length_cons]; omega
          · intro op hop
            rw [kind_eq_mark.mpr hc] at hop
            cases hop
      | unary op e =>
          obtain ⟨t, ds, rfl, ht, hds⟩ := List.map_eq_cons_iff.mp hcs
          obtain ⟨hlevel', hrespects'⟩ := hrespects
          have hop : t.kind.unaryOp? = some op := unaryOp?_eq_some.mpr (kind_eq_mark.mpr ht)
          simp only [List.length_cons, List.length_append] at hlen hrounds
          refine Runs.unary ?_ ?_ ?_ (by intro e he; cases he)
          · rintro _ _ op' ⟨⟩ hop' hroom
            obtain rfl : op = op' := Option.some.inj (hop.symm.trans hop')
            have hinner : Complete z rounds deep ds.length 5 (unary rounds (room - 1)) :=
              ih (room - 1) (by omega) ds.length (fun _ => hdeep (by omega))
            refine (hinner e ds us hrespects' hlevel' hds (Nat.le_refl _)
              (by simp; omega) hstops).mono ?_ (fun _ h => h)
            rintro _ _ ⟨rfl, rfl⟩
            exact ⟨rfl, rfl⟩
          · intro _ _ _ _ _ hzero
            exact ⟨⟨_, rfl⟩, hdeep (by omega)⟩
          · intro hnone
            rw [hnone t rfl] at hop
            cases hop
      | binary op l r =>
          have := op.tier.rank_le_four
          simp only [Expr.level] at hlevel
          omega

theorem complete_expression {room size : Nat} (h : room < 13 * size → deep) :
    Complete z rounds deep size 0 (expression rounds room) :=
  tierOver_rank (complete_unary room size h) (fun _ _ h => complete_chain h) .logical

/-- No expression starts like a statement of another kind. -/
theorem yield_eq_cons (e : Expr) :
    ∃ m ms, e.yield = m :: ms ∧ m ≠ .mark .varWord ∧ m ≠ .mark .printWord := by
  induction e with
  | literal l =>
      refine ⟨l.meaning, [], rfl, ?_⟩
      obtain _ | _ | _ | ⟨_ | _⟩ | _ := l <;> simp [Literal.meaning]
  | group e _ => exact ⟨_, _, rfl, by decide, by decide⟩
  | unary op e _ => exact ⟨_, _, rfl, by cases op <;> decide, by cases op <;> decide⟩
  | binary op l r ihl _ =>
      obtain ⟨m, ms, hl, hne⟩ := ihl
      exact ⟨m, ms ++ .mark op.mark :: r.yield, by simp [Expr.yield, hl], hne⟩

/-- An expression is read up to the semicolon behind it. -/
theorem runs_expression_semicolon {room : Nat} {e : Expr} {cs us : List Token} {c : Token}
    (hrespects : e.Respects) (hcs : cs.map (·.meaning) = e.yield)
    (hc : c.meaning = .mark .semicolon) (hdeep : room < 13 * cs.length → deep)
    (hlen : (cs ++ c :: us).length ≤ rounds) :
    Runs z (expression rounds room) (cs ++ c :: us) (fun e' vs => e' = e ∧ vs = c :: us)
      (Overrun deep) := by
  refine complete_expression hdeep e cs (c :: us) hrespects (Nat.zero_le _) hcs (Nat.le_refl _) hlen
    ⟨c, rfl, ?_⟩
  intro op hop
  rw [kind_eq_mark.mpr hc] at hop
  cases hop

/-- A statement that does not start with the word is not taken for one that does. -/
theorem accept_miss {k : Kind} {t : Token} {us : List Token} {f : Bool → Parser Stmt}
    {post : Stmt → List Token → Prop} (hk : k ≠ .endOfInput) (ht : t.kind ≠ k)
    (h : Runs z (f false) (t :: us) post (Overrun deep)) :
    Runs z (accept [k] >>= f) (t :: us) post (Overrun deep) := by
  refine Runs.accept_bind hk ?_ (fun _ _ _ => h) (by intro e he; cases he)
  rintro _ _ ⟨⟩ hk
  exact absurd hk ht

/-- A statement that starts with the word goes on behind it. -/
theorem accept_hit {k : Kind} {t : Token} {us : List Token} {f : Bool → Parser Stmt}
    {post : Stmt → List Token → Prop} (hk : k ≠ .endOfInput) (ht : t.kind = k)
    (h : Runs z (f true) us post (Overrun deep)) :
    Runs z (accept [k] >>= f) (t :: us) post (Overrun deep) := by
  refine Runs.accept_bind hk ?_ ?_ (by intro e he; cases he)
  · rintro _ _ ⟨⟩ -
    exact h
  · rintro _ ⟨⟩ hne
    exact absurd ht hne

/-- A declaration, from the name of the variable to the semicolon. -/
theorem complete_declaration {room : Nat} {name : String} {initial : Option Expr} {n c : Token}
    {cs us : List Token} (hn : n.meaning = .identifier name)
    (hrespects : (Stmt.declare name initial).Respects)
    (hcs : .mark .varWord :: .identifier name :: cs.map (·.meaning) ++ [.mark .semicolon] =
      (Stmt.declare name initial).yield)
    (hc : c.meaning = .mark .semicolon) (hdeep : room < 13 * cs.length → deep)
    (hlen : (cs ++ c :: us).length ≤ rounds) :
    Runs z (declaration rounds room) (n :: (cs ++ c :: us))
      (fun s vs => s = .declare name initial ∧ vs = c :: us) (Overrun deep) := by
  have hckind := kind_eq_mark.mpr hc
  refine Runs.expect_bind (by decide) ?_ ?_ (by intro e he; cases he)
  · rintro _ _ ⟨⟩ -
    simp only [hn]
    cases initial with
    | none =>
        obtain rfl : cs = [] := by simpa [Stmt.yield] using hcs
        exact accept_miss (by decide) (by rw [hckind]; decide) (Runs.pure ⟨rfl, rfl⟩)
    | some e =>
        have hcs : cs.map (·.meaning) = .mark .assign :: e.yield :=
          List.append_cancel_right (List.cons.inj (List.cons.inj hcs).2).2
        obtain ⟨a, ds, rfl, ha, hds⟩ := List.map_eq_cons_iff.mp hcs
        simp only [List.length_append, List.length_cons] at hdeep hlen
        apply accept_hit (by decide) (kind_eq_mark.mpr ha)
        refine Runs.bind (runs_expression_semicolon hrespects hds hc (fun _ => hdeep (by omega))
          (by simp; omega)) ?_
        rintro _ _ ⟨rfl, rfl⟩
        exact Runs.pure ⟨rfl, rfl⟩
  · rintro _ ⟨⟩ hne
    exact absurd (kind_eq_identifier.mpr ⟨name, hn⟩) hne

/-- The statement that is written so, up to the semicolon. -/
theorem complete_statementBody {room : Nat} {s : Stmt} {cs us : List Token} {c : Token}
    (hrespects : s.Respects) (hcs : cs.map (·.meaning) ++ [.mark .semicolon] = s.yield)
    (hc : c.meaning = .mark .semicolon) (hdeep : room < 13 * cs.length → deep)
    (hlen : (cs ++ c :: us).length ≤ rounds) :
    Runs z (statementBody rounds room) (cs ++ c :: us) (fun s' vs => s' = s ∧ vs = c :: us)
      (Overrun deep) := by
  cases s with
  | expression e =>
      have hcs : cs.map (·.meaning) = e.yield := by simpa [Stmt.yield] using hcs
      have hexpr : Runs z (expression rounds room) (cs ++ c :: us) _ (Overrun deep) :=
        runs_expression_semicolon hrespects hcs hc hdeep hlen
      obtain ⟨m, ms, hms, hvar, hprint⟩ := yield_eq_cons e
      obtain ⟨t, ds, rfl, ht, -⟩ := List.map_eq_cons_iff.mp (hcs.trans hms)
      rw [List.cons_append] at hexpr ⊢
      apply accept_miss (by decide) (fun h => hvar (ht ▸ kind_eq_mark.mp h))
      apply accept_miss (by decide) (fun h => hprint (ht ▸ kind_eq_mark.mp h))
      refine Runs.bind hexpr ?_
      rintro _ _ ⟨rfl, rfl⟩
      exact Runs.pure ⟨rfl, rfl⟩
  | print e =>
      have hcs : cs.map (·.meaning) = .mark .printWord :: e.yield := List.append_cancel_right hcs
      obtain ⟨t, ds, rfl, ht, hds⟩ := List.map_eq_cons_iff.mp hcs
      have hkind := kind_eq_mark.mpr ht
      simp only [List.length_append, List.length_cons] at hdeep hlen
      rw [List.cons_append]
      apply accept_miss (by decide) (by rw [hkind]; decide)
      apply accept_hit (by decide) hkind
      refine Runs.bind (runs_expression_semicolon hrespects hds hc (fun _ => hdeep (by omega))
        (by simp; omega)) ?_
      rintro _ _ ⟨rfl, rfl⟩
      exact Runs.pure ⟨rfl, rfl⟩
  | declare name initial =>
      obtain ⟨t, n, ds, rfl, ht, hn⟩ : ∃ t n ds, cs = t :: n :: ds ∧ t.meaning = .mark .varWord ∧
          n.meaning = .identifier name := by
        obtain _ | ⟨t, _ | ⟨n, ds⟩⟩ := cs
        · cases initial <;> simp [Stmt.yield] at hcs
        · cases initial <;> simp [Stmt.yield] at hcs
        · cases initial <;> exact ⟨t, n, ds, rfl, by simp_all [Stmt.yield], by simp_all [Stmt.yield]⟩
      simp only [List.length_append, List.length_cons] at hdeep hlen
      rw [List.cons_append, List.cons_append]
      apply accept_hit (by decide) (kind_eq_mark.mpr ht)
      refine complete_declaration hn hrespects ?_ hc (fun _ => hdeep (by omega)) (by simp; omega)
      rw [← hcs]
      simp [ht, hn]

theorem complete_statement {room : Nat} {s : Stmt} {cs us : List Token} (hrespects : s.Respects)
    (hcs : cs.map (·.meaning) = s.yield) (hdeep : room < 13 * cs.length → deep)
    (hlen : (cs ++ us).length ≤ rounds) :
    Runs z (statement rounds room) (cs ++ us) (fun s' vs => s' = s ∧ vs = us) (Overrun deep) := by
  obtain ⟨ms, hms⟩ : ∃ ms, s.yield = ms ++ [.mark .semicolon] := by
    obtain e | e | ⟨name, _ | e⟩ := s
    · exact ⟨_, rfl⟩
    · exact ⟨.mark .printWord :: e.yield, rfl⟩
    · exact ⟨[.mark .varWord, .identifier name], rfl⟩
    · exact ⟨.mark .varWord :: .identifier name :: .mark .assign :: e.yield, rfl⟩
  rw [hms] at hcs
  obtain ⟨cb, dc, rfl, hcb, hdc⟩ := List.map_eq_append_iff.mp hcs
  obtain ⟨c, rfl, hc⟩ := List.map_eq_singleton_iff.mp hdc
  simp only [List.length_append, List.length_cons, List.length_nil] at hdeep hlen
  rw [List.append_assoc, List.singleton_append]
  refine Runs.bind
    (complete_statementBody hrespects (by rw [hcb, hms]) hc (fun _ => hdeep (by omega))
      (by simp; omega)) ?_
  rintro _ _ ⟨rfl, rfl⟩
  refine Runs.expect_bind (by decide) ?_ ?_ (by intro e he; cases he)
  · rintro _ _ ⟨⟩ -
    exact Runs.pure ⟨rfl, rfl⟩
  · rintro _ ⟨⟩ hne
    exact absurd (kind_eq_mark.mpr hc) hne

theorem complete_statements {room : Nat} (ss : List Stmt) : ∀ (count : Nat) (ts : List Token),
    (∀ s ∈ ss, s.Respects) → ts.map (·.meaning) = ss.flatMap Stmt.yield → ts.length ≤ count →
    count ≤ rounds →
    (room < 13 * ts.length → deep) → z.fault = none →
    Runs z (statements rounds room count) ts (fun ss' _ => ss' = ss) (Overrun deep) := by
  induction ss with
  | nil =>
      intro count ts _ hts _ _ _ hz
      obtain rfl : ts = [] := List.map_eq_nil_iff.mp hts
      have hfault : ∀ e, lookahead z [] = .error e → Overrun deep e := by
        intro e he
        simp [lookahead, hz] at he
      cases count with
      | zero => exact Runs.peek_bind (fun _ _ => Runs.pure rfl) hfault
      | succ count =>
          refine Runs.check_end_bind (fun _ _ => Runs.pure rfl) ?_ hfault
          rintro _ _ ⟨⟩
  | cons s ss ih =>
      intro count ts hall hts hlen hcount hdeep hz
      obtain ⟨cs, us, rfl, hcs, hus⟩ := List.map_eq_append_iff.mp hts
      obtain ⟨hs, hss⟩ := List.forall_mem_cons.mp hall
      have hpos : 0 < cs.length := by
        rw [← List.length_map (f := (·.meaning)), hcs]
        obtain e | e | ⟨name, _ | e⟩ := s <;> simp [Stmt.yield]
      simp only [List.length_append] at hlen hdeep
      cases count with
      | zero => omega
      | succ count =>
          refine Runs.check_end_bind ?_ (fun _ _ _ => ?_) ?_
          · intro hnil _
            simp [List.append_eq_nil_iff.mp hnil] at hpos
          · refine Runs.bind (complete_statement hs hcs (fun _ => hdeep (by omega)) (by simp; omega)) ?_
            rintro _ _ ⟨rfl, rfl⟩
            refine Runs.bind (ih count _ hss hus (by omega) (by omega)
              (fun _ => hdeep (by omega)) hz) ?_
            rintro _ _ rfl
            exact Runs.pure rfl
          · intro e he
            obtain ⟨_, hnil, -⟩ := lookahead_eq_error he
            simp [List.append_eq_nil_iff.mp hnil] at hpos

/-! ## Reading inverts writing -/

variable {s : Stream} {room : Nat}

theorem gives_unread (hbuffered : s.buffered = none) (hts : ∀ t ∈ s.ahead, t.isEnd = false) :
    Gives ⟨s.fault, s.stop⟩ s s.ahead :=
  ⟨hts, rfl, by simp [hbuffered], .inl ⟨hbuffered, rfl, rfl⟩⟩

/-- A run whose results are known to be one tree returns it, unless the room did not suffice. -/
theorem result_of_runs {α : Type} {p : Nat → Parser α} {a : α} (hbuffered : s.buffered = none)
    (hts : ∀ t ∈ s.ahead, t.isEnd = false)
    (h : Runs ⟨s.fault, s.stop⟩ (p (s.size + 1)) s.ahead (fun b _ => b = a) (Overrun deep)) :
    (runOn p s).1 = .ok a ∨ TooDeep (runOn p s).1 ∧ deep := by
  obtain ⟨b, _, hb, rfl⟩ | ⟨_, he, ⟨p, rfl⟩, hdeep⟩ := h.result (gives_unread hbuffered hts)
  · exact .inl hb
  · exact .inr ⟨⟨p, he⟩, hdeep⟩

/-- What is known of all results of a run holds of the one that it returns. -/
theorem post_of_runs {α : Type} {p : Nat → Parser α} {a : α} (post : α → Prop)
    (hbuffered : s.buffered = none) (hts : ∀ t ∈ s.ahead, t.isEnd = false)
    (h : Runs ⟨s.fault, s.stop⟩ (p (s.size + 1)) s.ahead (fun b _ => post b) (fun _ => True))
    (ha : (runOn p s).1 = .ok a) : post a := by
  obtain ⟨b, _, hb, hpost⟩ | ⟨e, he, -⟩ := h.result (gives_unread hbuffered hts)
  · obtain rfl : b = a := Except.ok.inj (hb.symm.trans ha)
    exact hpost
  · cases he.symm.trans ha

theorem sound_wholeExpression {rounds : Nat} {ts : List Token} (hlen : ts.length ≤ rounds) :
    Runs z (wholeExpression rounds room) ts
      (fun e _ => e.Respects ∧ e.yield = ts.map (·.meaning)) (fun _ => True) := by
  refine Runs.of_proper ?_
  intro hproper
  refine Runs.bind (sound_expression room ts hlen) ?_
  rintro e us ⟨cs, hus, hcs, -, hrespects⟩
  refine Runs.peek_bind (fun t ht => ?_) (fun _ _ => trivial)
  cases hend : t.isEnd with
  | false => exact Runs.throw trivial
  | true =>
      refine Runs.pure ⟨hrespects, ?_⟩
      rcases lookahead_eq_ok ht with ⟨vs, rfl⟩ | ⟨rfl, -, -⟩
      · have hfalse := hproper t (by simp [hus])
        rw [hend] at hfalse
        cases hfalse
      · rw [← hcs, hus, List.append_nil]

/-- Behind the last token nothing continues an expression. -/
theorem stops_end (hz : z.fault = none) (rank : Nat) : Stops z rank [] := by
  have hend : lookahead z [] = .ok z.token := by simp [lookahead, hz]
  exact ⟨_, hend, by intro op hop; cases hop⟩

/-- An expression that all tokens are taken up by is the whole. -/
theorem wholeExpression_of_expression {rounds : Nat} {ts : List Token} {e : Expr} (hz : z.fault = none)
    (h : Runs z (expression rounds room) ts (fun e' vs => e' = e ∧ vs = []) (Overrun deep)) :
    Runs z (wholeExpression rounds room) ts (fun e' _ => e' = e) (Overrun deep) := by
  have hend : lookahead z [] = .ok z.token := by simp [lookahead, hz]
  refine Runs.bind h ?_
  rintro _ _ ⟨rfl, rfl⟩
  refine Runs.peek_bind (fun t ht => ?_) (by intro e he; rw [hend] at he; cases he)
  obtain rfl : z.token = t := Except.ok.inj (hend.symm.trans ht)
  exact Runs.pure rfl

theorem complete_wholeExpression {rounds : Nat} {ts : List Token} {e : Expr} (hrespects : e.Respects)
    (hyield : e.yield = ts.map (·.meaning)) (hlen : ts.length ≤ rounds) (hz : z.fault = none) :
    Runs z (wholeExpression rounds room) ts (fun e' _ => e' = e) (Overrun (room < 13 * ts.length)) := by
  have hexpr : Runs z (expression rounds room) (ts ++ []) (fun e' vs => e' = e ∧ vs = [])
      (Overrun (room < 13 * ts.length)) :=
    complete_expression (fun h => h) e ts [] hrespects (Nat.zero_le _) hyield.symm (Nat.le_refl _)
      (by simpa using hlen) (stops_end hz 0)
  rw [List.append_nil] at hexpr
  exact wholeExpression_of_expression hz hexpr

/-- **Reading inverts writing.** From tokens that no fault ends, an expression or a program is
returned exactly if it respects precedence and is written as these tokens. The only other outcome
for such a tree is that the room does not suffice, and thirteen levels for every token always do. -/
theorem reading_inverts_writing (s : Stream) (room : Nat) (hbuffered : s.buffered = none)
    (hfault : s.fault = none) (hts : ∀ t ∈ s.ahead, t.isEnd = false) :
    (∀ e, (runOn (wholeExpression · room) s).1 = .ok e → e.Respects ∧
      e.yield = s.ahead.map (·.meaning)) ∧
    (∀ e : Expr, e.Respects → e.yield = s.ahead.map (·.meaning) →
      (runOn (wholeExpression · room) s).1 = .ok e ∨
        TooDeep (runOn (wholeExpression · room) s).1 ∧ room < 13 * s.ahead.length) ∧
    (∀ ss, (runOn (program · room) s).1 = .ok ss →
      (∀ st ∈ ss, st.Respects) ∧ ss.flatMap Stmt.yield = s.ahead.map (·.meaning)) ∧
    (∀ ss : List Stmt, (∀ st ∈ ss, st.Respects) → ss.flatMap Stmt.yield = s.ahead.map (·.meaning) →
      (runOn (program · room) s).1 = .ok ss ∨
        TooDeep (runOn (program · room) s).1 ∧ room < 13 * s.ahead.length) := by
  have hlen : s.ahead.length ≤ s.size + 1 := by simp only [Stream.size]; omega
  refine ⟨fun e he => ?_, fun e hrespects hyield => ?_, fun ss hss => ?_, fun ss hrespects hyield => ?_⟩
  · exact post_of_runs (fun e => e.Respects ∧ e.yield = s.ahead.map (·.meaning)) hbuffered hts
      (sound_wholeExpression hlen) he
  · exact result_of_runs hbuffered hts (complete_wholeExpression hrespects hyield hlen hfault)
  · have hsound := post_of_runs (fun ss => s.ahead.map (·.meaning) = ss.flatMap Stmt.yield ∧
      ∀ st ∈ ss, st.Respects)
      hbuffered hts (sound_statements room (s.size + 1) s.ahead hlen (Nat.le_refl _)) hss
    exact ⟨hsound.2, hsound.1.symm⟩
  · exact result_of_runs hbuffered hts
      (complete_statements ss (s.size + 1) s.ahead hrespects hyield.symm hlen (Nat.le_refl _)
        (fun h => h) hfault)

/-- A stream of tokens that stand for these meanings. -/
def Stream.ofMeanings (ms : List Meaning) : Stream :=
  ⟨none, ms.map (⟨·, .origin, ""⟩), none, .origin, .origin⟩

/-- `1 + 2 * 3 == x - y - z and !b` has no bracket, so precedence alone tells which tree is read. -/
theorem reading_inverts_writing_product :
    (runOn (wholeExpression · 182) (.ofMeanings
      [.number 1, .mark .plus, .number 2, .mark .star, .number 3, .mark .equal, .identifier "x",
        .mark .minus, .identifier "y", .mark .minus, .identifier "z", .mark .andWord, .mark .bang,
        .identifier "b"])).1 =
    .ok (.binary (.logical .and)
      (.binary (.strict .equal)
        (.binary (.strict .add) (.literal (.number 1))
          (.binary (.strict .multiply) (.literal (.number 2)) (.literal (.number 3))))
        (.binary (.strict .subtract)
          (.binary (.strict .subtract) (.literal (.identifier "x")) (.literal (.identifier "y")))
          (.literal (.identifier "z"))))
      (.unary .not (.literal (.identifier "b")))) := by
  obtain ⟨-, hread, -⟩ := reading_inverts_writing (.ofMeanings
    [.number 1, .mark .plus, .number 2, .mark .star, .number 3, .mark .equal, .identifier "x",
      .mark .minus, .identifier "y", .mark .minus, .identifier "z", .mark .andWord, .mark .bang,
      .identifier "b"]) 182 rfl rfl (by decide)
  exact (hread _ (by decide) rfl).resolve_right fun h => absurd h.2 (by decide)

end Descent
end Lox
