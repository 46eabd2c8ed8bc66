import Lox.Proofs.Descent.Runs
/-!
# `Descent.Complaints` — which errors the parsers raise

Walked through once, the parsers show which errors they can raise (`Raised`): the fault behind the
tokens, a token that is not the wanted one with one of three notes, and want of room. Room is not
wanted for tokens without signs whose parentheses nest little (`Ample`), however many there are:
binary operators and statements take none. The room that is left and the nesting that is to come are
kept in step, so a closed parenthesis gives back what it took.
-/
namespace Lox

/-- Does an operand end with a token of the kind? -/
def Kind.endsOperand : Kind → Bool
  | identifier | string | number | mark .trueWord | mark .falseWord | mark .nilWord | mark
      .rightParen => true
  | _ => false

namespace Descent

/-! ## Signs and nesting -/

/-- Does no prefix operator stand among the tokens? `behind` tells whether an operand ends before
the first of them, so that what could be a prefix operator is none there. -/
def signless : (behind : Bool) → List Token → Bool
  | _, [] => true
  | behind, t :: ts => (behind || t.kind.unaryOp?.isNone) && signless t.kind.endsOperand ts

/-- Nowhere among the tokens are more than `depth` parentheses open. -/
def NestsWithin (depth : Nat) (ts : List Token) : Prop :=
  ∀ us ∈ ts.inits, us.countP (·.kind = .mark .leftParen) ≤
    us.countP (·.kind = .mark .rightParen) + depth

instance (depth : Nat) (ts : List Token) : Decidable (NestsWithin depth ts) :=
  inferInstanceAs (Decidable (∀ us ∈ ts.inits, _))

namespace NestsWithin

variable {depth : Nat} {t : Token} {ts : List Token}

theorem mem_inits_cons {us : List Token} (h : us ∈ ts.inits) : t :: us ∈ (t :: ts).inits := by
  rw [List.mem_inits] at h ⊢
  exact List.cons_prefix_cons.mpr ⟨rfl, h⟩

theorem opened (h : NestsWithin depth (t :: ts)) (ht : t.kind = .mark .leftParen) :
    ∃ rest, depth = rest + 1 ∧ NestsWithin rest ts := by
  -- The parenthesis alone is a prefix already, so the depth is not zero.
  have hone := h [t] (by simp [List.mem_inits])
  simp [ht] at hone
  refine ⟨depth - 1, by omega, fun us hus => ?_⟩
  have hcount := h (t :: us) (mem_inits_cons hus)
  simp [ht] at hcount ⊢
  omega

theorem closed (h : NestsWithin depth (t :: ts)) (ht : t.kind = .mark .rightParen) :
    NestsWithin (depth + 1) ts := by
  intro us hus
  have hcount := h (t :: us) (mem_inits_cons hus)
  simp [ht] at hcount ⊢
  omega

theorem tail (h : NestsWithin depth (t :: ts)) (hopen : t.kind ≠ .mark .leftParen)
    (hclose : t.kind ≠ .mark .rightParen) :
    NestsWithin depth ts := by
  intro us hus
  have hcount := h (t :: us) (mem_inits_cons hus)
  simpa [hopen, hclose] using hcount

end NestsWithin

/-- The room suffices for the tokens, or `deep` holds. -/
def Ample (deep : Prop) (behind : Bool) (room : Nat) (ts : List Token) : Prop :=
  deep ∨ signless behind ts = true ∧ ∃ depth, 13 * depth ≤ room ∧ NestsWithin depth ts

namespace Ample

variable {deep : Prop} {behind : Bool} {room : Nat} {t : Token} {ts : List Token}

theorem tail (h : Ample deep behind room (t :: ts)) (hopen : t.kind ≠ .mark .leftParen)
    (hclose : t.kind ≠ .mark .rightParen) : Ample deep t.kind.endsOperand room ts := by
  refine h.imp_right ?_
  rintro ⟨hsigns, depth, hroom, hnests⟩
  exact ⟨(Bool.and_eq_true_iff.mp hsigns).2, depth, hroom, hnests.tail hopen hclose⟩

/-- A parenthesis takes room, and leaves enough for what it holds. -/
theorem opened (h : Ample deep behind room (t :: ts)) (ht : t.kind = .mark .leftParen) :
    (deep ∨ 13 ≤ room) ∧ Ample deep false (room - 13) ts := by
  obtain hdeep | ⟨hsigns, depth, hroom, hnests⟩ := h
  · exact ⟨.inl hdeep, .inl hdeep⟩
  · obtain ⟨rest, rfl, hrest⟩ := hnests.opened ht
    have htail := (Bool.and_eq_true_iff.mp hsigns).2
    rw [ht] at htail
    exact ⟨.inr (by omega), .inr ⟨htail, rest, by omega, hrest⟩⟩

/-- A closed parenthesis gives its room back. -/
theorem closed (h : Ample deep behind (room - 13) (t :: ts)) (ht : t.kind = .mark .rightParen)
    (hroom : deep ∨ 13 ≤ room) :
    Ample deep true room ts := by
  obtain hdeep | hroom := hroom
  · exact .inl hdeep
  · refine h.imp_right ?_
    rintro ⟨hsigns, depth, hless, hnests⟩
    have htail := (Bool.and_eq_true_iff.mp hsigns).2
    rw [ht] at htail
    exact ⟨htail, depth + 1, by omega, hnests.closed ht⟩

theorem deep_of_sign (h : Ample deep false room (t :: ts)) {op : UnaryOp}
    (ht : t.kind.unaryOp? = some op) : deep := by
  obtain hdeep | ⟨hsigns, -⟩ := h
  · exact hdeep
  · simp [signless, ht] at hsigns

theorem leaf {l : Literal} (h : Ample deep behind room (t :: ts)) (ht : leaf? t = some l) :
    Ample deep true room ts := by
  have hkind : t.kind.endsOperand = true ∧ t.kind ≠ .mark .leftParen ∧ t.kind ≠ .mark .rightParen := by
    obtain ⟨meaning, place, lexeme⟩ := t
    cases meaning with
    | mark m => cases m <;> simp_all [leaf?, Token.kind, Meaning.kind, Kind.endsOperand]
    | identifier _ | string _ | number _ => simp [Token.kind, Meaning.kind, Kind.endsOperand]
    | endOfInput => cases ht
  have htail := h.tail hkind.2.1 hkind.2.2
  rwa [hkind.1] at htail

/-- Behind a binary operator an operand is wanted. -/
theorem operator {op : BinaryOp} (h : Ample deep behind room (t :: ts))
    (ht : t.kind.binaryOp? = some op) :
    Ample deep false room ts := by
  have hkind : t.kind.endsOperand = false ∧ t.kind ≠ .mark .leftParen ∧ t.kind ≠ .mark .rightParen := by
    generalize t.kind = k at ht
    cases k with
    | mark m => cases m <;> simp_all [Kind.binaryOp?, Kind.endsOperand]
    | identifier | string | number | endOfInput => cases ht
  have htail := h.tail hkind.2.1 hkind.2.2
  rwa [hkind.1] at htail

end Ample

/-! ## Errors -/

/-- What is said of a token that is not the wanted one. -/
def notes : List String :=
  ["Expected ')' after expression", "Expected variable name after 'var'",
    "Expected ';' after statement"]

/-- The errors that the parsers raise; want of room is one of them if `deep` holds. -/
inductive Raised (z : Ending) (deep : Prop) : Error → Prop
  | lexical {f : ScanError} : z.fault = some f → Raised z deep (.lexical f)
  | missing {k : Kind} {note : String} {t : Token} : note ∈ notes → Raised z deep (.missing k note t)
  | noOperand {t : Token} : Raised z deep (.noOperand t)
  | trailing {t : Token} : Raised z deep (.trailing t)
  | tooDeep {p : Place} : deep → Raised z deep (.tooDeep p)

variable {z : Ending} {deep : Prop} {rounds : Nat}

theorem raised_lookahead {ts : List Token} {e : Error} (h : lookahead z ts = .error e) :
    Raised z deep e := by
  obtain ⟨f, -, hf, rfl⟩ := lookahead_eq_error h
  exact .lexical hf

/-! ## The walk -/

/-- The parser reads an operand off tokens for which the room suffices, and it suffices
for those that are left. -/
def Reads (z : Ending) (deep : Prop) (room : Nat) (p : Parser α) : Prop :=
  ∀ ts, Ample deep false room ts → Runs z p ts (fun _ us => Ample deep true room us) (Raised z deep)

/-- Rows of operands take no room. -/
theorem reads_chain {room : Nat} {tier : Tier} {operand : Parser Expr} (h : Reads z deep room operand) :
    Reads z deep room (chain rounds tier operand) := by
  have hrow : ∀ n left ts, Ample deep true room ts →
      Runs z (chainFrom operand tier n left) ts (fun _ us => Ample deep true room us)
        (Raised z deep) := by
    intro n
    induction n with
    | zero =>
        exact fun left ts hts => Runs.peek_bind (fun _ _ => Runs.pure hts) (fun _ => raised_lookahead)
    | succ n ih =>
        intro left ts hts
        refine Runs.peek_bind (fun t ht => ?_) (fun _ => raised_lookahead)
        cases hop : tier.op? t.kind with
        | none => exact Runs.pure hts
        | some op =>
            refine Runs.advance_bind (fun _ _ => ?_) (fun _ => raised_lookahead)
            obtain ⟨us, rfl⟩ | ⟨-, -, rfl⟩ := lookahead_eq_ok ht
            · exact Runs.bind (h us (hts.operator (op?_eq_some.mp hop).1)) fun right vs hvs =>
                ih _ vs hvs
            · cases hop
  exact fun ts hts => Runs.bind (h ts hts) fun left us hus => hrow rounds left us hus

/-- All tiers read what is between them and the leaves. -/
theorem reads_tierOver {room : Nat} {operand : Parser Expr} (h : Reads z deep room operand) :
    Reads z deep room (tierOver rounds operand .logical) :=
  @tierOver_rank (fun _ => Reads z deep room) rounds operand h (fun _ _ h => reads_chain h) .logical

theorem reads_unary (room : Nat) : Reads z deep room (unary rounds room) := by
  induction room using Nat.strongRecOn with
  | ind room ih =>
      intro ts hts
      refine Runs.unary ?_ ?_ ?_ (fun _ => raised_lookahead)
      -- A sign is met only if want of room is allowed, and then the room no longer matters.
      · rintro t us op rfl hop hroom
        have hdeep := hts.deep_of_sign hop
        exact (ih (room - 1) (by omega) us (.inl hdeep)).mono (fun _ _ _ => .inl hdeep) (fun _ he => he)
      · rintro t us op rfl hop -
        exact .tooDeep (hts.deep_of_sign hop)
      · intro _
        refine Runs.primary ?_ ?_ ?_ (fun _ _ _ _ => .noOperand) (fun _ => raised_lookahead)
        · rintro t us l rfl hl
          exact hts.leaf hl
        · rintro t us rfl ht hle
          obtain ⟨hroom, hus⟩ := hts.opened ht
          have hinner :
              Reads z deep (room - 13) (tierOver rounds (unary rounds (room - 13)) .logical) :=
            reads_tierOver (ih (room - 13) (by omega))
          refine (hinner us hus).mono (fun e vs hvs => ⟨?_, ?_, ?_⟩) (fun _ he => he)
          -- Behind the closing parenthesis there is the room that there was before the opening one.
          · rintro c ws rfl hc
            exact hvs.closed hc hroom
          · exact fun _ _ _ => .missing (by simp [notes])
          · exact fun _ => raised_lookahead
        · rintro t us rfl ht hlt
          exact .tooDeep ((hts.opened ht).1.resolve_right (by omega))

theorem reads_expression (room : Nat) : Reads z deep room (expression rounds room) :=
  reads_tierOver (reads_unary room)

section Statements

variable {room : Nat} {ts : List Token}

theorem runs_declaration (hts : Ample deep false room ts) :
    Runs z (declaration rounds room) ts (fun _ us => Ample deep true room us) (Raised z deep) := by
  refine Runs.expect_bind (by decide) ?_ (fun _ _ _ => .missing (by simp [notes]))
    (fun _ => raised_lookahead)
  rintro name us rfl hname
  have hus := hts.tail (by simp [hname]) (by simp [hname])
  rw [hname] at hus
  refine Runs.accept_bind (by decide) ?_ (fun _ _ _ => Runs.pure hus) (fun _ => raised_lookahead)
  rintro assign vs rfl hassign
  have hvs := hus.tail (by simp [hassign]) (by simp [hassign])
  rw [hassign] at hvs
  exact Runs.bind (reads_expression room vs hvs) fun _ _ hws => Runs.pure hws

theorem runs_statementBody (hts : Ample deep false room ts) :
    Runs z (statementBody rounds room) ts (fun _ us => Ample deep true room us) (Raised z deep) := by
  refine Runs.accept_bind (by decide) ?_ (fun _ _ _ => ?_) (fun _ => raised_lookahead)
  · rintro t us rfl ht
    have hus := hts.tail (by simp [ht]) (by simp [ht])
    rw [ht] at hus
    exact runs_declaration hus
  refine Runs.accept_bind (by decide) ?_ (fun _ _ _ => ?_) (fun _ => raised_lookahead)
  · rintro t us rfl ht
    have hus := hts.tail (by simp [ht]) (by simp [ht])
    rw [ht] at hus
    exact Runs.bind (reads_expression room us hus) fun _ _ hvs => Runs.pure hvs
  · exact Runs.bind (reads_expression room ts hts) fun _ _ hus => Runs.pure hus

/-- Statements take no room from each other. -/
theorem runs_statement (hts : Ample deep false room ts) :
    Runs z (statement rounds room) ts (fun _ us => Ample deep false room us) (Raised z deep) := by
  refine Runs.bind (runs_statementBody hts) fun s us hus => ?_
  refine Runs.expect_bind (by decide) ?_ (fun _ _ _ => .missing (by simp [notes]))
    (fun _ => raised_lookahead)
  rintro stop vs rfl hstop
  have hvs := hus.tail (by simp [hstop]) (by simp [hstop])
  rw [hstop] at hvs
  exact Runs.pure hvs

theorem runs_statements (count : Nat) (hts : Ample deep false room ts) :
    Runs z (statements rounds room count) ts (fun _ _ => True) (Raised z deep) := by
  induction count generalizing ts with
  | zero => exact Runs.peek_bind (fun _ _ => Runs.pure trivial) (fun _ => raised_lookahead)
  | succ count ih =>
      refine Runs.check_end_bind (fun _ _ => Runs.pure trivial) (fun _ _ _ => ?_)
        (fun _ => raised_lookahead)
      refine Runs.bind (runs_statement hts) fun s us hus => ?_
      exact Runs.bind (ih hus) fun _ _ _ => Runs.pure trivial

theorem runs_wholeExpression (hts : Ample deep false room ts) :
    Runs z (wholeExpression rounds room) ts (fun _ _ => True) (Raised z deep) := by
  refine Runs.bind (reads_expression room ts hts) fun e us _ => ?_
  refine Runs.peek_bind (fun t _ => ?_) (fun _ => raised_lookahead)
  split
  · exact Runs.pure trivial
  · exact Runs.throw .trailing

end Statements

/-! ## Texts -/

theorem raised_of_runs {p : Parser α} {s : String} {e : Error}
    (h : Runs (endingOf s) p (Stream.ofText s).ahead (fun _ _ => True) (Raised (endingOf s) deep))
    (he : (p.run (.ofText s)).1 = .error e) : Raised (endingOf s) deep e := by
  obtain ⟨a, us, ha, -⟩ | ⟨e', he', hraised⟩ := h.result (gives_ofText s)
  · cases ha.symm.trans he
  · cases he'.symm.trans he
    exact hraised

/-- The errors that reading a program raises. -/
theorem raised_program {s : String} {room : Nat} {e : Error}
    (hts : Ample deep false room (Stream.ofText s).ahead)
    (h : (runOn (program · room) (.ofText s)).1 = .error e) : Raised (endingOf s) deep e :=
  raised_of_runs (runs_statements _ hts) h

/-- The errors that reading an expression raises. -/
theorem raised_expr {s : String} {room : Nat} {e : Error}
    (hts : Ample deep false room (Stream.ofText s).ahead)
    (h : (runOn (wholeExpression · room) (.ofText s)).1 = .error e) : Raised (endingOf s) deep e :=
  raised_of_runs (runs_wholeExpression hts) h

end Descent
end Lox
