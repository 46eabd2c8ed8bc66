import Lox.Proofs.Depth.Guards
import Lox.Proofs.Program.Entries
/-!
# `Program.Chains` — rows of `and` and `or`

The two logical operators are of one tier, so that a text may mix them without parentheses, and what
stands first is taken first. Read from left to right such a chain needs one truth value only: an
operator that it settles skips the operand behind it, and any other operator goes on with the truth
of its operand (`Expr.chainTruth`).

Either front end reads a chain as a tree that leans to the left, and evaluating that tree is this
fold (`logical_chains`). A link is the last operator of a chain with the operand behind it; what it
adds is said once for the tree (`Expr.eval_link`) and once for the fold (`Expr.chainTruth_snoc`).
-/
namespace Lox

/-! ## The fold -/

/-- Is there no need for the right operand, once the left one is known to be truthy or not? -/
def LogicalOp.Skips (op : LogicalOp) (t : Bool) : Prop := op = .and ∧ t = false ∨ op = .or ∧ t = true

instance (op : LogicalOp) (t : Bool) : Decidable (op.Skips t) := inferInstanceAs (Decidable (_ ∨ _))

theorem LogicalOp.skips_iff (op : LogicalOp) (t : Bool) : op.Skips t ↔ op.settledBy t = true := by
  cases op <;> cases t <;> decide

namespace Expr

/-- Whether the value is truthy. -/
def truth (e : Expr) : Except RuntimeError Bool := e.eval.map Value.isTruthy

/-- Goes on by one operator and the operand behind it. -/
def chainStep (t : Bool) (link : LogicalOp × Expr) : Except RuntimeError Bool :=
  if link.1.Skips t then .ok t else link.2.truth

/-- What a chain comes to, from left to right. -/
def chainTruth (first : Expr) (links : List (LogicalOp × Expr)) : Except RuntimeError Bool := do
  links.foldlM chainStep (← first.truth)

/-- The operands of a chain with the operators before them. -/
def infixLinks (links : List (LogicalOp × Expr)) : List (BinaryOp × Expr) :=
  links.map fun p => (.logical p.1, p.2)

/-- The tree of a chain, which leans to the left. -/
def chain (first : Expr) (links : List (LogicalOp × Expr)) : Expr := first.row (infixLinks links)

variable {first : Expr} {links : List (LogicalOp × Expr)}

theorem chain_snoc (first : Expr) (links : List (LogicalOp × Expr)) (p : LogicalOp × Expr) :
    first.chain (links ++ [p]) = .binary (.logical p.1) (first.chain links) p.2 := by
  simp only [chain, infixLinks, row, List.map_append, List.map_cons, List.map_nil,
    List.foldl_append, List.foldl_cons, List.foldl_nil]

theorem chainTruth_append (first : Expr) (links more : List (LogicalOp × Expr)) :
    first.chainTruth (links ++ more) = first.chainTruth links >>= fun t => more.foldlM chainStep t := by
  unfold chainTruth
  simp only [List.foldlM_append, bind_assoc]

theorem chainTruth_snoc (first : Expr) (links : List (LogicalOp × Expr)) (p : LogicalOp × Expr) :
    first.chainTruth (links ++ [p]) = first.chainTruth links >>= fun t => chainStep t p := by
  rw [chainTruth_append]
  simp only [List.foldlM_cons, List.foldlM_nil, bind_pure]

/-- What follows a part of a chain goes on from the truth of that part. -/
theorem chainTruth_split {t : Bool} {done : List (LogicalOp × Expr)}
    (hdone : first.chainTruth done = .ok t) (p : LogicalOp × Expr) (after : List (LogicalOp × Expr)) :
    first.chainTruth (done ++ p :: after) = chainStep t p >>= fun t => after.foldlM chainStep t := by
  rw [chainTruth_append, hdone]
  rfl

/-- An operand that is skipped might as well not be there. -/
theorem chainTruth_skipped {op : LogicalOp} {t : Bool} {done : List (LogicalOp × Expr)}
    (hdone : first.chainTruth done = .ok t) (hskips : op.Skips t) (x : Expr)
    (after : List (LogicalOp × Expr)) :
    first.chainTruth (done ++ (op, x) :: after) = first.chainTruth (done ++ after) := by
  have hstep : chainStep t (op, x) = .ok t := if_pos hskips
  rw [chainTruth_split hdone, hstep, chainTruth_append, hdone]

/-- The fold fails as the first operand does, or as one that it comes to and does not skip. -/
def FailsAt (first : Expr) (links : List (LogicalOp × Expr)) (e : RuntimeError) : Prop :=
  first.eval = .error e ∨ ∃ done op x after t, links = done ++ (op, x) :: after ∧
    first.chainTruth done = .ok t ∧
    ¬op.Skips t ∧ x.eval = .error e

theorem truth_eq_error {x : Expr} {e : RuntimeError} : x.truth = .error e ↔ x.eval = .error e := by
  unfold truth
  cases x.eval <;> simp [Except.map]

theorem chainTruth_of_failsAt {e : RuntimeError} (h : FailsAt first links e) :
    first.chainTruth links = .error e := by
  obtain hfirst | ⟨done, op, x, after, t, rfl, hdone, hskips, hx⟩ := h
  · rw [chainTruth, truth_eq_error.mpr hfirst]
    rfl
  · have hstep : chainStep t (op, x) = .error e := (if_neg hskips).trans (truth_eq_error.mpr hx)
    rw [chainTruth_split hdone, hstep]
    rfl

theorem failsAt_of_chainTruth {e : RuntimeError} (h : first.chainTruth links = .error e) :
    FailsAt first links e := by
  induction links using List.reverseRecOn with
  | nil =>
      refine .inl (truth_eq_error.mp ?_)
      rwa [chainTruth, show (fun t => List.foldlM chainStep t []) = pure from rfl, bind_pure] at h
  | append_singleton links p ih =>
      rw [chainTruth_snoc] at h
      cases hlinks : first.chainTruth links with
      -- It has failed before the last operand.
      | error e' =>
          rw [hlinks] at h
          obtain rfl : e' = e := Except.error.inj h
          obtain hfirst | ⟨done, op, x, after, t, rfl, hdone⟩ := ih hlinks
          · exact .inl hfirst
          · exact .inr ⟨done, op, x, after ++ [p], t, by simp, hdone⟩
      | ok t =>
          rw [hlinks] at h
          have hstep : chainStep t p = .error e := h
          unfold chainStep at hstep
          split at hstep
          · cases hstep
          · exact .inr ⟨links, p.1, p.2, [], t, rfl, hlinks, ‹_›, truth_eq_error.mp hstep⟩

theorem chainTruth_eq_error {e : RuntimeError} :
    first.chainTruth links = .error e ↔ FailsAt first links e :=
  ⟨failsAt_of_chainTruth, chainTruth_of_failsAt⟩

/-! ## Evaluation -/

/-- Evaluating the last link of a chain goes on from the truth of what is to its left. The left
operand has less room than the whole, and the right one has less than if it were evaluated by
itself; neither matters if the room suffices. -/
theorem eval_link {op : LogicalOp} {l r : Expr} {room : Nat} (hroom : room ≤ evalRoom)
    (h : (binary (.logical op) l r).toNode.eval room ≠ .error .tooDeep) :
    ∃ room' ≤ evalRoom, l.toNode.eval room' ≠ .error .tooDeep ∧
    (binary (.logical op) l r).toNode.eval room =
      ((l.toNode.eval room').map Value.isTruthy >>= fun t => chainStep t (op, r)).map .bool := by
  have hneed : 3 ≤ room := le_of_descend h
  rw [eval_logical op l r hneed] at h ⊢
  refine ⟨room - 3, (Nat.sub_le _ _).trans hroom, ne_tooDeep_of_bind h, ?_⟩
  cases hl : l.toNode.eval (room - 3) with
  | error e => rfl
  | ok v =>
      rw [hl, ok_bind] at h
      show op.conclude _ v = (chainStep v.isTruthy (op, r)).map .bool
      by_cases hskips : op.Skips v.isTruthy
      · rw [LogicalOp.conclude, if_pos ((op.skips_iff _).mp hskips), chainStep, if_pos hskips]
        rfl
      · rw [LogicalOp.conclude, if_neg (mt (op.skips_iff _).mpr hskips)] at h ⊢
        have hr : r.eval = r.toNode.eval (room - 3) :=
          r.eval_mono ((Nat.sub_le _ _).trans hroom) (ne_tooDeep_of_bind h)
        rw [chainStep, if_neg hskips, truth, hr]
        cases r.toNode.eval (room - 3) <;> rfl

/-- With some of the room of an evaluation, and enough of it, a chain is as truthy as the fold says,
and of one link or more the value is that truth value itself. -/
theorem eval_chain_of_ne (links : List (LogicalOp × Expr)) {room : Nat} (hroom : room ≤ evalRoom)
    (h : (first.chain links).toNode.eval room ≠ .error .tooDeep) :
    ((first.chain links).toNode.eval room).map Value.isTruthy = first.chainTruth links ∧
      (links ≠ [] → (first.chain links).toNode.eval room = (first.chainTruth links).map .bool) := by
  induction links using List.reverseRecOn generalizing room with
  | nil =>
      have hfirst : first.eval = (first.chain []).toNode.eval room := first.eval_mono hroom h
      refine ⟨?_, fun hne => absurd rfl hne⟩
      rw [← hfirst]
      show first.truth = first.truth >>= pure
      rw [bind_pure]
  | append_singleton links p ih =>
      rw [chain_snoc] at h ⊢
      obtain ⟨room', hroom', hleft, heval⟩ := eval_link hroom h
      rw [(ih hroom' hleft).1, ← chainTruth_snoc] at heval
      rw [heval]
      refine ⟨?_, fun _ => rfl⟩
      cases first.chainTruth (links ++ [p]) <;> rfl

/-- The value of a chain is what the fold comes to, unless there is too little room for the tree. -/
theorem eval_chain (hne : links ≠ []) : (first.chain links).eval = (first.chainTruth links).map .bool ∨
    (first.chain links).eval = .error .tooDeep ∧ evalRoom < (first.chain links).need := by
  by_cases hdeep : (first.chain links).eval = .error .tooDeep
  · refine .inr ⟨hdeep, Nat.lt_of_not_le ?_⟩
    intro hneed
    exact (first.chain links).eval_ne_tooDeep hneed hdeep
  · exact .inl ((eval_chain_of_ne links le_rfl hdeep).2 hne)

end Expr

/-! ## Reading by descent

The loop of a tier takes no room for the operands that it has read, so that a row of any length is
read if there is room for each operand by itself. -/

namespace Descent

variable {z : Ending} {rounds size : Nat} {deep : Prop} {tier : Tier} {operand : Parser Expr}
    {rest : List (BinaryOp × Expr)}

/-- Behind an operand of a row there is an operator of the tier, or nothing. -/
theorem stops_rest {cs : List Token} (hz : z.fault = none) (hops : ∀ p ∈ rest, p.1.tier = tier)
    (hcs : cs.map (·.meaning) = rest.flatMap fun p => .mark p.1.mark :: p.2.yield) :
    Stops z (tier.rank + 1) cs := by
  cases rest with
  | nil =>
      obtain rfl : cs = [] := List.map_eq_nil_iff.mp hcs
      exact stops_end hz _
  | cons p rest =>
      obtain ⟨t, ds, rfl, ht, -⟩ := List.map_eq_cons_iff.mp hcs
      refine ⟨t, rfl, ?_⟩
      intro op hop
      obtain rfl :
          p.1 = op := Option.some.inj ((binaryOp?_eq_some.mpr (kind_eq_mark.mpr ht)).symm.trans hop)
      rw [hops p List.mem_cons_self]
      exact Nat.lt_succ_self _

/-- The loop of a tier reads the rest of a row, with what it has read to the left. -/
theorem chainFrom_row (h : Complete z rounds deep size (tier.rank + 1) operand) (hz : z.fault = none)
    (hops : ∀ p ∈ rest, p.1.tier = tier) (hrespects : ∀ p ∈ rest, p.2.Respects)
    (htighter : ∀ p ∈ rest, tier.rank < p.2.level) (hsize : ∀ p ∈ rest, p.2.yield.length ≤ size) :
    ∀ (left : Expr) (cs : List Token) (n : Nat),
      cs.map (·.meaning) = rest.flatMap (fun p => .mark p.1.mark :: p.2.yield) → cs.length ≤ n →
      n ≤ rounds →
      Runs z (chainFrom operand tier n left) cs (fun e vs => e = left.row rest ∧ vs = [])
        (Overrun deep) := by
  induction rest with
  | nil =>
      intro left cs n hcs _ _
      obtain rfl : cs = [] := List.map_eq_nil_iff.mp hcs
      obtain ⟨t, ht, hstop⟩ := stops_end hz 0
      refine Runs.chainFrom_stop n ht (op?_eq_none.mpr ?_) ⟨rfl, rfl⟩
      intro op hop
      exact absurd (hstop op hop) (Nat.not_lt_zero _)
  | cons p rest ih =>
      intro left cs n hcs hn hrounds
      obtain ⟨hp, hops⟩ := List.forall_mem_cons.mp hops
      obtain ⟨hprespects, hrespects⟩ := List.forall_mem_cons.mp hrespects
      obtain ⟨hptighter, htighter⟩ := List.forall_mem_cons.mp htighter
      obtain ⟨hpsize, hsize⟩ := List.forall_mem_cons.mp hsize
      obtain ⟨t, ds, rfl, ht, hds⟩ := List.map_eq_cons_iff.mp hcs
      obtain ⟨cr, us, rfl, hcr, hus⟩ := List.map_eq_append_iff.mp hds
      have hop : tier.op? t.kind = some p.1 :=
        op?_eq_some.mpr ⟨binaryOp?_eq_some.mpr (kind_eq_mark.mpr ht), hp⟩
      have hlength : cr.length ≤ size := by
        rw [← List.length_map (f := (·.meaning)), hcr]
        exact hpsize
      cases n with
      | zero => cases hn
      | succ n =>
          simp only [List.length_cons, List.length_append] at hn
          refine Runs.chainFrom_step hop
            (h p.2 cr us hprespects hptighter hcr hlength (by simp; omega) (stops_rest hz hops hus)) ?_
          rintro _ _ ⟨rfl, rfl⟩
          exact ih hops hrespects htighter hsize _ _ n hus (by omega) (by omega)

/-- An expression of the loosest tier is read if there is room for each of its operands. -/
theorem expression_row {room : Nat} {first : Expr} {ts : List Token} (hz : z.fault = none)
    (hrow : first.IsRow .logical rest) (hts : ts.map (·.meaning) = first.rowYield rest)
    (hlen : ts.length ≤ rounds)
    (hroom : ∀ x ∈ first :: rest.map Prod.snd, 13 * x.yield.length ≤ room) :
    Runs z (expression rounds room) ts (fun e vs => e = first.row rest ∧ vs = []) (Overrun False) := by
  have hunary : Complete z rounds False (room / 13) 5 (unary rounds room) :=
    complete_unary room _ (by omega)
  have hoperand : Complete z rounds False (room / 13) (Tier.logical.rank + 1)
      (tierOver rounds (unary rounds room) .equality) :=
    tierOver_rank hunary (fun _ _ h => complete_chain h) .equality
  obtain ⟨hfirst, hrest⟩ := List.forall_mem_cons.mp hroom
  have hsize : ∀ p ∈ rest, p.2.yield.length ≤ room / 13 := by
    intro p hp
    have hle := hrest p.2 (List.mem_map_of_mem hp)
    omega
  obtain ⟨cs, us, rfl, hcs, hus⟩ := List.map_eq_append_iff.mp hts
  have hlength : cs.length ≤ room / 13 := by
    rw [← List.length_map (f := (·.meaning)), hcs]
    omega
  show Runs z (chain rounds .logical (tierOver rounds (unary rounds room) .equality)) (cs ++ us) _ _
  refine Runs.bind
    (hoperand first cs us hrow.first_respects hrow.first_tighter hcs hlength hlen
      (stops_rest hz hrow.ops hus)) ?_
  rintro _ _ ⟨rfl, rfl⟩
  rw [List.length_append] at hlen
  exact chainFrom_row hoperand hz hrow.ops hrow.respects hrow.tighter hsize _ _ _ hus (by omega) le_rfl

/-- There is room for the text, or for each operand by itself. -/
def Affords (s : String) (operands : List Expr) : Prop :=
  Shallow s ∨ ∀ x ∈ operands, 13 * x.yield.length ≤ parseRoom

/-- Descent reads a row of the loosest tier as the tree that leans to the left. -/
theorem parseExpr_logical {s : String} {first : Expr} {ts : List Token} (hscan : scan s = ts.map .ok)
    (hrow : first.IsRow .logical rest) (hts : ts.map (·.meaning) = first.rowYield rest) :
    parseExpr s = .ok (first.row rest) ∨
      TooDeep (parseExpr s) ∧ ¬Affords s (first :: rest.map Prod.snd) := by
  obtain ⟨rfl, hfault⟩ := ofText_of_scan hscan
  have hyield : (first.row rest).yield = (Stream.ofText s).ahead.map (·.meaning) := by
    rw [hts, Expr.yield_row]
  obtain hok | ⟨hdeep, -⟩ := exprWithin_of_yield parseRoom hfault hrow.respects_row hyield
  · exact .inl hok
  · have hdeep : TooDeep (parseExpr s) := hdeep
    refine .inr ⟨hdeep, ?_⟩
    rintro (hshallow | hroom)
    · exact hshallow.not_tooDeep_expr hdeep
    · have hruns : Runs (endingOf s) (wholeExpression ((Stream.ofText s).size + 1) parseRoom)
        (Stream.ofText s).ahead (fun e _ => e = first.row rest) (Overrun False) :=
        wholeExpression_of_expression hfault (expression_row hfault hrow hts
          (ahead_le_roundsFor s) hroom)
      obtain hok | ⟨-, hfalse⟩ := result_of_runs (p := (wholeExpression · parseRoom)) rfl
        (gives_ofText s).proper hruns
      · obtain ⟨p, hp⟩ := hdeep
        cases hok.symm.trans hp
      · exact hfalse

/-- With ample room a text is read as the tree that it is the tokens of. -/
theorem exprTree_of_yield {s : String} {e : Expr} {ts : List Token} (hscan : scan s = ts.map .ok)
    (hrespects : e.Respects) (hyield : e.yield = ts.map (·.meaning)) : exprTree s = .ok e := by
  obtain ⟨rfl, hfault⟩ := ofText_of_scan hscan
  obtain hok | ⟨-, hdeep⟩ := exprWithin_of_yield (ampleRoom (.ofText s)) hfault hrespects hyield
  · exact hok
  · exact absurd (ahead_le_ampleRoom s) (Nat.not_le.mpr hdeep)

end Descent

/-! ## Reading by the grammar -/

namespace Grammar

theorem descend_of_pos {α : Type} {room : Nat} (go : Nat → Except Error α) (h : 1 ≤ room) :
    descend room go = go (room - 1) := if_pos h

/-- A level of room for each level of the tree is enough to make it. -/
theorem Phrase.toExpr_of_depth {p : Phrase} {e : Expr} {room : Nat} (h : p.expr? = some e)
    (hroom : e.toNode.depth ≤ room) : p.toExpr room = .ok e := by
  induction p generalizing e room with
  | number t =>
      have hnumber : t.number.toOption = some e := h
      show t.number = .ok e
      cases ht : t.number with
      | error err =>
          rw [ht] at hnumber
          cases hnumber
      | ok v =>
          rw [ht] at hnumber
          rw [Option.some.inj hnumber]
  | leaf l => exact congrArg Except.ok (Option.some.inj h)
  | group p ih =>
      rw [Phrase.expr?_group] at h
      obtain ⟨e, he, rfl⟩ := Option.map_eq_some_iff.mp h
      have hlevel : e.toNode.depth + 1 ≤ room := hroom
      rw [Phrase.toExpr, descend_of_pos _ (by omega), ih he (by omega)]
      rfl
  | unary op p ih =>
      rw [Phrase.expr?_unary] at h
      obtain ⟨e, he, rfl⟩ := Option.map_eq_some_iff.mp h
      have hlevel : e.toNode.depth + 1 ≤ room := hroom
      rw [Phrase.toExpr, descend_of_pos _ (by omega), ih he (by omega)]
      rfl
  | binary op l r ihl ihr =>
      rw [Phrase.expr?_binary] at h
      obtain ⟨a, ha, hright⟩ := Option.bind_eq_some_iff.mp h
      obtain ⟨b, hb, heq⟩ := Option.bind_eq_some_iff.mp hright
      obtain rfl : .binary op a b = e := Option.some.inj heq
      have hlevel : max a.toNode.depth b.toNode.depth + 1 ≤ room := hroom
      rw [Phrase.toExpr, descend_of_pos _ (by omega), ihl ha (by omega), ihr hb (by omega)]
      rfl

/-- The grammar makes the tree that a text is the tokens of, form feeds aside, unless there is too
little room for it. -/
theorem parseExpr_of_yield {s : String} {e : Expr} {ts : List Token}
    (hscan : scan (blankFormFeeds s) = ts.map .ok) (hrespects : e.Respects)
    (hyield : e.yield = ts.map (·.meaning)) :
    parseExpr s = .ok e ∨ parseExpr s = .error .tooDeep ∧ buildRoom < e.toNode.depth := by
  obtain ⟨p, hderive, hp⟩ := Parity.Goal.expr.derive_of_read
    (show Parity.Goal.expr.read _ _ = .ok e from Descent.exprTree_of_yield hscan hrespects hyield)
  have hmake : parseExpr s = p.toExpr buildRoom := by
    have hblank := Parity.Goal.expr.make_blankFormFeeds s
    rw [Parity.Goal.make, hderive] at hblank
    exact hblank.symm
  rw [hmake]
  obtain hok | hdeep := Parity.Goal.expr.build_of_value hp buildRoom
  · exact .inl hok
  · refine .inr ⟨hdeep, Nat.lt_of_not_le ?_⟩
    intro hroom
    cases hdeep.symm.trans (Phrase.toExpr_of_depth hp hroom)

end Grammar

/-! ## Both front ends -/

namespace FrontEnd

/-- The text, with blanks for what only this front end takes for blanks. -/
def seen (f : FrontEnd) (s : String) : String :=
  match f with
  | descent => s
  | grammar => blankFormFeeds s

/-- To the front end the text consists of tokens with these meanings. -/
def Sees (f : FrontEnd) (s : String) (ms : List Meaning) : Prop :=
  ∃ ts : List Token, scan (f.seen s) = ts.map .ok ∧ ts.map (·.meaning) = ms

/-- Is a chain known to be within the limits on depth? Descent needs room for each operand, however
many there are, and the grammar needs it for the whole tree. -/
def Affords (f : FrontEnd) (s : String) (first : Expr) (links : List (LogicalOp × Expr)) : Prop :=
  match f with
  | descent => Descent.Affords s (first :: links.map Prod.snd)
  | grammar => (first.chain links).toNode.depth ≤ Grammar.buildRoom

variable {f : FrontEnd} {s : String} {first : Expr} {links : List (LogicalOp × Expr)}

theorem parseExpr_chain (hrow : first.IsRow .logical (Expr.infixLinks links))
    (hsees : f.Sees s (first.rowYield (Expr.infixLinks links))) :
    f.parseExpr s = .ok (first.chain links) ∨ TooDeep (f.parseExpr s) ∧ ¬f.Affords s first links := by
  obtain ⟨ts, hscan, hts⟩ := hsees
  cases f with
  | descent =>
      have hoperands : (Expr.infixLinks links).map Prod.snd = links.map Prod.snd := by
        rw [Expr.infixLinks, List.map_map]
        rfl
      obtain hok | ⟨hdeep, hroom⟩ := Descent.parseExpr_logical hscan hrow hts
      · exact .inl (congrArg (Except.mapError SourceError.descent) hok)
      · obtain ⟨p, hp⟩ := hdeep
        rw [hoperands] at hroom
        exact .inr ⟨⟨_, congrArg (Except.mapError SourceError.descent) hp, rfl⟩, hroom⟩
  | grammar =>
      have hyield : (first.chain links).yield = ts.map (·.meaning) := by
        rw [hts, Expr.chain, Expr.yield_row]
      obtain hok | ⟨hdeep, hroom⟩ := Grammar.parseExpr_of_yield hscan hrow.respects_row hyield
      · exact .inl (congrArg (Except.mapError SourceError.grammar) hok)
      · exact .inr ⟨⟨_, congrArg (Except.mapError SourceError.grammar) hdeep, rfl⟩,
          Nat.not_le.mpr hroom⟩

end FrontEnd

/-- Operands that are tighter than `and` and `or`, held together by one or more of these, are
evaluated from left to right, whichever front end reads them. The outcome is that of the fold, as a
truth value, unless the text or the tree is too deep for the room that there is: for reading only if
the chain is not known to be within the limits, and for evaluation only if the tree can take up more
room than there is.

The fold fails exactly with the error of the first operand that fails of those that it evaluates,
and an operand that is skipped might as well not be there. -/
theorem logical_chains {f : FrontEnd} {s : String} {first : Expr} {links : List (LogicalOp × Expr)}
    (hne : links ≠ []) (hrow : first.IsRow .logical (Expr.infixLinks links))
    (hsees : f.Sees s (first.rowYield (Expr.infixLinks links))) :
    (evaluate f s = ((first.chainTruth links).map Value.bool).mapError .runtime ∨
      TooDeep (f.parseExpr s) ∧ ¬f.Affords s first links ∨
      evaluate f s = .error (.runtime .tooDeep) ∧ evalRoom < (first.chain links).need) ∧
    (∀ e, first.chainTruth links = .error e ↔ Expr.FailsAt first links e) ∧
    (∀ done op x after t, links = done ++ (op, x) :: after → first.chainTruth done = .ok t →
      op.Skips t →
      first.chainTruth links = first.chainTruth (done ++ after)) := by
  refine ⟨?_, fun e => Expr.chainTruth_eq_error, ?_⟩
  · obtain hparse | hdeep := FrontEnd.parseExpr_chain hrow hsees
    · rw [evaluate_of_expr hparse]
      obtain heval | ⟨hdeep, hneed⟩ := Expr.eval_chain hne
      · exact .inl (congrArg _ heval)
      · exact .inr (.inr ⟨congrArg (Except.mapError Failure.runtime) hdeep, hneed⟩)
    · exact .inr (.inl hdeep)
  · rintro done op x after t rfl hdone hskips
    exact Expr.chainTruth_skipped hdone hskips x after

/-- In `false and x or nil == nil and -nil or y` the operand `x` is skipped, and `y` is not come to:
either front end ends with the error of `-nil`. -/
theorem logical_chains_minus_nil :
    evaluate .descent "false and x or nil == nil and -nil or y" =
    .error (.runtime (.notANumber "-" .nil)) ∧
    evaluate .grammar "false and x or nil == nil and -nil or y" =
    .error (.runtime (.notANumber "-" .nil)) := by
  have hrow : (Expr.literal (.boolean false)).IsRow .logical (Expr.infixLinks
      [(.and, .literal (.identifier "x")), (.or, .binary (.strict .equal) (.literal .nil)
        (.literal .nil)),
        (.and, .unary .negate (.literal .nil)), (.or, .literal (.identifier "y"))]) := by
    constructor <;> decide
  have heval : ∀ f : FrontEnd, evaluate f "false and x or nil == nil and -nil or y" =
      .error (.runtime (.notANumber "-" .nil)) := by
    intro f
    have hseen : f.seen "false and x or nil == nil and -nil or y" =
        "false and x or nil == nil and -nil or y" := by
      cases f <;> cbv
    have hscan : scan (f.seen "false and x or nil == nil and -nil or y") =
        (Descent.Stream.ofText "false and x or nil == nil and -nil or y").ahead.map .ok := by
      rw [hseen]
      cbv
    obtain ⟨hvalue | ⟨-, hdeep⟩ | ⟨-, hdeep⟩, -, -⟩ :=
      logical_chains (by decide) hrow ⟨_, hscan, by cbv⟩
    · exact hvalue
    · refine absurd ?_ hdeep
      cases f with
      | descent => exact .inr (by decide)
      | grammar => exact Nat.le_of_ble_eq_true rfl
    · exact absurd hdeep (by decide)
  exact ⟨heval .descent, heval .grammar⟩

end Lox
