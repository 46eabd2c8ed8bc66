import Lox.Proofs.Descent.Complaints
import Lox.Proofs.Descent.Infix
import Lox.Proofs.Descent.Lines
import Lox.Proofs.Eval.Room
import Lox.Proofs.Parity.Acceptance
import Lox.Render
/-!
# `Depth.Guards` — limits on depth change no result

Nothing that has a limit on depth gives another result for it, but for the error that says so
(`depth_guards_harmless`). Where a function follows its tree, the result without the limit is that
of a function without room next to it. Descent follows no tree; there it is what more room does to a
run (`Descent.Extension`), together with a room that no text takes up.

That error is not for long texts. A text without signs whose parentheses nest little is read
however long it is, and a long row of operands becomes a tree that leans to the left, one level
deeper with each operator.
-/
namespace Lox

variable {α : Type}

/-! ## Writing -/

/-- A tree as text, unless it is deeper than allowed. -/
def Node.textWithin (n : Node) (depth : Nat) : Except RenderError String :=
  if n.depth ≤ depth then .ok n.render else .error {}

theorem Node.guarded_text (n : Node) : Guarded (· = {}) n.textWithin (.ok n.render) := by
  refine ⟨not_exceeds_ok _, n.depth, fun depth => ⟨fun hle => if_pos hle, fun hlt => ?_⟩⟩
  exact exceeds_eq.mpr (if_neg (Nat.not_le.mpr hlt))

/-! ## Making trees of phrases -/

namespace Grammar

theorem Terminal.number_ne_tooDeep (t : Terminal) : t.number ≠ .error .tooDeep := by
  unfold Terminal.number
  split
  · split <;> simp
  · simp

theorem Phrase.guarded_toExpr (p : Phrase) :
    Guarded (· = .tooDeep) (fun room => p.toExpr room) p.tree := by
  induction p with
  | number t => exact .const (exceeds_eq.not.mpr t.number_ne_tooDeep)
  | leaf l => exact .ok _
  | group p ih => exact (ih.map Expr.group).descend rfl le_rfl
  | unary op p ih => exact (ih.map (Expr.unary op)).descend rfl le_rfl
  | binary op l r ihl ihr => exact (ihl.bind fun a => ihr.map (Expr.binary op a)).descend rfl le_rfl

theorem Sentence.guarded_toStmt (s : Sentence) :
    Guarded (· = .tooDeep) (fun room => s.toStmt room) s.tree := by
  match s with
  | .expression p => exact p.guarded_toExpr.map Stmt.expression
  | .print p => exact p.guarded_toExpr.map Stmt.print
  | .declare name none => exact .ok _
  | .declare name (some p) => exact p.guarded_toExpr.map fun e => Stmt.declare name (some e)

/-- The statements are made one after another, each within the same room. -/
theorem guarded_mapM (ss : List Sentence) :
    Guarded (· = .tooDeep) (fun room => ss.mapM (Sentence.toStmt room)) (ss.mapM Sentence.tree) := by
  induction ss with
  | nil => exact .ok _
  | cons s ss ih =>
      simp only [List.mapM_cons]
      exact s.guarded_toStmt.bind fun st => ih.map (st :: ·)

/-- Deriving takes no room, so an error of it is for another reason. -/
theorem derive_ne_tooDeep (start : Reader) (complete? : Reader → Option α) (s : String) :
    derive start complete? s ≠ .error .tooDeep := by
  intro hdeep
  have hderived := Parity.derived_derive start complete? s
  rw [hdeep] at hderived
  cases hderived

/-- What the grammar makes of a program, within the given room. -/
def programWithin (s : String) (room : Nat) : Except Error (List Stmt) := do
  (← derive .forProgram Reader.program? s).mapM (Sentence.toStmt room)

/-- What the grammar makes of an expression, within the given room. -/
def exprWithin (s : String) (room : Nat) : Except Error Expr := do
  (← derive .forExpr Reader.phrase? s).toExpr room

/-- What the grammar makes of a program, however deep. -/
def programTree (s : String) : Except Error (List Stmt) := do
  (← derive .forProgram Reader.program? s).mapM Sentence.tree

/-- What the grammar makes of an expression, however deep. -/
def exprTree (s : String) : Except Error Expr := do
  (← derive .forExpr Reader.phrase? s).tree

theorem guarded_program (s : String) : Guarded (· = .tooDeep) (programWithin s) (programTree s) :=
  (Guarded.const (exceeds_eq.not.mpr (derive_ne_tooDeep _ _ s))).bind guarded_mapM

theorem guarded_expr (s : String) : Guarded (· = .tooDeep) (exprWithin s) (exprTree s) :=
  (Guarded.const (exceeds_eq.not.mpr (derive_ne_tooDeep _ _ s))).bind Phrase.guarded_toExpr

end Grammar

/-! ## Rows of operands -/

namespace Expr

/-- Operands that operators hold together, from left to right. -/
def row (first : Expr) (rest : List (BinaryOp × Expr)) : Expr :=
  rest.foldl (fun left p => .binary p.1 left p.2) first

/-- The tokens that a row of operands is written as. -/
def rowYield (first : Expr) (rest : List (BinaryOp × Expr)) : List Meaning :=
  first.yield ++ rest.flatMap fun p => .mark p.1.mark :: p.2.yield

/-- How many operators of the tier stand one below the other, going down to the left. -/
def spine (tier : Tier) : Expr → Nat
  | binary op l _ => if op.tier = tier then l.spine tier + 1 else 0
  | literal _ | group _ | unary _ _ => 0

/-- The operators are all of the tier, and the operands hold together more tightly than they do. -/
structure IsRow (tier : Tier) (first : Expr) (rest : List (BinaryOp × Expr)) : Prop where
  first_respects : first.Respects
  first_tighter : tier.rank < first.level
  ops : ∀ p ∈ rest, p.1.tier = tier
  respects : ∀ p ∈ rest, p.2.Respects
  tighter : ∀ p ∈ rest, tier.rank < p.2.level

theorem yield_row (first : Expr) (rest : List (BinaryOp × Expr)) :
    (first.row rest).yield = first.rowYield rest := by
  induction rest generalizing first with
  | nil => exact (List.append_nil _).symm
  | cons p rest ih =>
      show ((binary p.1 first p.2).row rest).yield = _
      rw [ih, rowYield, rowYield, yield, List.flatMap_cons, List.append_assoc]

/-- The row so far is the left operand of the next operator, for which it holds
together tightly enough. -/
theorem respects_row {tier : Tier} {first : Expr} {rest : List (BinaryOp × Expr)}
    (hfirst : first.Respects) (hlevel : tier.rank ≤ first.level)
    (hops : ∀ p ∈ rest, p.1.tier = tier) (hrest : ∀ p ∈ rest, p.2.Respects)
    (htighter : ∀ p ∈ rest, tier.rank < p.2.level) : (first.row rest).Respects := by
  induction rest generalizing first with
  | nil => exact hfirst
  | cons p rest ih =>
      obtain ⟨hp, hops⟩ := List.forall_mem_cons.mp hops
      obtain ⟨hright, hrest⟩ := List.forall_mem_cons.mp hrest
      obtain ⟨htight, htighter⟩ := List.forall_mem_cons.mp htighter
      have hbinary : (binary p.1 first p.2).Respects := by
        show p.1.tier.rank ≤ first.level ∧ p.1.tier.rank < p.2.level ∧ first.Respects ∧ p.2.Respects
        rw [hp]
        exact ⟨hlevel, htight, hfirst, hright⟩
      have hleft : tier.rank ≤ (binary p.1 first p.2).level := by
        show tier.rank ≤ p.1.tier.rank
        rw [hp]
      exact ih hbinary hleft hops hrest htighter

theorem IsRow.respects_row {tier : Tier} {first : Expr} {rest : List (BinaryOp × Expr)}
    (h : IsRow tier first rest) :
    (first.row rest).Respects :=
  Expr.respects_row h.first_respects h.first_tighter.le h.ops h.respects h.tighter

theorem spine_row {tier : Tier} {rest : List (BinaryOp × Expr)} (hops : ∀ p ∈ rest, p.1.tier = tier)
    (first : Expr) :
    (first.row rest).spine tier = first.spine tier + rest.length := by
  induction rest generalizing first with
  | nil => rfl
  | cons p rest ih =>
      obtain ⟨hp, hops⟩ := List.forall_mem_cons.mp hops
      show ((binary p.1 first p.2).row rest).spine tier = _
      rw [ih hops, spine, if_pos hp, List.length_cons]
      omega

theorem spine_of_tighter {tier : Tier} {e : Expr} (h : tier.rank < e.level) : e.spine tier = 0 := by
  cases e with
  | literal l => rfl
  | group e => rfl
  | unary op e => rfl
  | binary op l r =>
      have hne : op.tier ≠ tier := by
        rintro rfl
        exact absurd h (Nat.lt_irrefl _)
      exact if_neg hne

theorem IsRow.spine_row {tier : Tier} {first : Expr} {rest : List (BinaryOp × Expr)}
    (h : IsRow tier first rest) :
    (first.row rest).spine tier = rest.length := by
  rw [Expr.spine_row h.ops, spine_of_tighter h.first_tighter, Nat.zero_add]

end Expr

/-! ## Descent -/

namespace Descent

/-- What descent makes of a program, within the given room. -/
def programWithin (s : String) (room : Nat) : Except Error (List Stmt) :=
  (runOn (program · room) (.ofText s)).1

/-- What descent makes of an expression, within the given room. -/
def exprWithin (s : String) (room : Nat) : Except Error Expr :=
  (runOn (wholeExpression · room) (.ofText s)).1

/-- What descent makes of a program, however deep: the room is more than its text can take up. -/
def programTree (s : String) : Except Error (List Stmt) := programWithin s (ampleRoom (.ofText s))

/-- What descent makes of an expression, however deep. -/
def exprTree (s : String) : Except Error Expr := exprWithin s (ampleRoom (.ofText s))

theorem ahead_le_ampleRoom (s : String) :
    13 * (Stream.ofText s).ahead.length ≤ ampleRoom (.ofText s) := by
  unfold ampleRoom Stream.size
  omega

theorem exceeds_iff {x : Except Error α} : Exceeds Error.IsTooDeep x ↔ TooDeep x := by
  simp [Exceeds, Error.IsTooDeep, TooDeep]

theorem guarded_program (s : String) : Guarded Error.IsTooDeep (programWithin s) (programTree s) := by
  refine .of_mono ?_ (exceeds_iff.not.mpr (Parity.Goal.program.not_tooDeep_read (ahead_le_ampleRoom s)))
  intro room spare hroom
  exact statements_mono room spare (gives_ofText s) (gives_ofText s) (ahead_le_roundsFor s) le_rfl
    (ahead_le_roundsFor s) le_rfl (.inr (exceeds_iff.not.mp hroom))

theorem guarded_expr (s : String) : Guarded Error.IsTooDeep (exprWithin s) (exprTree s) := by
  refine .of_mono ?_ (exceeds_iff.not.mpr (Parity.Goal.expr.not_tooDeep_read (ahead_le_ampleRoom s)))
  intro room spare hroom
  exact wholeExpression_mono room spare (gives_ofText s) (ahead_le_roundsFor s)
    (exceeds_iff.not.mp hroom)

/-- There are no signs among the tokens of a text, and its parentheses nest at most 300 deep. -/
structure Shallow (s : String) : Prop where
  signs : signless false (Stream.ofText s).ahead = true
  nests : NestsWithin 300 (Stream.ofText s).ahead

/-- Parentheses 300 deep fit into the room. -/
theorem Shallow.ample {s : String} (h : Shallow s) :
    Ample False false parseRoom (Stream.ofText s).ahead :=
  .inr ⟨h.signs, 300, by decide, h.nests⟩

theorem Shallow.not_tooDeep_program {s : String} (h : Shallow s) : ¬TooDeep (parseProgram s) := by
  rintro ⟨p, hdeep⟩
  cases raised_program h.ample hdeep with
  | tooDeep hfalse => exact hfalse

theorem Shallow.not_tooDeep_expr {s : String} (h : Shallow s) : ¬TooDeep (parseExpr s) := by
  rintro ⟨p, hdeep⟩
  cases raised_expr h.ample hdeep with
  | tooDeep hfalse => exact hfalse

/-- Within any room, descent reads a text as the tree that it is the tokens of, or
the room does not suffice. -/
theorem exprWithin_of_yield {s : String} {e : Expr} (room : Nat)
    (hfault : (Stream.ofText s).fault = none) (hrespects : e.Respects)
    (hyield : e.yield = (Stream.ofText s).ahead.map (·.meaning)) :
    exprWithin s room = .ok e ∨ TooDeep (exprWithin s room) ∧
    room < 13 * (Stream.ofText s).ahead.length := by
  have hruns : Runs (endingOf s) (wholeExpression ((Stream.ofText s).size + 1) room)
    (Stream.ofText s).ahead (fun e' _ => e' = e) (Overrun _) :=
    complete_wholeExpression hrespects hyield (ahead_le_roundsFor s) hfault
  exact result_of_runs (p := (wholeExpression · room)) rfl (gives_ofText s).proper hruns

section Rows

variable {s : String} {tier : Tier} {first : Expr} {rest : List (BinaryOp × Expr)}

/-- A row of operands is read as the tree that leans to the left. -/
theorem parseExpr_row (hs : Shallow s) (hfault : (Stream.ofText s).fault = none)
    (hrow : first.IsRow tier rest)
    (htokens : (Stream.ofText s).ahead.map (·.meaning) = first.rowYield rest) :
    parseExpr s = .ok (first.row rest) := by
  have hyield : (first.row rest).yield = (Stream.ofText s).ahead.map (·.meaning) := by
    rw [htokens, Expr.yield_row]
  obtain hok | ⟨hdeep, -⟩ := exprWithin_of_yield parseRoom hfault hrow.respects_row hyield
  · exact hok
  · exact absurd hdeep hs.not_tooDeep_expr

/-- With a semicolon behind it, it is read as one statement. -/
theorem parseProgram_row (hs : Shallow s) (hfault : (Stream.ofText s).fault = none)
    (hrow : first.IsRow tier rest)
    (htokens : (Stream.ofText s).ahead.map (·.meaning) = first.rowYield rest ++ [.mark .semicolon]) :
    parseProgram s = .ok [.expression (first.row rest)] := by
  have hyield : (Stream.ofText s).ahead.map (·.meaning) =
      [Stmt.expression (first.row rest)].flatMap Stmt.yield := by
    rw [htokens, ← Expr.yield_row, List.flatMap_singleton]
    rfl
  have hrespects : ∀ st ∈ [Stmt.expression (first.row rest)], st.Respects := by
    intro st hst
    rw [List.mem_singleton.mp hst]
    exact hrow.respects_row
  have hruns : Runs (endingOf s) (program ((Stream.ofText s).size + 1) parseRoom)
    (Stream.ofText s).ahead (fun ss _ => ss = [.expression (first.row rest)]) (Overrun True) :=
    complete_statements _ _ _ hrespects hyield (ahead_le_roundsFor s) le_rfl (fun _ => trivial) hfault
  obtain hok | ⟨hdeep, -⟩ := result_of_runs (p := (program · parseRoom)) rfl
    (gives_ofText s).proper hruns
  · exact hok
  · exact absurd hdeep hs.not_tooDeep_program

end Rows

end Descent

/-! ## Limits -/

/-- Whatever has a limit on depth gives the result that it would give without, or the error that
says that it is too deep: either front end for programs and for expressions, writing a tree, and
evaluating one. In each case there is a least limit from which on the result is given.

For descent the limit has nothing to do with length. A text without signs whose parentheses nest
at most 300 deep is never too deep, however many statements and operators it has, and a row of
operands is read as the tree that leans to the left, with as many operators one below the other
as there are in the row. -/
theorem depth_guards_harmless :
    (∀ s, Limited Descent.Error.IsTooDeep (Descent.programWithin s) Descent.parseRoom
      (Descent.parseProgram s) (Descent.programTree s) ∧
      Limited Descent.Error.IsTooDeep (Descent.exprWithin s) Descent.parseRoom (Descent.parseExpr s)
        (Descent.exprTree s)) ∧
    (∀ s, Limited (· = .tooDeep) (Grammar.programWithin s) Grammar.buildRoom (Grammar.parseProgram s)
        (Grammar.programTree s) ∧
      Limited (· = .tooDeep) (Grammar.exprWithin s) Grammar.buildRoom (Grammar.parseExpr s)
        (Grammar.exprTree s)) ∧
    (∀ n : Node, Limited (· = {}) n.textWithin renderDepth n.text (.ok n.render) ∧
      Limited (· = .tooDeep) (fun room => n.eval room) evalRoom (n.eval evalRoom) n.value) ∧
    (∀ s, Descent.Shallow s →
      ¬Descent.TooDeep (Descent.parseProgram s) ∧ ¬Descent.TooDeep (Descent.parseExpr s)) ∧
    (∀ (s : String) (tier : Tier) (first : Expr) (rest : List (BinaryOp × Expr)), Descent.Shallow s →
      (Descent.Stream.ofText s).fault = none → first.IsRow tier rest →
      ((Descent.Stream.ofText s).ahead.map (·.meaning) = first.rowYield rest →
        Descent.parseExpr s = .ok (first.row rest)) ∧
      ((Descent.Stream.ofText s).ahead.map (·.meaning) = first.rowYield rest ++ [.mark .semicolon] →
        Descent.parseProgram s = .ok [.expression (first.row rest)]) ∧
      (first.row rest).spine tier = rest.length) := by
  refine ⟨fun s => ⟨?_, ?_⟩, fun s => ⟨?_, ?_⟩, fun n => ⟨?_, ?_⟩, fun s hs => ⟨?_, ?_⟩, ?_⟩
  · exact (Descent.guarded_program s).limited Descent.parseRoom
  · exact (Descent.guarded_expr s).limited Descent.parseRoom
  · exact (Grammar.guarded_program s).limited Grammar.buildRoom
  · exact (Grammar.guarded_expr s).limited Grammar.buildRoom
  · exact n.guarded_text.limited renderDepth
  · exact n.guarded_eval.limited evalRoom
  · exact hs.not_tooDeep_program
  · exact hs.not_tooDeep_expr
  · intro s tier first rest hs hfault hrow
    exact ⟨Descent.parseExpr_row hs hfault hrow, Descent.parseProgram_row hs hfault hrow,
      hrow.spine_row⟩

/-- The text `x - (nil) - y;` is one statement, with one difference below the other. -/
theorem depth_guards_harmless_differences : Descent.Shallow "x - (nil) - y;" ∧
    ¬Descent.TooDeep (Descent.parseProgram "x - (nil) - y;") ∧
    Descent.parseProgram "x - (nil) - y;" = .ok [.expression (.binary (.strict .subtract)
      (.binary (.strict .subtract) (.literal (.identifier "x")) (.group (.literal .nil)))
        (.literal (.identifier "y")))] ∧
    (Expr.binary (.strict .subtract) (.binary (.strict .subtract) (.literal (.identifier "x"))
      (.group (.literal .nil))) (.literal (.identifier "y"))).spine .term = 2 := by
  have hs : Descent.Shallow "x - (nil) - y;" := ⟨by cbv, of_decide_eq_true (by cbv)⟩
  have hfault : (Descent.Stream.ofText "x - (nil) - y;").fault = none := by cbv
  have hrow : (Expr.literal (.identifier "x")).IsRow .term
      [(.strict .subtract, .group (.literal .nil)),
        (.strict .subtract, .literal (.identifier "y"))] := by
    constructor <;> decide
  obtain ⟨-, -, -, hshallow, hrows⟩ := depth_guards_harmless
  obtain ⟨-, hprogram, hspine⟩ := hrows _ _ _ _ hs hfault hrow
  exact ⟨hs, (hshallow _ hs).1, hprogram (by cbv), hspine⟩

end Lox
