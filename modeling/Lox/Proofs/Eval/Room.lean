import Lox.Eval
import Lox.Proofs.Depth.Threshold
/-!
# `Eval.Room` — what room has to do with the value of an expression

Evaluation starts with some room and may run out of it. Room decides on nothing else: with enough of
it an expression has the value that no room is spoken of in (`Node.guarded_eval`), so that an
evaluation that does not run out of room ends in the same way with more of it (`eval_mono`), and how
much is enough can be read off the expression (`eval_ne_tooDeep`).

The equations of this file say what evaluating an expression is for each way to build one, so that
no later proof opens the evaluator.
-/
namespace Lox

/-! ## Results that may be for want of room -/

section Results

variable {x : Except RuntimeError Value} {f : Value → Except RuntimeError Value}

@[simp] theorem ok_bind (v : Value) (f : Value → Except RuntimeError Value) :
    (Except.ok v >>= f) = f v :=
  rfl

@[simp] theorem error_bind (err : RuntimeError) (f : Value → Except RuntimeError Value) :
    (Except.error err >>= f) = .error err := rfl

/-- The second result is what the first one would be with more room. -/
def Ampler (x y : Except RuntimeError Value) : Prop := x = .error .tooDeep ∨ y = x

/-- Where room decides on nothing but want of room, more of it changes a result only
if there was too little. -/
theorem Guarded.ampler {within : Nat → Except RuntimeError Value} (h : Guarded (· = .tooDeep) within x)
    {room room' : Nat} (hle : room ≤ room') : Ampler (within room) (within room') := by
  by_cases hdeep : within room = .error .tooDeep
  · exact .inl hdeep
  · exact .inr (h.mono hle (exceeds_eq.not.mpr hdeep))

theorem bind_ne_tooDeep (hx : x ≠ .error .tooDeep) (hf : ∀ a, f a ≠ .error .tooDeep) :
    x >>= f ≠ .error .tooDeep := by
  cases x with
  | error e => exact hx
  | ok a => exact hf a

/-- An operand that runs out of room takes everything that waits for it along. -/
theorem ne_tooDeep_of_bind (h : x >>= f ≠ .error .tooDeep) : x ≠ .error .tooDeep := by
  rintro rfl
  exact h rfl

theorem descend_of_le {room need cost : Nat} (go : Nat → Except RuntimeError Value) (h : need ≤ room) :
    descend room need cost go = go (room - cost) := if_pos h

/-- Without the room that is needed, nothing is evaluated. -/
theorem le_of_descend {room need cost : Nat} {go : Nat → Except RuntimeError Value}
    (h : descend room need cost go ≠ .error .tooDeep) : need ≤ room := by
  by_contra hlt
  exact h (if_neg hlt)

end Results

/-! ## Operators -/

theorem UnaryOp.apply_ne_tooDeep (op : UnaryOp) (v : Value) : op.apply v ≠ .error .tooDeep := by
  cases op <;> cases v <;> simp [UnaryOp.apply, Value.toNumber, bind, Except.bind, pure, Except.pure]

theorem StrictOp.apply_ne_tooDeep (op : StrictOp) (a b : Value) : op.apply a b ≠ .error .tooDeep := by
  cases op <;> cases a <;> cases b <;>
    simp [StrictOp.apply, Value.withNumbers, Value.add, Value.toNumber, bind, Except.bind, pure,
      Except.pure]

/-- What a logical operator makes of the value of its left operand, given how the right one ends. -/
def LogicalOp.conclude (op : LogicalOp) (right : Except RuntimeError Value) (left : Value) :
    Except RuntimeError Value :=
  if op.settledBy left.isTruthy then .ok (.bool left.isTruthy) else right >>= fun b =>
    .ok (.bool b.isTruthy)

theorem LogicalOp.conclude_ne_tooDeep {right : Except RuntimeError Value} (op : LogicalOp)
    (h : right ≠ .error .tooDeep) (left : Value) : op.conclude right left ≠ .error .tooDeep := by
  unfold LogicalOp.conclude
  split
  · intro h
    cases h
  · refine bind_ne_tooDeep h ?_
    intro b hb
    cases hb

/-! ## Expressions -/

theorem Literal.eval_ne_tooDeep (l : Literal) : l.eval ≠ .error .tooDeep := by
  cases l <;> simp [Literal.eval]

/-- The value of an expression, however deep. -/
def Node.value : Node → Except RuntimeError Value
  | literal l => l.eval
  | group n => n.value
  | unary op n => do
    op.apply (← n.value)
  | binary (.strict op) l r => do
    let a ← l.value
    let b ← r.value
    op.apply a b
  | binary (.logical op) l r => do
    let a ← l.value
    if op.settledBy a.isTruthy then return .bool a.isTruthy
    else return .bool (← r.value).isTruthy
  | n => .error (.notAnExpression n.label)

/-- What room the right operand takes matters only if the left one does not settle the result. -/
theorem Guarded.conclude {right : Nat → Except RuntimeError Value} {free : Except RuntimeError Value}
    (h : Guarded (· = .tooDeep) right free) (op : LogicalOp) (left : Value) :
    Guarded (· = .tooDeep) (fun room => op.conclude (right room) left) (op.conclude free left) := by
  unfold LogicalOp.conclude
  cases op.settledBy left.isTruthy with
  | true => exact .ok _
  | false => exact h.map _

/-- A result that is not for want of room, whatever room there is. -/
theorem Guarded.of_ne_tooDeep {x : Except RuntimeError Value} (h : x ≠ .error .tooDeep) :
    Guarded (· = RuntimeError.tooDeep) (fun _ => x) x :=
  .const (exceeds_eq.not.mpr h)

theorem Node.guarded_eval (n : Node) : Guarded (· = .tooDeep) (fun room => n.eval room) n.value := by
  -- A statement is refused as an expression, whatever is in it.
  have hother : ∀ n : Node, Guarded (· = .tooDeep)
      (fun _ => Except.error (RuntimeError.notAnExpression n.label))
      (.error (.notAnExpression n.label) : Except RuntimeError Value) := by
    intro n
    apply Guarded.of_ne_tooDeep
    intro h
    cases h
  induction n with
  | literal l => exact .of_ne_tooDeep l.eval_ne_tooDeep
  | group n ih => exact ih.descend rfl le_rfl
  | unary op n ih =>
      have happlied := ih.bind fun v => .of_ne_tooDeep (op.apply_ne_tooDeep v)
      exact happlied.descend rfl (show 2 ≤ 3 by decide)
  | binary op l r ihl ihr =>
      cases op with
      | strict op =>
          have happlied := ihl.bind fun a => ihr.bind fun b => .of_ne_tooDeep (op.apply_ne_tooDeep a b)
          exact happlied.descend rfl (show 2 ≤ 3 by decide)
      | logical op =>
          have hconcluded := ihl.bind fun a => ihr.conclude op a
          exact hconcluded.descend rfl (show 3 ≤ 3 by decide)
  | expression n => exact hother (.expression n)
  | print n => exact hother (.print n)
  | declare name => exact hother (.declare name)
  | declareAs name n => exact hother (.declareAs name n)

namespace Expr

variable {room room' : Nat}

theorem eval_group (e : Expr) (h : 1 ≤ room) : (group e).toNode.eval room = e.toNode.eval (room - 1) :=
  descend_of_le _ h

theorem eval_unary (op : UnaryOp) (e : Expr) (h : 3 ≤ room) :
    (unary op e).toNode.eval room = e.toNode.eval (room - 2) >>= op.apply := descend_of_le _ h

theorem eval_strict (op : StrictOp) (l r : Expr) (h : 3 ≤ room) :
    (binary (.strict op) l r).toNode.eval room =
      l.toNode.eval (room - 2) >>= fun a => r.toNode.eval (room - 2) >>= op.apply a := descend_of_le _ h

theorem eval_logical (op : LogicalOp) (l r : Expr) (h : 3 ≤ room) :
    (binary (.logical op) l r).toNode.eval room =
      l.toNode.eval (room - 3) >>= op.conclude (r.toNode.eval (room - 3)) := descend_of_le _ h

/-- More room changes the end of no evaluation, but for one that ran out of it. -/
theorem ampler_eval (e : Expr) (hle : room ≤ room') :
    Ampler (e.toNode.eval room) (e.toNode.eval room') :=
  e.toNode.guarded_eval.ampler hle

theorem eval_mono (e : Expr) (hle : room ≤ room') (h : e.toNode.eval room ≠ .error .tooDeep) :
    e.toNode.eval room' = e.toNode.eval room :=
  (e.ampler_eval hle).resolve_left h

/-- The room that an expression can take up. -/
def need : Expr → Nat
  | literal _ => 0
  | group e => e.need + 1
  | unary _ e => max 3 (e.need + 2)
  | binary (.strict _) l r => max 3 (max l.need r.need + 2)
  | binary (.logical _) l r => max l.need r.need + 3

/-- An evaluation that has the room that the expression can take up does not run out of it. -/
theorem eval_ne_tooDeep (e : Expr) (h : e.need ≤ room) : e.toNode.eval room ≠ .error .tooDeep := by
  induction e generalizing room with
  | literal l => exact Literal.eval_ne_tooDeep l
  | group e ih =>
      simp only [need] at h
      rw [eval_group e (by omega)]
      exact ih (by omega)
  | unary op e ih =>
      simp only [need] at h
      rw [eval_unary op e (by omega)]
      exact bind_ne_tooDeep (ih (by omega)) op.apply_ne_tooDeep
  | binary op l r ihl ihr =>
      cases op with
      | strict op =>
          simp only [need] at h
          rw [eval_strict op l r (by omega)]
          apply bind_ne_tooDeep (ihl (by omega))
          intro a
          exact bind_ne_tooDeep (ihr (by omega)) (op.apply_ne_tooDeep a)
      | logical op =>
          simp only [need] at h
          rw [eval_logical op l r (by omega)]
          exact bind_ne_tooDeep (ihl (by omega)) (op.conclude_ne_tooDeep (ihr (by omega)))

end Expr
end Lox
