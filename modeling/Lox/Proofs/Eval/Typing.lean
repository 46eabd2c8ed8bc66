import Lox.Proofs.Eval.Room
/-!
# `Eval.Typing` — the sort of a value, told from the expression

Names are never defined, so that the sort of what an expression gives can be told without evaluating
it: `Expr.sort?`. An expression with a sort gives a value of that sort (`eval_of_sort`). One without
a sort, if it has no logical operator, gives an error, and the error is that of the first part that
breaks its own rule, in the order in which operands are evaluated (`eval_of_no_sort`). A logical
operator may never look at the part that is at fault; but of the errors that it lets through each is
the error of some part (`eval_error`).
-/
namespace Lox

/-! ## Sorts -/

/-- The sorts of values. -/
inductive ValueSort where
  | number
  | string
  | bool
  | nil
  deriving DecidableEq, Repr

/-- The sort of a value. -/
def Value.sort : Value → ValueSort
  | number _ => .number
  | string _ => .string
  | bool _ => .bool
  | nil => .nil

/-- The sort of a leaf. -/
def Literal.sort? : Literal → Option ValueSort
  | string _ => some .string
  | identifier _ => none
  | number _ => some .number
  | boolean _ => some .bool
  | nil => some .nil

/-- The sort that an operator makes of a sort. -/
def UnaryOp.sort? : UnaryOp → ValueSort → Option ValueSort
  | not, _ => some .bool
  | negate, .number => some .number
  | negate, _ => none

/-- The sort that an operator makes of two sorts. -/
def StrictOp.sort? : StrictOp → ValueSort → ValueSort → Option ValueSort
  | equal, _, _ | notEqual, _, _ => some .bool
  | less, .number, .number | lessEqual, .number, .number => some .bool
  | greater, .number, .number | greaterEqual, .number, .number => some .bool
  | add, .number, .number => some .number
  | add, .string, .string => some .string
  | subtract, .number, .number | multiply, .number, .number | divide, .number, .number => some .number
  | _, _, _ => none

/-- Does an operator take an operand of this sort at all? -/
def StrictOp.takes : StrictOp → ValueSort → Bool
  | equal, _ | notEqual, _ => true
  | add, s => s = .number ∨ s = .string
  | _, s => s = .number

/-- The sort of an expression, if each operator in it has operands of sorts that it takes
together. -/
def Expr.sort? : Expr → Option ValueSort
  | literal l => l.sort?
  | group e => e.sort?
  | unary op e => do
    op.sort? (← e.sort?)
  | binary (.strict op) l r => do
    op.sort? (← l.sort?) (← r.sort?)
  | binary (.logical _) l r => do
    let _ ← l.sort?
    let _ ← r.sort?
    some .bool

/-! ## Operators

Each operator gives a value of the sort that was told, and an error exactly if none was told. The
error names the operand that is at fault. -/

/-- An error of the operator, for this operand. -/
def RuntimeError.Rejects (err : RuntimeError) (v : Value) : Prop :=
  err.tag = .typeError ∧ err.offender? = some v

/-- The result is a value of the sort that was told; or no sort was told, and it is
an error for this operand. -/
inductive Answers (sort : Option ValueSort) (operand : Value) : Except RuntimeError Value → Prop where
  | value {w : Value} : sort = some w.sort → Answers sort operand (.ok w)
  | rejected {err : RuntimeError} : sort = none → err.Rejects operand →
      Answers sort operand (.error err)

section

variable {sort : Option ValueSort} {operand : Value} {result : Except RuntimeError Value}

theorem Answers.of_sort {s : ValueSort} (h : Answers sort operand result) (hs : sort = some s) :
    ∃ w, result = .ok w ∧ w.sort = s := by
  cases h with
  | value hw => exact ⟨_, rfl, Option.some.inj (hw.symm.trans hs)⟩
  | rejected hnone _ => cases hnone.symm.trans hs

theorem Answers.of_no_sort (h : Answers sort operand result) (hs : sort = none) :
    ∃ err, result = .error err ∧ err.Rejects operand := by
  cases h with
  | value hw => cases hw.symm.trans hs
  | rejected _ hrejects => exact ⟨_, rfl, hrejects⟩

theorem Answers.rejects {err : RuntimeError} (h : Answers sort operand result)
    (herr : result = .error err) :
    err.Rejects operand := by
  cases h with
  | value _ => cases herr
  | rejected _ hrejects =>
      cases herr
      exact hrejects

end

theorem UnaryOp.answers (op : UnaryOp) (v : Value) : Answers (op.sort? v.sort) v (op.apply v) := by
  cases op with
  | not => exact .value rfl
  | negate =>
      cases v with
      | number x => exact .value rfl
      | string _ | bool _ | nil => exact .rejected rfl ⟨rfl, rfl⟩

/-- What is done with two numbers rejects the first operand that is none. -/
theorem Value.answers_withNumbers (op : String) {f : Float → Float → Value} {s : ValueSort}
    (hf : ∀ x y, (f x y).sort = s) (a b : Value) :
    Answers (if a.sort = .number ∧ b.sort = .number then some s else none)
      (if a.sort = .number then b else a) (withNumbers op f a b) := by
  cases a with
  | string _ | bool _ | nil => exact .rejected rfl ⟨rfl, rfl⟩
  | number x =>
      cases b with
      | string _ | bool _ | nil => exact .rejected rfl ⟨rfl, rfl⟩
      | number y => exact .value (congrArg some (hf x y).symm)

theorem Value.answers_add (a b : Value) :
    Answers (StrictOp.add.sort? a.sort b.sort) (if StrictOp.add.takes a.sort then b else a)
      (add a b) := by
  cases a with
  | bool _ | nil => exact .rejected rfl ⟨rfl, rfl⟩
  | number x =>
      cases b with
      | number y => exact .value rfl
      | string _ | bool _ | nil => exact .rejected rfl ⟨rfl, rfl⟩
  | string s =>
      cases b with
      | string t => exact .value rfl
      | number _ | bool _ | nil => exact .rejected rfl ⟨rfl, rfl⟩

/-- The left operand is at fault if the operator never takes it, and the right one otherwise. -/
theorem StrictOp.answers (op : StrictOp) (a b : Value) :
    Answers (op.sort? a.sort b.sort) (if op.takes a.sort then b else a) (op.apply a b) := by
  have hnumbers (op : StrictOp) {f : Float → Float → Value} {s : ValueSort}
    (hf : ∀ x y, (f x y).sort = s)
      (hsort : ∀ s₁ s₂, op.sort? s₁ s₂ = if s₁ = .number ∧ s₂ = .number then some s else none)
      (htakes : ∀ s₁, op.takes s₁ = decide (s₁ = .number)) :
      Answers (op.sort? a.sort b.sort) (if op.takes a.sort then b else a)
        (Value.withNumbers op.spelling f a b) := by
    simp only [hsort, htakes, decide_eq_true_eq]
    exact Value.answers_withNumbers op.spelling hf a b
  cases op with
  | equal | notEqual => exact .value rfl
  | add => exact Value.answers_add a b
  | less | lessEqual | greater | greaterEqual | subtract | multiply | divide =>
      refine hnumbers _ (fun _ _ => rfl) ?_ (fun _ => rfl)
      intro s₁ s₂
      cases s₁ <;> cases s₂ <;> rfl

namespace Expr

/-! ## Parts at fault -/

/-- Has the expression no logical operator? -/
def isStrict : Expr → Bool
  | literal _ => true
  | group e | unary _ e => e.isStrict
  | binary (.strict _) l r => l.isStrict && r.isStrict
  | binary (.logical _) _ _ => false

/-- The operands of the root. -/
def operands : Expr → List Expr
  | literal _ => []
  | group e | unary _ e => [e]
  | binary _ l r => [l, r]

/-- All parts of an expression, operands from left to right and before what they are the operands
of. -/
def parts : Expr → List Expr
  | literal l => [literal l]
  | group e => e.parts ++ [group e]
  | unary op e => e.parts ++ [unary op e]
  | binary op l r => l.parts ++ r.parts ++ [binary op l r]

/-- Is it the root that is at fault, and none of its operands? -/
def isAtFault (e : Expr) : Bool := e.sort?.isNone && e.operands.all (·.sort?.isSome)

/-- The first part that is at fault. -/
def firstFault? (e : Expr) : Option Expr := e.parts.find? isAtFault

/-- The error is one that the root makes: the name that it is, or the operand that its operator
rejects. -/
def Blamed : Expr → RuntimeError → Prop
  | literal (.identifier name), err => err = .undefinedName name
  | unary _ e, err => ∃ v, e.eval = .ok v ∧ err.Rejects v
  | binary (.strict op) l r, err =>
      ∃ a b, l.eval = .ok a ∧ r.eval = .ok b ∧ err.Rejects (if op.takes a.sort then b else a)
  | _, _ => False

/-- The sort of a group is that of its inside, so that it is never at fault itself. -/
theorem firstFault?_group (e : Expr) : (group e).firstFault? = e.firstFault? := by
  have hfine : (group e).isAtFault = false := by
    cases hs : e.sort? <;> simp [isAtFault, operands, sort?, hs]
  simp [firstFault?, parts, List.find?_append, hfine]

theorem firstFault?_unary (op : UnaryOp) (e : Expr) :
    (unary op e).firstFault? = e.firstFault?.or (if (unary op e).isAtFault then some (unary op e)
      else none) := by
  cases hfault : (unary op e).isAtFault <;> simp [firstFault?, parts, List.find?_append, hfault]

theorem firstFault?_binary (op : BinaryOp) (l r : Expr) :
    (binary op l r).firstFault? =
      (l.firstFault?.or r.firstFault?).or (if (binary op l r).isAtFault then some (binary op l r)
        else none) := by
  cases hfault : (binary op l r).isAtFault <;> simp [firstFault?, parts, List.find?_append, hfault]

/-- The operands of a binary expression with a sort have sorts. -/
theorem sort?_operands {op : BinaryOp} {l r : Expr} {s : ValueSort}
    (h : (binary op l r).sort? = some s) :
    ∃ a b, l.sort? = some a ∧ r.sort? = some b := by
  cases op <;> obtain ⟨a, ha, h'⟩ := Option.bind_eq_some_iff.1 h <;>
    obtain ⟨b, hb, -⟩ := Option.bind_eq_some_iff.1 h' <;> exact ⟨a, b, ha, hb⟩

theorem isAtFault_of_sort {e : Expr} {s : ValueSort} (h : e.sort? = some s) : e.isAtFault = false := by
  simp [isAtFault, h]

/-- No part of an expression that has a sort is at fault. -/
theorem firstFault?_of_sort {e : Expr} {s : ValueSort} (h : e.sort? = some s) :
    e.firstFault? = none := by
  induction e generalizing s with
  | literal l => simp [firstFault?, parts, isAtFault_of_sort h]
  | group e ih => rw [firstFault?_group, ih h]
  | unary op e ih =>
      obtain ⟨t, ht, -⟩ := Option.bind_eq_some_iff.1 h
      simp [firstFault?_unary, ih ht, isAtFault_of_sort h]
  | binary op l r ihl ihr =>
      obtain ⟨a, b, ha, hb⟩ := sort?_operands h
      simp [firstFault?_binary, ihl ha, ihr hb, isAtFault_of_sort h]

/-! ## Evaluation -/

variable {room : Nat}

/-- An expression with a sort gives a value of that sort, unless there is not enough room. -/
theorem eval_of_sort {e : Expr} {s : ValueSort} (h : e.sort? = some s)
    (hroom : e.toNode.eval room ≠ .error .tooDeep) : ∃ v, e.toNode.eval room = .ok v ∧ v.sort = s := by
  induction e generalizing room s with
  | literal l =>
      cases l <;> simp_all [sort?, Literal.sort?, toNode, Node.eval, Literal.eval, Value.sort]
  | group e ih =>
      have hneed := le_of_descend hroom
      rw [eval_group e hneed] at hroom ⊢
      exact ih h hroom
  | unary op e ih =>
      have hneed := le_of_descend hroom
      rw [eval_unary op e hneed] at hroom ⊢
      obtain ⟨t, ht, hop⟩ := Option.bind_eq_some_iff.1 h
      obtain ⟨v, hv, rfl⟩ := ih ht (ne_tooDeep_of_bind hroom)
      rw [hv]
      exact (op.answers v).of_sort hop
  | binary op l r ihl ihr =>
      obtain ⟨s₁, s₂, h₁, h₂⟩ := sort?_operands h
      cases op with
      | strict op =>
          have hneed := le_of_descend hroom
          rw [eval_strict op l r hneed] at hroom ⊢
          obtain ⟨a, ha, rfl⟩ := ihl h₁ (ne_tooDeep_of_bind hroom)
          simp only [ha, ok_bind] at hroom ⊢
          obtain ⟨b, hb, rfl⟩ := ihr h₂ (ne_tooDeep_of_bind hroom)
          simp only [hb, ok_bind]
          exact (op.answers a b).of_sort (by simpa [sort?, h₁, h₂] using h)
      | logical op =>
          have hneed := le_of_descend hroom
          rw [eval_logical op l r hneed] at hroom ⊢
          obtain rfl : ValueSort.bool = s := by simpa [sort?, h₁, h₂] using h
          obtain ⟨a, ha, -⟩ := ihl h₁ (ne_tooDeep_of_bind hroom)
          simp only [ha, ok_bind, LogicalOp.conclude] at hroom ⊢
          split
          · exact ⟨_, rfl, rfl⟩
          · rename_i hset
            rw [if_neg hset] at hroom
            obtain ⟨b, hb, -⟩ := ihr h₂ (ne_tooDeep_of_bind hroom)
            rw [hb]
            exact ⟨_, rfl, rfl⟩

/-- A value that was found with less room is the value of the expression. -/
theorem eval_of_room {e : Expr} {v : Value} (h : e.toNode.eval room = .ok v) (hle : room ≤ evalRoom) :
    e.eval = .ok v := by
  rw [← h]
  apply e.eval_mono hle
  rw [h]
  intro hdeep
  cases hdeep

/-- An expression without a sort gives the error of its first part that is at fault. What is said of
the values of operands is said at full room, whatever the room of this evaluation is. -/
theorem eval_of_no_sort {e : Expr} (hstrict : e.isStrict) (h : e.sort? = none) (hle : room ≤ evalRoom)
    (hroom : e.toNode.eval room ≠ .error .tooDeep) :
    ∃ part err, e.firstFault? = some part ∧ e.toNode.eval room = .error err ∧ part.Blamed err := by
  induction e generalizing room with
  | literal l =>
      cases l with
      | identifier name => exact ⟨_, _, rfl, rfl, rfl⟩
      | _ => cases h
  | group e ih =>
      have hneed := le_of_descend hroom
      rw [eval_group e hneed] at hroom ⊢
      rw [firstFault?_group]
      exact ih hstrict h (by omega) hroom
  | unary op e ih =>
      have hneed := le_of_descend hroom
      rw [eval_unary op e hneed] at hroom ⊢
      have hin := ne_tooDeep_of_bind hroom
      rw [firstFault?_unary]
      cases hs : e.sort? with
      | none =>
          obtain ⟨part, err, hpart, herr, hblame⟩ := ih hstrict hs (by omega) hin
          exact ⟨part, err, by simp [hpart], by simp [herr], hblame⟩
      | some s =>
          obtain ⟨v, hv, rfl⟩ := eval_of_sort hs hin
          have hop : op.sort? v.sort = none := by simpa [sort?, hs] using h
          have hfault : (unary op e).isAtFault = true := by simp [isAtFault, operands, h, hs]
          obtain ⟨err, herr, hrej⟩ := (op.answers _).of_no_sort hop
          refine ⟨unary op e, err, ?_, by simp [hv, herr], v, eval_of_room hv (by omega), hrej⟩
          simp [firstFault?_of_sort hs, hfault]
  | binary op l r ihl ihr =>
      cases op with
      | logical op => cases hstrict
      | strict op =>
          obtain ⟨hsl, hsr⟩ := Bool.and_eq_true_iff.1 hstrict
          have hneed := le_of_descend hroom
          rw [eval_strict op l r hneed] at hroom ⊢
          have hinl := ne_tooDeep_of_bind hroom
          rw [firstFault?_binary]
          cases hl : l.sort? with
          | none =>
              obtain ⟨part, err, hpart, herr, hblame⟩ := ihl hsl hl (by omega) hinl
              exact ⟨part, err, by simp [hpart], by simp [herr], hblame⟩
          | some s₁ =>
              obtain ⟨a, ha, rfl⟩ := eval_of_sort hl hinl
              simp only [ha, ok_bind] at hroom ⊢
              have hinr := ne_tooDeep_of_bind hroom
              cases hr : r.sort? with
              | none =>
                  obtain ⟨part, err, hpart, herr, hblame⟩ := ihr hsr hr (by omega) hinr
                  exact ⟨part, err, by simp [firstFault?_of_sort hl, hpart], by simp [herr], hblame⟩
              | some s₂ =>
                  obtain ⟨b, hb, rfl⟩ := eval_of_sort hr hinr
                  have hop : op.sort? a.sort b.sort = none := by simpa [sort?, hl, hr] using h
                  have hfault : (binary (.strict op) l r).isAtFault = true := by
                    simp [isAtFault, operands, h, hl, hr]
                  obtain ⟨err, herr, hrej⟩ := (op.answers _ _).of_no_sort hop
                  refine ⟨binary (.strict op) l r, err, ?_, by simp [hb, herr], a, b,
                    eval_of_room ha (by omega),
                    eval_of_room hb (by omega), hrej⟩
                  simp [firstFault?_of_sort hl, firstFault?_of_sort hr, hfault]

/-- Each error of an evaluation, logical operators or not, is the error of some part. -/
theorem eval_error {e : Expr} {err : RuntimeError} (hle : room ≤ evalRoom)
    (h : e.toNode.eval room = .error err) (hroom : err ≠ .tooDeep) :
    ∃ part ∈ e.parts, part.Blamed err := by
  have hdeep : e.toNode.eval room ≠ .error .tooDeep := by
    intro hdeep
    exact hroom (Except.error.inj (h.symm.trans hdeep))
  induction e generalizing room with
  | literal l =>
      cases l with
      | identifier name => exact ⟨_, List.mem_singleton_self _, (Except.error.inj h).symm⟩
      | _ => cases h
  | group e ih =>
      have hneed := le_of_descend hdeep
      rw [eval_group e hneed] at h hdeep
      obtain ⟨part, hmem, hblame⟩ := ih (by omega) h hdeep
      exact ⟨part, by simp [parts, hmem], hblame⟩
  | unary op e ih =>
      have hneed := le_of_descend hdeep
      rw [eval_unary op e hneed] at h hdeep
      cases hv : e.toNode.eval (room - 2) with
      | error err' =>
          rw [hv] at h
          obtain ⟨part, hmem, hblame⟩ := ih (by omega) (hv.trans h) (ne_tooDeep_of_bind hdeep)
          exact ⟨part, by simp [parts, hmem], hblame⟩
      | ok v =>
          rw [hv] at h
          exact ⟨unary op e, by simp [parts], v, eval_of_room hv (by omega), (op.answers v).rejects h⟩
  | binary op l r ihl ihr =>
      -- The left operand is evaluated first, whatever the operator.
      have hleft : ∀ cost, l.toNode.eval (room - cost) = .error err →
        l.toNode.eval (room - cost) ≠ .error .tooDeep →
          ∃ part ∈ (binary op l r).parts, part.Blamed err := by
        intro cost hl hdeepl
        obtain ⟨part, hmem, hblame⟩ := ihl (by omega) hl hdeepl
        exact ⟨part, by simp [parts, hmem], hblame⟩
      have hright : ∀ cost, r.toNode.eval (room - cost) = .error err →
        r.toNode.eval (room - cost) ≠ .error .tooDeep →
          ∃ part ∈ (binary op l r).parts, part.Blamed err := by
        intro cost hr hdeepr
        obtain ⟨part, hmem, hblame⟩ := ihr (by omega) hr hdeepr
        exact ⟨part, by simp [parts, hmem], hblame⟩
      cases op with
      | strict op =>
          have hneed := le_of_descend hdeep
          rw [eval_strict op l r hneed] at h hdeep
          cases ha : l.toNode.eval (room - 2) with
          | error err' =>
              rw [ha] at h
              exact hleft 2 (ha.trans h) (ne_tooDeep_of_bind hdeep)
          | ok a =>
              simp only [ha, ok_bind] at h hdeep
              cases hb : r.toNode.eval (room - 2) with
              | error err' =>
                  rw [hb] at h
                  exact hright 2 (hb.trans h) (ne_tooDeep_of_bind hdeep)
              | ok b =>
                  rw [hb] at h
                  exact ⟨binary (.strict op) l r, by simp [parts], a, b, eval_of_room ha (by omega),
                    eval_of_room hb (by omega), (op.answers _ _).rejects h⟩
      | logical op =>
          have hneed := le_of_descend hdeep
          rw [eval_logical op l r hneed] at h hdeep
          cases ha : l.toNode.eval (room - 3) with
          | error err' =>
              rw [ha] at h
              exact hleft 3 (ha.trans h) (ne_tooDeep_of_bind hdeep)
          | ok a =>
              simp only [ha, ok_bind, LogicalOp.conclude] at h hdeep
              split at h
              · cases h
              · rename_i hset
                rw [if_neg hset] at hdeep
                cases hb : r.toNode.eval (room - 3) with
                | error err' =>
                    rw [hb] at h
                    exact hright 3 (hb.trans h) (ne_tooDeep_of_bind hdeep)
                | ok b =>
                    rw [hb] at h
                    cases h

theorem Blamed.tag {e : Expr} {err : RuntimeError} (h : e.Blamed err) :
    err.tag = .undefined ∨ err.tag = .typeError := by
  match e, h with
  | literal (.identifier name), rfl => exact .inl rfl
  | unary _ _, ⟨_, _, hrej⟩ => exact .inr hrej.1
  | binary (.strict _) _ _, ⟨_, _, _, _, hrej⟩ => exact .inr hrej.1

/-- The sort of an expression tells how its evaluation ends. With enough room: an expression that
has a sort gives a value of it; one without logical operators gives a value only if it has a sort,
and otherwise the error of its first part at fault, which is an undefined name or names the operand
that was rejected; and no other kind of error comes of any expression. -/
theorem sort_determines_eval (e : Expr) :
    (e.need ≤ evalRoom → e.eval ≠ .error .tooDeep) ∧
    (e.eval ≠ .error .tooDeep →
      (∀ s, e.sort? = some s → ∃ v, e.eval = .ok v ∧ v.sort = s) ∧
      (e.isStrict → ∀ v, e.eval = .ok v → e.sort? = some v.sort) ∧
      (e.isStrict → e.sort? = none →
        ∃ part err, e.firstFault? = some part ∧ e.eval = .error err ∧ part.Blamed err) ∧
      ∀ err, e.eval = .error err →
        (err.tag = .undefined ∨ err.tag = .typeError) ∧ ∃ part ∈ e.parts, part.Blamed err) := by
  refine ⟨e.eval_ne_tooDeep, ?_⟩
  intro hroom
  refine ⟨?_, ?_, ?_, ?_⟩
  · intro s hs
    exact eval_of_sort hs hroom
  · intro hstrict v hv
    cases hs : e.sort? with
    | some s =>
        obtain ⟨w, hw, rfl⟩ := eval_of_sort hs hroom
        obtain rfl : w = v := Except.ok.inj (hw.symm.trans hv)
        rfl
    | none =>
        obtain ⟨part, err, -, herr, -⟩ := eval_of_no_sort hstrict hs (Nat.le_refl _) hroom
        cases herr.symm.trans hv
  · intro hstrict hs
    exact eval_of_no_sort hstrict hs (Nat.le_refl _) hroom
  · intro err herr
    have hne : err ≠ .tooDeep := by
      rintro rfl
      exact hroom herr
    obtain ⟨part, hmem, hblame⟩ := eval_error (Nat.le_refl _) herr hne
    exact ⟨hblame.tag, part, hmem, hblame⟩

/-- In `-"a" + x` the name is undefined, but the string is negated first. -/
theorem sort_determines_eval_negated_string :
    let negated := unary .negate (literal (.string "a"))
    let e := binary (.strict .add) negated (literal (.identifier "x"))
    e.need ≤ evalRoom ∧ e.eval ≠ .error .tooDeep ∧ e.isStrict ∧ e.sort? = none ∧
      ∃ err, e.firstFault? = some negated ∧ e.eval = .error err ∧ negated.Blamed err := by
  intro negated e
  have hneed : e.need ≤ evalRoom := by decide
  have hroom := (sort_determines_eval e).1 hneed
  obtain ⟨part, err, hpart, herr, hblame⟩ := ((sort_determines_eval e).2 hroom).2.2.1 rfl rfl
  obtain rfl : negated = part := Option.some.inj hpart
  exact ⟨hneed, hroom, rfl, rfl, err, hpart, herr, hblame⟩

end Expr
end Lox
