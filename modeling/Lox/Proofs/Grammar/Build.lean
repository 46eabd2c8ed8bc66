import Lox.Proofs.Grammar.Moves
/-!
# `Grammar.Build` — from what was read to trees

Making a tree can only fail for want of room, or at the first number without a finite value. `Built`
says this of one making, and every combinator that makings are put together with keeps it. The
numbers of what a reader has read are the number terminals that it has shifted, in the same order,
so that the first number at fault is also the first one in the text.
-/
namespace Lox.Grammar

variable {α β γ : Type}

/-! ## Numbers and values -/

/-- The terminal has a finite value as a number. -/
def Terminal.Finite (t : Terminal) : Prop := ∃ e, t.number = .ok e

/-- The numbers of a phrase, from left to right. -/
def Phrase.numbers : Phrase → List Terminal
  | number t => [t]
  | leaf _ => []
  | group p | unary _ p => p.numbers
  | binary _ l r => l.numbers ++ r.numbers

/-- The numbers of a sentence, from left to right. -/
def Sentence.numbers : Sentence → List Terminal
  | expression p | print p | declare _ (some p) => p.numbers
  | declare _ none => []

/-- The expression of a phrase, however deep, or the first number that is at fault. -/
def Phrase.tree : Phrase → Except Error Expr
  | number t => t.number
  | leaf l => .ok (.literal l)
  | group p => return .group (← p.tree)
  | unary op p => return .unary op (← p.tree)
  | binary op l r => do
    let a ← l.tree
    let b ← r.tree
    return .binary op a b

/-- The statement of a sentence, however deep, or the first number that is at fault. -/
def Sentence.tree : Sentence → Except Error Stmt
  | expression p => return .expression (← p.tree)
  | print p => return .print (← p.tree)
  | declare name none => .ok (.declare name none)
  | declare name (some p) => return .declare name (some (← p.tree))

/-- The expression of a phrase, however deep, if none of its numbers is at fault. -/
def Phrase.expr? (p : Phrase) : Option Expr := p.tree.toOption

/-- The statement of a sentence, however deep, if none of its numbers is at fault. -/
def Sentence.stmt? (s : Sentence) : Option Stmt := s.tree.toOption

theorem toOption_map (x : Except Error α) (f : α → β) :
    (do return f (← x) : Except Error β).toOption = x.toOption.map f := by
  cases x <;> rfl

theorem toOption_both (x : Except Error α) (y : Except Error β) (f : α → β → γ) :
    (do let a ← x; let b ← y; return f a b : Except Error γ).toOption =
      (do let a ← x.toOption; let b ← y.toOption; return f a b) := by
  cases x with
  | error e => rfl
  | ok a => cases y <;> rfl

namespace Phrase

@[simp] theorem expr?_number (t : Terminal) : (number t).expr? = t.number.toOption := rfl

@[simp] theorem expr?_group (p : Phrase) : (group p).expr? = p.expr?.map .group := toOption_map p.tree _

@[simp] theorem expr?_unary (op : UnaryOp) (p : Phrase) :
    (unary op p).expr? = p.expr?.map (.unary op) :=
  toOption_map p.tree _

@[simp] theorem expr?_binary (op : BinaryOp) (l r : Phrase) :
    (binary op l r).expr? = do let a ← l.expr?; let b ← r.expr?; return .binary op a b :=
  toOption_both l.tree r.tree _

end Phrase

namespace Sentence

@[simp] theorem stmt?_expression (p : Phrase) : (expression p).stmt? = p.expr?.map .expression :=
  toOption_map p.tree _

@[simp] theorem stmt?_print (p : Phrase) : (print p).stmt? = p.expr?.map .print := toOption_map p.tree _

@[simp] theorem stmt?_declare (name : String) :
    (declare name none).stmt? = some (.declare name none) :=
  rfl

@[simp] theorem stmt?_declareAs (name : String) (p : Phrase) :
    (declare name (some p)).stmt? = p.expr?.map fun e => .declare name (some e) :=
  toOption_map p.tree _

end Sentence

/-! ## Making -/

/-- How a making ends: with the value, if all numbers are finite; for want of room; or at the first
number that is not finite. -/
inductive Built (numbers : List Terminal) (value : Option α) : Except Error α → Prop where
  | ok {a} : value = some a → (∀ t ∈ numbers, t.Finite) → Built numbers value (.ok a)
  | tooDeep : Built numbers value (.error .tooDeep)
  | infinite {us t vs e} : numbers = us ++ t :: vs → (∀ u ∈ us, u.Finite) → t.number = .error e →
      value = none →
      Built numbers value (.error e)

theorem Built.map {ns : List Terminal} {v : Option α} {x : Except Error α} (h : Built ns v x)
    (f : α → β) :
    Built ns (v.map f) (do return f (← x)) := by
  cases h with
  | ok hv hns => exact .ok (by rw [hv]; rfl) hns
  | tooDeep => exact .tooDeep
  | infinite hns hus ht hv => exact .infinite hns hus ht (by rw [hv]; rfl)

/-- The second making starts only if all numbers of the first one are finite. -/
theorem Built.both {ns ms : List Terminal} {v : Option α} {w : Option β} {x : Except Error α}
    {y : Except Error β} (hx : Built ns v x) (hy : Built ms w y) (f : α → β → γ) :
    Built (ns ++ ms) (do let a ← v; let b ← w; return f a b)
      (do let a ← x; let b ← y; return f a b) := by
  cases hx with
  | tooDeep => exact .tooDeep
  | infinite hns hus ht hv =>
      subst hns hv
      exact .infinite (by rw [List.append_assoc, List.cons_append]) hus ht rfl
  | ok hv hns =>
      subst hv
      cases hy with
      | tooDeep => exact .tooDeep
      | ok hw hms =>
          subst hw
          refine .ok rfl ?_
          intro t ht
          exact (List.mem_append.mp ht).elim (hns t) (hms t)
      | infinite hms hus ht hw =>
          subst hms hw
          refine .infinite (List.append_assoc ..).symm (fun u hu => ?_) ht rfl
          exact (List.mem_append.mp hu).elim (hns u) (hus u)

theorem Built.descend {ns : List Terminal} {v : Option α} {go : Nat → Except Error α}
    (h : ∀ room, Built ns v (go room)) (room : Nat) : Built ns v (descend room go) := by
  unfold Grammar.descend
  split
  · exact h _
  · exact .tooDeep

theorem built_number (t : Terminal) : Built [t] t.number.toOption t.number := by
  cases h : t.number with
  | ok e => exact .ok rfl fun u hu => ⟨e, by rw [List.mem_singleton.mp hu, h]⟩
  | error e => exact .infinite (List.nil_append _).symm (by simp) h rfl

/-- How making an expression ends. -/
theorem built_expr (p : Phrase) (room : Nat) : Built p.numbers p.expr? (p.toExpr room) := by
  induction p generalizing room with
  | number t => exact built_number t
  | leaf l => exact .ok rfl (by simp [Phrase.numbers])
  | group p ih =>
      rw [Phrase.expr?_group]
      exact Built.descend (fun room => (ih room).map _) room
  | unary op p ih =>
      rw [Phrase.expr?_unary]
      exact Built.descend (fun room => (ih room).map _) room
  | binary op l r ihl ihr =>
      rw [Phrase.expr?_binary]
      exact Built.descend (fun room => (ihl room).both (ihr room) _) room

/-- How making a statement ends. -/
theorem built_stmt (s : Sentence) (room : Nat) : Built s.numbers s.stmt? (s.toStmt room) := by
  match s with
  | .expression p =>
      rw [Sentence.stmt?_expression]
      exact (built_expr p room).map _
  | .print p =>
      rw [Sentence.stmt?_print]
      exact (built_expr p room).map _
  | .declare _ (some p) =>
      rw [Sentence.stmt?_declareAs]
      exact (built_expr p room).map _
  | .declare _ none => exact .ok rfl (by simp [Sentence.numbers])

/-- How making a program ends. -/
theorem built_program (ss : List Sentence) (room : Nat) :
    Built (ss.flatMap Sentence.numbers) (ss.mapM Sentence.stmt?) (ss.mapM (Sentence.toStmt room)) := by
  induction ss with
  | nil => exact .ok rfl (by simp)
  | cons s ss ih =>
      rw [List.mapM_cons, List.mapM_cons, List.flatMap_cons]
      exact (built_stmt s room).both ih _

/-! ## The numbers of a reader -/

/-- Is the terminal a number? -/
def Terminal.isNumber (t : Terminal) : Bool := t.kind == .number

/-- The numbers in what is open, from left to right; the top of the stack is at the right. -/
def openNumbers : List Open → List Terminal
  | [] => []
  | .left p _ :: stack => openNumbers stack ++ p.numbers
  | .paren :: stack | .sign _ :: stack => openNumbers stack

def State.numbers : State → List Terminal
  | .operandWanted _ stack => openNumbers stack
  | .operandRead _ stack p => openNumbers stack ++ p.numbers
  | .between | .nameWanted | .nameRead _ => []

/-- The numbers in what was read, from left to right. -/
def Reader.numbers (r : Reader) : List Terminal :=
  r.done.reverse.flatMap Sentence.numbers ++ r.state.numbers

/-- Closing operators moves no number. -/
theorem reduce_numbers {rank : Nat} {stack rest : List Open} {p q : Phrase}
    (h : reduce rank stack p = (rest, q)) :
    openNumbers rest ++ q.numbers = openNumbers stack ++ p.numbers := by
  induction stack generalizing p with
  | nil => cases h; rfl
  | cons o stack ih =>
      cases o with
      | paren => cases h; rfl
      | sign op =>
          rw [reduce_sign] at h
          rw [ih h]
          rfl
      | left l op =>
          rw [reduce] at h
          split at h
          · rw [ih h, Phrase.numbers, openNumbers, List.append_assoc]
          · cases h; rfl

theorem phrase?_numbers {t : Terminal} {p : Phrase} (h : t.phrase? = some p) :
    p.numbers = [t].filter Terminal.isNumber := by
  obtain ⟨k, text, place⟩ := t
  cases k with
  | mark m => cases m <;> cases h <;> rfl
  | identifier | string | number => cases h; rfl
  | endOfInput => cases h

theorem Begins.numbers {pu : Purpose} {stack : List Open} {t : Terminal} {s : State}
    (h : Begins pu stack t s) :
    s.numbers = openNumbers stack ++ [t].filter Terminal.isNumber := by
  cases h with
  | leaf hp => rw [State.numbers, phrase?_numbers hp]
  | sign hop =>
      have ht : t.isNumber = false := by
        cases hn : t.isNumber with
        | false => rfl
        | true => rw [eq_of_beq hn] at hop; cases hop
      simp [State.numbers, openNumbers, ht]
  | paren hk => simp [State.numbers, openNumbers, Terminal.isNumber, hk]

theorem sentence?_numbers {pu : Purpose} {p : Phrase} {s : Sentence} (h : pu.sentence? p = some s) :
    s.numbers = p.numbers := by
  cases pu with
  | alone => cases h
  | expression | print | declare n => cases h; rfl

/-- A move adds the terminal to the numbers, if it is one. -/
theorem numbers_of_move {r r' : Reader} {t : Terminal} (h : Move r t r') :
    r'.numbers = r.numbers ++ [t].filter Terminal.isNumber := by
  -- A terminal that is not an operand is no number.
  have hmark : ∀ {k}, t.kind = k → k ≠ .number → [t].filter Terminal.isNumber = [] := by
    intro k hk hne
    simp [Terminal.isNumber, hk, hne]
  unfold Reader.numbers
  cases h with
  | print hk | var hk | name hk | assign hk =>
      rw [hmark hk (by decide)]
      simp [State.numbers, openNumbers]
  | declared hk =>
      rw [hmark hk (by decide)]
      simp [State.numbers, Sentence.numbers]
  | start hb =>
      rw [hb.numbers]
      simp [State.numbers, openNumbers]
  | operand hb =>
      rw [hb.numbers]
      simp [State.numbers]
  | @operator d t pu stack p op rest q hop hr =>
      have ht : t.kind ≠ .number := by
        intro hk
        rw [hk] at hop
        cases hop
      rw [hmark rfl ht]
      simp [State.numbers, openNumbers, reduce_numbers hr]
  | close hk hr =>
      rw [hmark hk (by decide)]
      have := reduce_numbers hr
      simp_all [State.numbers, openNumbers, Phrase.numbers]
  | finish hk hr hs =>
      rw [hmark hk (by decide)]
      have := reduce_numbers hr
      simp_all [State.numbers, openNumbers, sentence?_numbers hs]

/-- The numbers in what was read are the numbers that were shifted. -/
theorem numbers_of_shiftAll {r r' : Reader} {ts : List Terminal} (h : r.shiftAll ts = .ok r') :
    r'.numbers = r.numbers ++ ts.filter Terminal.isNumber := by
  refine shiftAll_invariant (fun q us => q.numbers = r.numbers ++ us.filter Terminal.isNumber) ?_
    (by simp) h
  intro q us t q' hq hm
  rw [numbers_of_move hm, hq, List.filter_append, List.append_assoc]

theorem program?_numbers {r : Reader} {ss : List Sentence} (h : r.program? = some ss) :
    ss.flatMap Sentence.numbers = r.numbers := by
  unfold Reader.program? at h
  split at h
  · rename_i hs
    cases h
    simp [Reader.numbers, hs, State.numbers]
  · cases h

theorem phrase?_state_numbers {r : Reader} {p : Phrase} (h : r.phrase? = some p) :
    p.numbers = r.state.numbers := by
  obtain ⟨d, s⟩ := r
  unfold Reader.phrase? at h
  split at h
  · rename_i stack q hs
    cases hs
    split at h
    · rename_i hr
      cases h
      exact reduce_numbers hr
    · cases h
  · cases h

/-- A reader for an expression completes no sentence. -/
theorem done_of_shiftAll {r r' : Reader} {ts : List Terminal} (hr : r.state.Serves true)
    (h : r.shiftAll ts = .ok r') :
    r'.done = r.done := by
  refine (shiftAll_invariant (fun q _ => q.state.Serves true ∧ q.done = r.done) ?_ ⟨hr, rfl⟩ h).2
  rintro q us t q' ⟨hq, hd⟩ hm
  refine ⟨serves_of_move hm hq, ?_⟩
  rw [← hd]
  cases hm with
  | declared _ => cases hq
  | finish _ _ hs => rw [hq.mpr rfl] at hs; cases hs
  | print _ | var _ | start _ | name _ | assign _ | operand _ | operator _ _ | close _ _ => rfl

end Lox.Grammar
