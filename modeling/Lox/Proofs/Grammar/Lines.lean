import Lox.Proofs.Parity.Terminals
import Lox.Proofs.Scan.Lines
/-!
# `Grammar.Lines` — deriving a text below another one

Nothing that the reader does depends on where a terminal is, or on the sentences that are
complete; so a text below a program that is accepted is derived as it is alone, behind the
sentences of the program (`shiftAll_onto`). Places are told only in errors, where they are
further down (`parseProgram_below`).
-/
namespace Lox.Grammar

/-! ## Moving down -/

/-- The terminal, moved down. -/
def Terminal.moved (d : Displacement) (t : Terminal) : Terminal := { t with place := t.place.moved d }

/-- The error, moved down. -/
def Error.moved (d : Displacement) : Error → Error
  | unexpected t => unexpected (t.moved d)
  | unexpectedEnd p => unexpectedEnd (p.moved d)
  | unmatched c p => unmatched c (p.moved d)
  | invalidNumber s p => invalidNumber s (p.moved d)
  | tooDeep => tooDeep

/-- The phrase, with its numbers moved down. -/
def Phrase.moved (d : Displacement) : Phrase → Phrase
  | number t => number (t.moved d)
  | leaf l => leaf l
  | group p => group (p.moved d)
  | unary op p => unary op (p.moved d)
  | binary op l r => binary op (l.moved d) (r.moved d)

/-- The sentence, with its numbers moved down. -/
def Sentence.moved (d : Displacement) : Sentence → Sentence
  | expression p => expression (p.moved d)
  | print p => print (p.moved d)
  | declare name initial => declare name (initial.map (Phrase.moved d))

/-- What is open, with its numbers moved down. -/
def Open.moved (d : Displacement) : Open → Open
  | paren => paren
  | sign op => sign op
  | left p op => left (p.moved d) op

/-- The state, with its numbers moved down. -/
def State.moved (d : Displacement) : State → State
  | between => between
  | nameWanted => nameWanted
  | nameRead name => nameRead name
  | operandWanted pu stack => operandWanted pu (stack.map (Open.moved d))
  | operandRead pu stack p => operandRead pu (stack.map (Open.moved d)) (p.moved d)

/-- The reader, moved down and behind sentences that are complete. -/
def Reader.onto (d : Displacement) (done : List Sentence) (r : Reader) : Reader :=
  ⟨r.done.map (Sentence.moved d) ++ done, r.state.moved d⟩

/-! ## Trees -/

variable {α : Type} (d : Displacement)

theorem number_moved (t : Terminal) : (t.moved d).number = t.number.mapError (Error.moved d) := by
  have htext : (t.moved d).text = t.text := rfl
  unfold Terminal.number
  rw [htext]
  cases Number.read? t.text.toList with
  | none => rfl
  | some v =>
      dsimp only
      split <;> rfl

theorem descend_moved {go go' : Nat → Except Error α}
    (h : ∀ room, go' room = (go room).mapError (Error.moved d)) (room : Nat) :
    descend room go' = (descend room go).mapError (Error.moved d) := by
  unfold descend
  split
  · exact h _
  · rfl

theorem bind_mapError {β ε ε' : Type} (x : Except ε α) (f : α → Except ε β) (m : ε → ε') :
    (x >>= f).mapError m = x.mapError m >>= fun a => (f a).mapError m := by
  cases x <;> rfl

/-- Making an expression fails with the same error further down. -/
theorem toExpr_moved (p : Phrase) (room : Nat) :
    (p.moved d).toExpr room = (p.toExpr room).mapError (Error.moved d) := by
  induction p generalizing room with
  | number t => exact number_moved d t
  | leaf l => rfl
  | group p ih =>
      refine descend_moved d (fun room => ?_) room
      rw [ih, bind_mapError]
      rfl
  | unary op p ih =>
      refine descend_moved d (fun room => ?_) room
      rw [ih, bind_mapError]
      rfl
  | binary op l r ihl ihr =>
      refine descend_moved d (fun room => ?_) room
      rw [ihl, bind_mapError]
      simp only [ihr, bind_mapError]
      rfl

theorem toStmt_moved (s : Sentence) (room : Nat) :
    (s.moved d).toStmt room = (s.toStmt room).mapError (Error.moved d) := by
  cases s with
  | expression p =>
      simp only [Sentence.moved, Sentence.toStmt, toExpr_moved, bind_mapError]
      rfl
  | print p =>
      simp only [Sentence.moved, Sentence.toStmt, toExpr_moved, bind_mapError]
      rfl
  | declare name initial =>
      cases initial with
      | none => rfl
      | some p =>
          simp only [Sentence.moved, Sentence.toStmt, Option.map_some, toExpr_moved, bind_mapError]
          rfl

theorem mapM_toStmt_moved (ss : List Sentence) (room : Nat) :
    (ss.map (Sentence.moved d)).mapM (Sentence.toStmt room) =
    (ss.mapM (Sentence.toStmt room)).mapError (Error.moved d) := by
  induction ss with
  | nil => rfl
  | cons s ss ih =>
      simp only [List.map_cons, List.mapM_cons, toStmt_moved, ih, bind_mapError]
      rfl

/-! ## Shifting and reducing -/

theorem reduce_moved (rank : Nat) (stack : List Open) (p : Phrase) :
    reduce rank (stack.map (Open.moved d)) (p.moved d) =
      ((reduce rank stack p).1.map (Open.moved d), (reduce rank stack p).2.moved d) := by
  induction stack generalizing p with
  | nil => rfl
  | cons o stack ih =>
      cases o with
      | paren => rfl
      | sign op => exact ih (.unary op p)
      | left l op =>
          simp only [List.map_cons, Open.moved, reduce]
          split
          · exact ih (.binary op l p)
          · rfl

theorem phrase?_moved (t : Terminal) : (t.moved d).phrase? = t.phrase?.map (Phrase.moved d) := by
  obtain ⟨k, text, p⟩ := t
  cases k with
  | mark m => cases m <;> rfl
  | identifier | string | number | endOfInput => rfl

theorem shiftOperand_moved (pu : Purpose) (stack : List Open) (t : Terminal) :
    shiftOperand pu (stack.map (Open.moved d)) (t.moved d) =
    (shiftOperand pu stack t).map (State.moved d) := by
  have hkind : (t.moved d).kind = t.kind := rfl
  unfold shiftOperand
  rw [phrase?_moved, hkind]
  cases t.phrase? with
  | some p => rfl
  | none =>
      cases t.kind.unaryOp? with
      | some op => rfl
      | none =>
          by_cases hparen : t.kind = .mark .leftParen
          · simp only [Option.map_none, if_pos hparen]
            rfl
          · simp only [Option.map_none, if_neg hparen]

theorem sentence?_moved (p : Phrase) (pu : Purpose) :
    pu.sentence? (p.moved d) = (pu.sentence? p).map (Sentence.moved d) := by
  cases pu <;> rfl

/-- A terminal is shifted the same further down and behind complete sentences. -/
theorem shift_onto (done : List Sentence) (r : Reader) (t : Terminal) :
    (r.onto d done).shift (t.moved d) = (r.shift t).map (Reader.onto d done) := by
  obtain ⟨ss, state⟩ := r
  have hkind : (t.moved d).kind = t.kind := rfl
  cases state with
  | between =>
      have hoperand : shiftOperand .expression [] (t.moved d) = (shiftOperand .expression [] t).map
          (State.moved d) :=
        shiftOperand_moved d .expression [] t
      simp only [Reader.onto, State.moved, Reader.shift, hkind, hoperand]
      split
      · rfl
      · rfl
      · cases shiftOperand .expression [] t <;> rfl
  | nameWanted =>
      simp only [Reader.onto, State.moved, Reader.shift, hkind]
      split <;> rfl
  | nameRead name =>
      simp only [Reader.onto, State.moved, Reader.shift, hkind]
      split <;> rfl
  | operandWanted pu stack =>
      simp only [Reader.onto, State.moved, Reader.shift, shiftOperand_moved]
      cases shiftOperand pu stack t <;> rfl
  | operandRead pu stack p =>
      simp only [Reader.onto, State.moved, Reader.shift, hkind, reduceAll, reduce_moved]
      cases t.kind.binaryOp? with
      | some op => rfl
      | none =>
          generalize reduce 0 stack p = reduced
          obtain ⟨rest, q⟩ := reduced
          -- A parenthesis closes what is open, a semicolon completes a sentence, and nothing else
          -- goes on here.
          cases t.kind with
          | identifier | string | number | endOfInput => rfl
          | mark m =>
              cases m with
              | rightParen =>
                  cases rest with
                  | nil => rfl
                  | cons o rest => cases o <;> rfl
              | semicolon =>
                  cases rest with
                  | cons o rest => rfl
                  | nil =>
                      simp only [List.map_nil, sentence?_moved]
                      cases pu.sentence? q <;> rfl
              | _ => rfl

/-- Terminals are shifted the same further down and behind complete sentences. -/
theorem shiftAll_onto (done : List Sentence) (r : Reader) (ts : List Terminal) :
    (r.onto d done).shiftAll (ts.map (Terminal.moved d)) =
      ((r.shiftAll ts).mapError (Error.moved d)).map (Reader.onto d done) := by
  induction ts generalizing r with
  | nil => rfl
  | cons t ts ih =>
      rw [List.map_cons, Reader.shiftAll, Reader.shiftAll, shift_onto]
      cases r.shift t with
      | none => rfl
      | some q => exact ih q

/-- The program is finished further down if it is finished, and the sentences before it are part of
it. -/
theorem program?_onto (done : List Sentence) (r : Reader) :
    (r.onto d done).program? = r.program?.map (done.reverse ++ ·.map (Sentence.moved d)) := by
  obtain ⟨ss, state⟩ := r
  cases state with
  | between => simp [Reader.onto, Reader.program?, State.moved]
  | nameWanted | nameRead | operandWanted | operandRead =>
      simp [Reader.onto, Reader.program?, State.moved]

/-! ## Terminals -/

/-- The terminals, moved down. -/
def Terminals.moved (d : Displacement) (ts : Terminals) : Terminals :=
  ⟨ts.list.map (Terminal.moved d), ts.stuck.map fun (c, p) => (c, p.moved d)⟩

/-- These terminals, and then others. -/
def Terminals.append (ts us : Terminals) : Terminals := ⟨ts.list ++ us.list, us.stuck⟩

open Parity

/-- Each item is seen the same further down. -/
theorem terminalsOf_moved (items : List Item) :
    terminalsOf (items.map (movedItem d)) = (terminalsOf items).moved d := by
  induction items with
  | nil => rfl
  | cons item items ih =>
      rw [List.map_cons, terminalsOf, terminalsOf, ih]
      cases item with
      | ok t =>
          have hkind : (t.moved d).kind = t.kind := rfl
          simp only [movedItem, seenAs, hkind]
          split <;> rfl
      | error e =>
          have hcause : (e.moved d).cause = e.cause := rfl
          simp only [movedItem, seenAs, hcause]
          cases e.cause with
          | invalidNumber | unterminatedString => rfl
          | unexpected c =>
              dsimp only
              split <;> rfl

/-- Items at which the grammar is not stuck do not hide those behind them. -/
theorem terminalsOf_append {items : List Item} (h : (terminalsOf items).stuck = none)
    (items' : List Item) :
    terminalsOf (items ++ items') = (terminalsOf items).append (terminalsOf items') := by
  induction items with
  | nil => rfl
  | cons item items ih =>
      rw [terminalsOf] at h
      rw [List.cons_append, terminalsOf, terminalsOf]
      cases hseen : seenAs item with
      | stuck c p =>
          rw [hseen] at h
          cases h
      | blank =>
          rw [hseen] at h
          exact ih h
      | terminal t =>
          rw [hseen] at h
          rw [ih h]
          rfl

/-- The grammar is stuck at a string that is not closed. -/
theorem seenAs_of_isUnclosed {item : Item} (h : isUnclosed item = true) :
    ∃ c p, seenAs item = .stuck c p := by
  cases item with
  | ok t => cases h
  | error e =>
      have hcause : e.cause = .unterminatedString := of_decide_eq_true h
      exact ⟨firstChar e.lexeme, e.place, by rw [seenAs, hcause]⟩

theorem not_isUnclosed {items : List Item} (h : (terminalsOf items).stuck = none) :
    ∀ item ∈ items, isUnclosed item = false := by
  induction items with
  | nil => simp
  | cons item items ih =>
      rw [terminalsOf] at h
      rw [List.forall_mem_cons]
      constructor
      · cases hitem : isUnclosed item with
        | false => rfl
        | true =>
            obtain ⟨c, p, hseen⟩ := seenAs_of_isUnclosed hitem
            rw [hseen] at h
            cases h
      · apply ih
        cases hseen : seenAs item with
        | stuck c p =>
            rw [hseen] at h
            cases h
        | blank | terminal t =>
            rw [hseen] at h
            exact h

/-- Items at which the grammar is not stuck begin with such items. -/
theorem stuck_of_append {items items' : List Item} (h : (terminalsOf (items ++ items')).stuck = none) :
    (terminalsOf items).stuck = none := by
  induction items with
  | nil => rfl
  | cons item items ih =>
      rw [List.cons_append, terminalsOf] at h
      rw [terminalsOf]
      cases hseen : seenAs item with
      | stuck c p =>
          rw [hseen] at h
          cases h
      | blank | terminal t =>
          rw [hseen] at h
          exact ih h

/-- What stands below a place where the grammar is stuck and holds no quote does not help it on. -/
theorem stuck_of_below {above s : String} (hs : '"' ∉ s.toList)
    (h : (divide (above ++ "\n" ++ s).toList .origin).stuck = none) :
    (divide above.toList .origin).stuck = none := by
  rw [divide_eq_terminalsOf, ← scan_eq] at h ⊢
  rw [scan_below (closed_of_scan_below hs (not_isUnclosed h))] at h
  exact stuck_of_append h

theorem divide_below {above : String} (h : (divide above.toList .origin).stuck = none) (s : String) :
    divide (above ++ "\n" ++ s).toList .origin =
      (divide above.toList .origin).append ((divide s.toList .origin).moved (.below above.toList)) := by
  rw [divide_eq_terminalsOf, ← scan_eq] at h ⊢
  rw [divide_eq_terminalsOf, ← scan_eq, divide_eq_terminalsOf, ← scan_eq, scan_below (not_isUnclosed h),
    terminalsOf_append h, terminalsOf_moved]

/-! ## Programs -/

/-- What a reader that has shifted all terminals comes to. -/
def Terminals.conclude (ts : Terminals) (r : Reader) : Except Error (List Sentence) :=
  match ts.stuck, r.program? with
  | some (c, p), _ => .error (.unmatched c p)
  | none, some ss => .ok ss
  | none, none => .error (.unexpectedEnd ((ts.list.getLast?.map (·.place)).getD .origin))

theorem derive_program (s : String) : derive .forProgram Reader.program? s =
    Reader.forProgram.shiftAll (divide s.toList .origin).list >>=
      (divide s.toList .origin).conclude := by
  unfold derive
  refine congrArg _ (funext fun r => ?_)
  unfold Terminals.conclude
  cases (divide s.toList .origin).stuck with
  | some cp => rfl
  | none =>
      dsimp only
      cases r.program? <;> rfl

theorem conclude_eq_ok {ts : Terminals} {r : Reader} {ss : List Sentence} (h : ts.conclude r = .ok ss) :
    ts.stuck = none ∧ r = ⟨ss.reverse, .between⟩ := by
  obtain ⟨done, state⟩ := r
  unfold Terminals.conclude at h
  cases hstuck : ts.stuck with
  | some cp =>
      rw [hstuck] at h
      cases h
  | none =>
      rw [hstuck] at h
      refine ⟨rfl, ?_⟩
      by_cases hstate : state = .between
      · subst hstate
        obtain rfl : done.reverse = ss := Except.ok.inj h
        rw [List.reverse_reverse]
      · simp only [Reader.program?, if_neg hstate] at h
        cases h

/-- Behind a finished program the reader goes on as before one. -/
theorem shiftAll_below {ts : Terminals} (us : Terminals) {ss : List Sentence}
    (h : Reader.forProgram.shiftAll ts.list = .ok ⟨ss.reverse, .between⟩) :
    Reader.forProgram.shiftAll (ts.append (us.moved d)).list =
      ((Reader.forProgram.shiftAll us.list).mapError (Error.moved d)).map
        (Reader.onto d ss.reverse) := by
  show Reader.forProgram.shiftAll (ts.list ++ us.list.map (Terminal.moved d)) = _
  rw [shiftAll_append, h]
  exact shiftAll_onto d ss.reverse .forProgram us.list

/-- A reader that has shifted nothing is finished, so the text below ends too early only behind a
terminal of its own. -/
theorem conclude_onto (ts us : Terminals) (done : List Sentence) {r : Reader}
    (hr : Reader.forProgram.shiftAll us.list = .ok r) :
    (ts.append (us.moved d)).conclude (r.onto d done) =
      ((us.conclude r).mapError (Error.moved d)).map (done.reverse ++ ·.map (Sentence.moved d)) := by
  have hstuck : (ts.append (us.moved d)).stuck = us.stuck.map fun (c, p) => (c, p.moved d) := rfl
  unfold Terminals.conclude
  rw [hstuck, program?_onto]
  cases us.stuck with
  | some cp => rfl
  | none =>
      cases hprogram : r.program? with
      | some ss => rfl
      | none =>
          have hlast : us.list ≠ [] := by
            intro hnil
            rw [hnil] at hr
            cases hr
            cases hprogram
          have hus : us.list.getLast? = some (us.list.getLast hlast) :=
            List.getLast?_eq_some_getLast hlast
          have hall : (ts.append (us.moved d)).list.getLast? =
              some ((us.list.getLast hlast).moved d) := by
            show (ts.list ++ us.list.map (Terminal.moved d)).getLast? = _
            rw [List.getLast?_append, List.getLast?_map, hus]
            rfl
          dsimp only [Option.map_none]
          rw [hall, hus]
          rfl

/-- A program below an accepted one is derived behind it and further down. -/
theorem derive_below {above : String} {ss : List Sentence}
    (h : derive .forProgram Reader.program? above = .ok ss) (s : String) :
    derive .forProgram Reader.program? (above ++ "\n" ++ s) =
      ((derive .forProgram Reader.program? s).mapError (Error.moved (.below above.toList))).map
        (ss ++ ·.map (Sentence.moved (.below above.toList))) := by
  rw [derive_program] at h
  cases hrun : Reader.forProgram.shiftAll (divide above.toList .origin).list with
  | error e =>
      rw [hrun] at h
      cases h
  | ok r =>
      rw [hrun] at h
      obtain ⟨hstuck, rfl⟩ := conclude_eq_ok h
      rw [derive_program, derive_program, divide_below hstuck, shiftAll_below _ _ hrun]
      cases hbelow : Reader.forProgram.shiftAll (divide s.toList .origin).list with
      | error e => rfl
      | ok r =>
          have hconclude := conclude_onto (.below above.toList) (divide above.toList .origin)
            (divide s.toList .origin) ss.reverse hbelow
          rw [List.reverse_reverse] at hconclude
          exact hconclude

/-- A program below an accepted one is read as it is alone, but behind the other
statements and further down. -/
theorem parseProgram_below {above : String} {p : List Stmt} (h : parseProgram above = .ok p)
    (s : String) :
    parseProgram (above ++ "\n" ++ s) =
      ((parseProgram s).mapError (Error.moved (.below above.toList))).map (p ++ ·) := by
  unfold parseProgram at h ⊢
  cases habove : derive .forProgram Reader.program? above with
  | error e =>
      rw [habove] at h
      cases h
  | ok ss =>
      rw [habove] at h
      have hbuilt : ss.mapM (Sentence.toStmt buildRoom) = .ok p := h
      rw [derive_below habove]
      cases derive .forProgram Reader.program? s with
      | error e => rfl
      | ok ss' =>
          show (ss ++ ss'.map (Sentence.moved _)).mapM (Sentence.toStmt buildRoom) =
            ((ss'.mapM (Sentence.toStmt buildRoom)).mapError _).map _
          rw [List.mapM_append, hbuilt, mapM_toStmt_moved]
          cases ss'.mapM (Sentence.toStmt buildRoom) <;> rfl

end Lox.Grammar
