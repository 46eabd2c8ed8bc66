import Lox.Grammar.Reader
import Mathlib
/-!
# `Grammar.Moves` — what the reader does with one terminal

`Move` says once what shifting a terminal can do, case by case. Everything about runs of the reader
follows from it: no terminal without a place in the grammar is ever shifted, a reader for programs
never turns into one for expressions, the numbers in what was read are the numbers that were
shifted, and what was read can always be completed.
-/
namespace Lox.Grammar

/-! ## Closing what is open -/

/-- What is at the top of the stack stays open before an operator of the layer. -/
def Shielded (least : Nat) : List Open → Prop
  | .sign _ :: _ => False
  | .left _ op :: _ => layer op < least
  | _ => True

theorem Shielded.succ {rank : Nat} {stack : List Open} (h : Shielded rank stack) :
    Shielded (rank + 1) stack := by
  match stack, h with
  | [], _ | .paren :: _, _ => trivial
  | .left _ _ :: _, h => exact Nat.lt_succ_of_lt h

theorem reduce_of_shielded {rank : Nat} {stack : List Open} (h : Shielded rank stack) (p : Phrase) :
    reduce rank stack p = (stack, p) := by
  match stack, h with
  | [], _ | .paren :: _, _ => rfl
  | .left _ _ :: _, h => rw [reduce, if_neg (Nat.not_le.mpr h)]

@[simp] theorem reduce_sign (rank : Nat) (op : UnaryOp) (stack : List Open) (p : Phrase) :
    reduce rank (.sign op :: stack) p = reduce rank stack (.unary op p) := rfl

theorem reduce_left {rank : Nat} {op : BinaryOp} (h : rank ≤ layer op) (l : Phrase)
    (stack : List Open) (p : Phrase) :
    reduce rank (.left l op :: stack) p = reduce rank stack (.binary op l p) := by
  rw [reduce, if_pos h]

/-- Closing everything empties the stack or stops at a parenthesis. -/
theorem reduceAll_cases (stack : List Open) (p : Phrase) : (∃ q, reduceAll stack p = ([], q)) ∨
    ∃ rest q, reduceAll stack p = (.paren :: rest, q) ∧ rest.length < stack.length := by
  unfold reduceAll
  induction stack generalizing p with
  | nil => exact .inl ⟨p, rfl⟩
  | cons o stack ih =>
      cases o with
      | paren => exact .inr ⟨stack, p, rfl, Nat.lt_succ_self _⟩
      | sign op =>
          obtain ⟨q, hq⟩ | ⟨rest, q, hq, hlt⟩ := ih (.unary op p)
          · exact .inl ⟨q, hq⟩
          · exact .inr ⟨rest, q, hq, Nat.lt_succ_of_lt hlt⟩
      | left l op =>
          rw [reduce_left (Nat.zero_le _)]
          obtain ⟨q, hq⟩ | ⟨rest, q, hq, hlt⟩ := ih (.binary op l p)
          · exact .inl ⟨q, hq⟩
          · exact .inr ⟨rest, q, hq, Nat.lt_succ_of_lt hlt⟩

/-! ## Moves -/

/-- Where a terminal before an operand leads. -/
inductive Begins (purpose : Purpose) (stack : List Open) (t : Terminal) : State → Prop where
  | leaf {p} : t.phrase? = some p → Begins purpose stack t (.operandRead purpose stack p)
  | sign {op} : t.kind.unaryOp? = some op →
      Begins purpose stack t (.operandWanted purpose (.sign op :: stack))
  | paren : t.kind = .mark .leftParen →
      Begins purpose stack t (.operandWanted purpose (.paren :: stack))

/-- Where a terminal leads. -/
inductive Move : Reader → Terminal → Reader → Prop where
  | print {d t} : t.kind = .mark .printWord → Move ⟨d, .between⟩ t ⟨d, .operandWanted .print []⟩
  | var {d t} : t.kind = .mark .varWord → Move ⟨d, .between⟩ t ⟨d, .nameWanted⟩
  | start {d t s} : Begins .expression [] t s → Move ⟨d, .between⟩ t ⟨d, s⟩
  | name {d t} : t.kind = .identifier → Move ⟨d, .nameWanted⟩ t ⟨d, .nameRead t.text⟩
  | assign {d t n} : t.kind = .mark .assign →
      Move ⟨d, .nameRead n⟩ t ⟨d, .operandWanted (.declare n) []⟩
  | declared {d t n} : t.kind = .mark .semicolon →
      Move ⟨d, .nameRead n⟩ t ⟨.declare n none :: d, .between⟩
  | operand {d t pu stack s} : Begins pu stack t s → Move ⟨d, .operandWanted pu stack⟩ t ⟨d, s⟩
  | operator {d t pu stack p op rest q} : t.kind.binaryOp? = some op →
      reduce (layer op) stack p = (rest, q) →
      Move ⟨d, .operandRead pu stack p⟩ t ⟨d, .operandWanted pu (.left q op :: rest)⟩
  | close {d t pu stack p rest q} : t.kind = .mark .rightParen →
      reduceAll stack p = (.paren :: rest, q) →
      Move ⟨d, .operandRead pu stack p⟩ t ⟨d, .operandRead pu rest (.group q)⟩
  | finish {d t pu stack p q s} : t.kind = .mark .semicolon → reduceAll stack p = ([], q) →
      pu.sentence? q = some s →
      Move ⟨d, .operandRead pu stack p⟩ t ⟨s :: d, .between⟩

/-- A sign is no operand by itself. -/
theorem phrase?_of_unaryOp? {t : Terminal} {op : UnaryOp} (h : t.kind.unaryOp? = some op) :
    t.phrase? = none := by
  obtain ⟨k, text, place⟩ := t
  cases k with
  | mark m => cases m <;> simp_all [Kind.unaryOp?, Terminal.phrase?]
  | identifier | string | number | endOfInput => cases h

theorem shiftOperand_eq_some {pu : Purpose} {stack : List Open} {t : Terminal} {s : State} :
    shiftOperand pu stack t = some s ↔ Begins pu stack t s := by
  constructor
  · intro h
    unfold shiftOperand at h
    split at h
    · rename_i p hp
      cases h
      exact .leaf hp
    · split at h
      · rename_i op hop
        cases h
        exact .sign hop
      · split at h
        · rename_i hk
          cases h
          exact .paren hk
        · cases h
  · intro h
    unfold shiftOperand
    cases h with
    | leaf hp => rw [hp]
    | sign hop => rw [phrase?_of_unaryOp? hop, hop]
    | paren hk => simp [Terminal.phrase?, hk, Kind.unaryOp?]

/-- A terminal that begins an operand is no word that begins a statement. -/
theorem Begins.kind_ne {pu : Purpose} {stack : List Open} {t : Terminal} {s : State}
    (h : Begins pu stack t s) :
    t.kind ≠ .mark .printWord ∧ t.kind ≠ .mark .varWord := by
  constructor <;> intro hk
  all_goals
    cases h with
    | leaf hp => simp [Terminal.phrase?, hk] at hp
    | sign hop => rw [hk] at hop; cases hop
    | paren hk' => rw [hk] at hk'; cases hk'

/-- Shifting a terminal is a move. -/
theorem shift_eq_some {r r' : Reader} {t : Terminal} : r.shift t = some r' ↔ Move r t r' := by
  constructor
  · intro h
    obtain ⟨d, s⟩ := r
    cases s with
    | between =>
        simp only [Reader.shift] at h
        split at h
        · rename_i hk; cases h; exact .print hk
        · rename_i hk; cases h; exact .var hk
        · obtain ⟨s, hs, rfl⟩ := Option.map_eq_some_iff.mp h
          exact .start (shiftOperand_eq_some.mp hs)
    | nameWanted =>
        simp only [Reader.shift] at h
        split at h
        · rename_i hk; cases h; exact .name hk
        · cases h
    | nameRead n =>
        simp only [Reader.shift] at h
        split at h
        · rename_i hk; cases h; exact .assign hk
        · rename_i hk; cases h; exact .declared hk
        · cases h
    | operandWanted pu stack =>
        obtain ⟨s, hs, rfl⟩ := Option.map_eq_some_iff.mp h
        exact .operand (shiftOperand_eq_some.mp hs)
    | operandRead pu stack p =>
        simp only [Reader.shift] at h
        split at h
        · rename_i op hop
          cases h
          exact .operator hop rfl
        · split at h
          · rename_i hk hr; cases h; exact .close hk hr
          · rename_i hk hr
            obtain ⟨s, hs, rfl⟩ := Option.map_eq_some_iff.mp h
            exact .finish hk hr hs
          · cases h
  · intro h
    unfold Reader.shift
    cases h with
    | print hk | var hk | name hk | assign hk | declared hk => simp [hk]
    | start hb =>
        dsimp only
        split
        · rename_i hk; exact absurd hk hb.kind_ne.1
        · rename_i hk; exact absurd hk hb.kind_ne.2
        · simp [shiftOperand_eq_some.mpr hb]
    | operand hb => simp [shiftOperand_eq_some.mpr hb]
    | operator hop hr => simp [hop, hr]
    | close hk hr => simp [hk, hr, Kind.binaryOp?]
    | finish hk hr hs => simp [hk, hr, hs, Kind.binaryOp?]

/-! ## Runs -/

theorem shiftAll_append (r : Reader) (ts us : List Terminal) :
    r.shiftAll (ts ++ us) = r.shiftAll ts >>= (·.shiftAll us) := by
  induction ts generalizing r with
  | nil => rfl
  | cons t ts ih =>
      simp only [List.cons_append, Reader.shiftAll]
      cases r.shift t with
      | none => rfl
      | some q => exact ih q

theorem shiftAll_cons_ok {r r' : Reader} {t : Terminal} {ts : List Terminal} :
    r.shiftAll (t :: ts) = .ok r' ↔ ∃ q, r.shift t = some q ∧ q.shiftAll ts = .ok r' := by
  rw [Reader.shiftAll]
  cases r.shift t <;> simp

/-- A run that goes through on a text goes through on its first part. -/
theorem shiftAll_append_ok {r r' : Reader} {ts us : List Terminal} :
    r.shiftAll (ts ++ us) = .ok r' ↔ ∃ q, r.shiftAll ts = .ok q ∧ q.shiftAll us = .ok r' := by
  rw [shiftAll_append]
  cases r.shiftAll ts with
  | error e => simp [bind, Except.bind]
  | ok q => simp [bind, Except.bind]

/-- A run that is refused a terminal fails there, whatever follows. -/
theorem shiftAll_append_refused {r q : Reader} {us vs : List Terminal} {t : Terminal}
    (hus : r.shiftAll us = .ok q) (ht : q.shift t = none) :
    r.shiftAll (us ++ t :: vs) = .error (.unexpected t) := by
  rw [shiftAll_append, hus]
  show q.shiftAll (t :: vs) = _
  rw [Reader.shiftAll, ht]

/-- A run that fails is refused a terminal behind those that it shifts. -/
theorem shiftAll_error {r : Reader} {ts : List Terminal} {e : Error} (h : r.shiftAll ts = .error e) :
    ∃ us t vs q, ts = us ++ t :: vs ∧ r.shiftAll us = .ok q ∧ q.shift t = none ∧ e = .unexpected t := by
  induction ts generalizing r with
  | nil => cases h
  | cons t ts ih =>
      rw [Reader.shiftAll] at h
      cases ht : r.shift t with
      | none =>
          rw [ht] at h
          exact ⟨[], t, ts, r, rfl, rfl, ht, (Except.error.inj h).symm⟩
      | some q =>
          rw [ht] at h
          obtain ⟨us, u, vs, q', rfl, hus, hu, rfl⟩ := ih h
          exact ⟨t :: us, u, vs, q', rfl, shiftAll_cons_ok.mpr ⟨q, ht, hus⟩, hu, rfl⟩

/-- What every move keeps up between the reader and the terminals behind it, every run keeps up. -/
theorem shiftAll_invariant (inv : Reader → List Terminal → Prop)
    (hmove : ∀ r us t r', inv r us → Move r t r' → inv r' (us ++ [t])) {r r' : Reader}
    {ts : List Terminal} (hinv : inv r []) (h : r.shiftAll ts = .ok r') : inv r' ts := by
  -- Generalised over the terminals that are shifted already.
  have key : ∀ ts r us, inv r us → r.shiftAll ts = .ok r' → inv r' (us ++ ts) := by
    intro ts
    induction ts with
    | nil =>
        intro r us hinv h
        rw [List.append_nil, ← Except.ok.inj h]
        exact hinv
    | cons t ts ih =>
        intro r us hinv h
        obtain ⟨q, ht, hq⟩ := shiftAll_cons_ok.mp h
        have := ih q _ (hmove r us t q hinv (shift_eq_some.mp ht)) hq
        rwa [List.append_assoc] at this
  exact key ts r [] hinv h

/-! ## Programs and expressions -/

/-- The reader is for an expression that is the whole text, or else it is for a program. -/
def State.Serves (alone : Bool) : State → Prop
  | .operandWanted pu _ | .operandRead pu _ _ => (pu = .alone ↔ alone = true)
  | _ => alone = false

theorem Begins.serves {pu : Purpose} {stack : List Open} {t : Terminal} {s : State} {alone : Bool}
    (h : Begins pu stack t s) (hpu : pu = .alone ↔ alone = true) : s.Serves alone := by
  cases h with
  | leaf _ | sign _ | paren _ => exact hpu

/-- A reader keeps serving what it was made for. -/
theorem serves_of_move {r r' : Reader} {t : Terminal} {alone : Bool} (h : Move r t r')
    (hr : r.state.Serves alone) : r'.state.Serves alone := by
  cases h with
  | print _ | assign _ => simpa [State.Serves] using hr
  | var _ | name _ | declared _ => exact hr
  | start hb =>
      apply hb.serves
      simpa [State.Serves] using hr
  | operand hb => exact hb.serves hr
  | operator _ _ | close _ _ => exact hr
  | finish _ _ hs =>
      -- An expression that is the whole text is no sentence, so it is not finished by a semicolon.
      cases alone with
      | false => rfl
      | true => rw [hr.mpr rfl] at hs; cases hs

theorem serves_of_shiftAll {r r' : Reader} {ts : List Terminal} {alone : Bool}
    (h : r.shiftAll ts = .ok r') (hr : r.state.Serves alone) : r'.state.Serves alone :=
  shiftAll_invariant (fun q _ => q.state.Serves alone) (fun _ _ _ _ hq hm => serves_of_move hm hq) hr h

/-! ## Completing what was read -/

section Completion

variable {name close stop : Terminal}

/-- Behind an operand, parentheses can be closed until none is open. -/
theorem exists_closed (hclose : close.kind = .mark .rightParen) (d : List Sentence) (pu : Purpose) :
    ∀ stack p, ∃ n rest q p', (⟨d, .operandRead pu stack p⟩ : Reader).shiftAll
      (List.replicate n close) =
      .ok ⟨d, .operandRead pu rest p'⟩ ∧ reduceAll rest p' = ([], q) := by
  intro stack
  induction hn : stack.length using Nat.strongRecOn generalizing stack with
  | ind n ih =>
      intro p
      -- Closing a parenthesis takes it and all above it off the stack.
      obtain ⟨q, hq⟩ | ⟨rest, q, hq, hlt⟩ := reduceAll_cases stack p
      · exact ⟨0, stack, q, p, rfl, hq⟩
      · obtain ⟨m, rest', q', p', hrun, hend⟩ := ih rest.length (hn ▸ hlt) rest rfl (.group q)
        refine ⟨m + 1, rest', q', p', ?_, hend⟩
        exact shiftAll_cons_ok.mpr ⟨_, shift_eq_some.mpr (.close hclose hq), hrun⟩

/-- From inside an expression, its end can be reached with a name and parentheses. -/
theorem exists_operand (hname : name.kind = .identifier) (hclose : close.kind = .mark .rightParen)
    {d : List Sentence} {s : State} {pu : Purpose}
    (hs : (∃ stack, s = .operandWanted pu stack) ∨ ∃ stack p, s = .operandRead pu stack p) :
    ∃ ts rest q p', (∀ t ∈ ts, t = name ∨ t = close) ∧
      (⟨d, s⟩ : Reader).shiftAll ts = .ok ⟨d, .operandRead pu rest p'⟩ ∧
      reduceAll rest p' = ([], q) := by
  have hwanted : ∀ stack, ∃ p,
      (⟨d, .operandWanted pu stack⟩ : Reader).shift name = some ⟨d, .operandRead pu stack p⟩ := by
    intro stack
    have hleaf : name.phrase? = some (.leaf (.identifier name.text)) := by
      simp [Terminal.phrase?, hname]
    exact ⟨_, shift_eq_some.mpr (.operand (.leaf hleaf))⟩
  obtain ⟨stack, rfl⟩ | ⟨stack, p, rfl⟩ := hs
  · obtain ⟨p, hp⟩ := hwanted stack
    obtain ⟨n, rest, q, p', hrun, hend⟩ := exists_closed hclose d pu stack p
    refine ⟨name :: List.replicate n close, rest, q, p', ?_, shiftAll_cons_ok.mpr ⟨_, hp, hrun⟩, hend⟩
    intro t ht
    rcases List.mem_cons.mp ht with rfl | ht
    · exact .inl rfl
    · exact .inr (List.eq_of_mem_replicate ht)
  · obtain ⟨n, rest, q, p', hrun, hend⟩ := exists_closed hclose d pu stack p
    exact ⟨List.replicate n close, rest, q, p', fun t ht => .inr (List.eq_of_mem_replicate ht),
      hrun, hend⟩

/-- A reader for programs can always come to the end of a program. -/
theorem exists_program_completion (hname : name.kind = .identifier)
    (hclose : close.kind = .mark .rightParen) (hstop : stop.kind = .mark .semicolon) {r : Reader}
    (hr : r.state.Serves false) :
    ∃ ts r', (∀ t ∈ ts, t = name ∨ t = close ∨ t = stop) ∧ r.shiftAll ts = .ok r' ∧
    r'.program?.isSome := by
  obtain ⟨d, s⟩ := r
  -- Inside an expression, come to its end; the semicolon then makes a sentence of it.
  have hinside : ∀ pu, pu ≠ .alone → (∃ stack, s = .operandWanted pu stack) ∨
    (∃ stack p, s = .operandRead pu stack p) →
      ∃ ts r', (∀ t ∈ ts, t = name ∨ t = close ∨ t = stop) ∧ (⟨d, s⟩ : Reader).shiftAll ts = .ok r' ∧
        r'.program?.isSome := by
    intro pu hpu hs
    obtain ⟨ts, rest, q, p', hmem, hrun, hend⟩ := exists_operand hname hclose (d := d) hs
    obtain ⟨sent, hsent⟩ : ∃ sent, pu.sentence? q = some sent := by
      cases pu with
      | alone => exact absurd rfl hpu
      | expression => exact ⟨_, rfl⟩
      | print => exact ⟨_, rfl⟩
      | declare n => exact ⟨_, rfl⟩
    refine ⟨ts ++ [stop], ⟨sent :: d, .between⟩, ?_, ?_, rfl⟩
    · intro t ht
      rcases List.mem_append.mp ht with ht | ht
      · exact (hmem t ht).imp_right .inl
      · exact .inr (.inr (List.mem_singleton.mp ht))
    · refine shiftAll_append_ok.mpr ⟨_, hrun, shiftAll_cons_ok.mpr ⟨_, ?_, rfl⟩⟩
      exact shift_eq_some.mpr (.finish hstop hend hsent)
  cases s with
  | between => exact ⟨[], ⟨d, .between⟩, by simp, rfl, rfl⟩
  | nameWanted =>
      refine ⟨[name, stop], ⟨.declare name.text none :: d, .between⟩, by simp, ?_, rfl⟩
      refine shiftAll_cons_ok.mpr ⟨_, shift_eq_some.mpr (.name hname), ?_⟩
      exact shiftAll_cons_ok.mpr ⟨_, shift_eq_some.mpr (.declared hstop), rfl⟩
  | nameRead n =>
      refine ⟨[stop], ⟨.declare n none :: d, .between⟩, by simp, ?_, rfl⟩
      exact shiftAll_cons_ok.mpr ⟨_, shift_eq_some.mpr (.declared hstop), rfl⟩
  | operandWanted pu stack => exact hinside pu (by simpa [State.Serves] using hr) (.inl ⟨stack, rfl⟩)
  | operandRead pu stack p => exact hinside pu (by simpa [State.Serves] using hr) (.inr ⟨stack, p, rfl⟩)

/-- A reader for an expression can always come to the end of it. -/
theorem exists_phrase_completion (hname : name.kind = .identifier)
    (hclose : close.kind = .mark .rightParen) {r : Reader} (hr : r.state.Serves true) :
    ∃ ts r', (∀ t ∈ ts, t = name ∨ t = close) ∧ r.shiftAll ts = .ok r' ∧ r'.phrase?.isSome := by
  obtain ⟨d, s⟩ := r
  have hs : (∃ stack, s = .operandWanted .alone stack) ∨
      ∃ stack p, s = .operandRead .alone stack p := by
    cases s with
    | between | nameWanted | nameRead n => cases hr
    | operandWanted pu stack => exact .inl ⟨stack, by rw [hr.mpr rfl]⟩
    | operandRead pu stack p => exact .inr ⟨stack, p, by rw [hr.mpr rfl]⟩
  obtain ⟨ts, rest, q, p', hmem, hrun, hend⟩ := exists_operand hname hclose (d := d) hs
  exact ⟨ts, _, hmem, hrun, by simp [Reader.phrase?, hend]⟩

end Completion

end Lox.Grammar
