import Lox.Proofs.Descent.Linked
/-!
# `Descent.Consumption` — what parsers do to a stream

A stream is read by looking and consuming, in parsers that may break off anywhere. `Consumes` says
what all of them do to it: pull a token into the empty buffer, meet the fault, or take the token out
of the buffer. Every parser keeps to this from any stream it is started on (`lawful_tracing`), and
tells a fault only where there is one.
-/
namespace Lox.Descent

/-! ## What is done to a stream -/

/-- The second stream comes from the first one by pulling tokens into the buffer and taking them out
of it; those that were taken out are the tokens consumed. -/
inductive Consumes (s : Stream) : List Token → Stream → Prop where
  | refl : Consumes s [] s
  | look {us : List Token} {s' : Stream} {t : Token} : Consumes s us s' → s'.buffered = none →
      s'.pull.1 = .ok t →
      Consumes s us { s'.pull.2 with buffered := some t }
  | fault {us : List Token} {s' : Stream} {e : Error} : Consumes s us s' → s'.buffered = none →
      s'.pull.1 = .error e →
      Consumes s us s'.pull.2
  | take {us : List Token} {s' : Stream} {t : Token} : Consumes s us s' → s'.buffered = some t →
      t.isEnd = false →
      Consumes s (us ++ [t]) { s' with buffered := none }

theorem Consumes.trans {s s' s'' : Stream} {us vs : List Token} (h : Consumes s us s')
    (h' : Consumes s' vs s'') :
    Consumes s (us ++ vs) s'' := by
  induction h' with
  | refl =>
      rw [List.append_nil]
      exact h
  | look _ hbuffer hpull ih => exact .look ih hbuffer hpull
  | fault _ hbuffer hpull ih => exact .fault ih hbuffer hpull
  | take _ hbuffer hend ih =>
      rw [← List.append_assoc]
      exact .take ih hbuffer hend

/-- What pulling does: it gives the next token, or else tells the fault, or else gives the end of
input. -/
theorem pull_cases (s : Stream) :
    (∃ t ts, s.ahead = t :: ts ∧ s.pull = (.ok t, { s with ahead := ts, here := t.behind })) ∨
    (s.ahead = [] ∧ ∃ f, s.fault = some f ∧
      s.pull = (.error (.lexical f), { s with fault := none, here := s.stop })) ∨
    (s.ahead = [] ∧ s.fault = none ∧
      s.pull = (.ok ⟨.endOfInput, s.stop, ""⟩, { s with here := s.stop })) := by
  unfold Stream.pull
  cases hahead : s.ahead with
  | cons t ts => exact .inl ⟨t, ts, rfl, rfl⟩
  | nil =>
      cases hfault : s.fault with
      | some f => exact .inr (.inl ⟨rfl, f, rfl, rfl⟩)
      | none => exact .inr (.inr ⟨rfl, rfl, rfl⟩)

/-- Pulling fails only at the fault, which is gone then. -/
theorem pull_eq_error {s : Stream} {e : Error} (h : s.pull.1 = .error e) :
    ∃ f, e = .lexical f ∧ s.fault = some f ∧ s.pull.2.fault = none := by
  obtain ⟨t, ts, -, hpull⟩ | ⟨-, f, hfault, hpull⟩ | ⟨-, -, hpull⟩ := pull_cases s
  · rw [hpull] at h
    cases h
  · rw [hpull] at h ⊢
    cases h
    exact ⟨f, rfl, hfault, rfl⟩
  · rw [hpull] at h
    cases h

theorem pull_fault {s : Stream} {t : Token} (h : s.pull.1 = .ok t) : s.pull.2.fault = s.fault := by
  obtain ⟨t, ts, -, hpull⟩ | ⟨-, f, -, hpull⟩ | ⟨-, -, hpull⟩ := pull_cases s
  · rw [hpull]
  · rw [hpull] at h
    cases h
  · rw [hpull]

/-- A fault that was met does not come back, and no other one appears. -/
theorem Consumes.fault_eq {s s' : Stream} {us : List Token} (h : Consumes s us s') :
    s'.fault = s.fault ∨ s'.fault = none := by
  induction h with
  | refl => exact .inl rfl
  | look _ _ hpull ih =>
      show (Stream.pull _).2.fault = _ ∨ (Stream.pull _).2.fault = _
      rw [pull_fault hpull]
      exact ih
  | fault _ _ hpull _ =>
      obtain ⟨f, -, -, hnone⟩ := pull_eq_error hpull
      exact .inr hnone
  | take _ _ _ ih => exact ih

/-- Nothing happens to a stream that has the end of input in its buffer. -/
theorem Consumes.eq_of_isEnd {s s' : Stream} {us : List Token} {t : Token} (h : Consumes s us s')
    (hbuffer : s.buffered = some t) (hend : t.isEnd = true) : s' = s := by
  induction h with
  | refl => rfl
  | look _ hnone _ ih =>
      rw [ih, hbuffer] at hnone
      cases hnone
  | fault _ hnone _ ih =>
      rw [ih, hbuffer] at hnone
      cases hnone
  | take _ hsome hproper ih =>
      rw [ih, hbuffer] at hsome
      cases hsome
      rw [hend] at hproper
      cases hproper

theorem consumes_peek {s s' : Stream} {t : Token} (h : peek.run s = (.ok t, s')) :
    Consumes s [] s' ∧ s'.buffered = some t := by
  rw [run_peek] at h
  cases hbuffer : s.buffered with
  | some u =>
      rw [hbuffer] at h
      cases h
      exact ⟨.refl, hbuffer⟩
  | none =>
      have hlook := @Consumes.look s [] s
      rw [hbuffer] at h
      generalize s.pull = r at h hlook
      obtain ⟨e | u, s''⟩ := r
      · cases h
      · cases h
        exact ⟨hlook .refl hbuffer rfl, rfl⟩

theorem consumes_peek_error {s s' : Stream} {e : Error} (h : peek.run s = (.error e, s')) :
    Consumes s [] s' ∧ ∃ f, e = .lexical f ∧ s.fault = some f ∧ s'.fault = none := by
  rw [run_peek] at h
  cases hbuffer : s.buffered with
  | some u =>
      rw [hbuffer] at h
      cases h
  | none =>
      have hfault := @Consumes.fault s [] s
      have hmet := @pull_eq_error s
      rw [hbuffer] at h
      generalize s.pull = r at h hfault hmet
      obtain ⟨e' | u, s''⟩ := r
      · cases h
        exact ⟨hfault .refl hbuffer rfl, hmet rfl⟩
      · cases h

/-- Consuming takes the token that is seen, unless that is the end of input. -/
theorem consumes_advance {s s' : Stream} {t : Token} (h : advance.run s = (.ok t, s')) :
    Consumes s (if t.isEnd then [] else [t]) s' := by
  rw [run_advance] at h
  cases hpeek : peek.run s with
  | mk r s'' =>
      rw [hpeek] at h
      cases r with
      | error e => cases h
      | ok u =>
          obtain ⟨hconsumes, hbuffer⟩ := consumes_peek hpeek
          cases h
          cases hend : t.isEnd with
          | true => exact hconsumes
          | false => exact .take hconsumes hbuffer hend

theorem advance_error {s s' : Stream} {e : Error} (h : advance.run s = (.error e, s')) :
    peek.run s = (.error e, s') := by
  rw [run_advance] at h
  cases hpeek : peek.run s with
  | mk r s'' =>
      rw [hpeek] at h
      cases r with
      | error e => exact h
      | ok u => cases h

/-- Whatever looking tells, it consumes nothing. -/
theorem consumes_nothing_peek (s : Stream) : Consumes s [] (peek.run s).2 := by
  cases hpeek : peek.run s with
  | mk r s' =>
      cases r with
      | error e => exact (consumes_peek_error hpeek).1
      | ok t => exact (consumes_peek hpeek).1

/-- Consuming what is in the buffer always succeeds. -/
theorem run_advance_of_buffered {s : Stream} {t : Token} (h : s.buffered = some t) :
    (advance.run s).1 = .ok t := by
  rw [run_advance, run_peek, h]

/-! ## Asking for kinds of tokens -/

theorem run_map {α β : Type} (f : α → β) (p : Parser α) (s : Stream) :
    (f <$> p).run s = ((p.run s).1.map f, (p.run s).2) := by
  rw [← bind_pure_comp, run_bind]
  rcases p.run s with ⟨_ | _, _⟩ <;> rfl

theorem run_check (kinds : List Kind) (s : Stream) :
    (check kinds).run s = ((peek.run s).1.map (kinds.contains ·.kind), (peek.run s).2) := by
  unfold check
  rw [run_bind]
  rcases peek.run s with ⟨_ | _, _⟩ <;> rfl

/-- Accepting fails to look, or tells whether it has consumed. -/
theorem run_accept (kinds : List Kind) (s : Stream) : (accept kinds).run s = match peek.run s with
    | (.ok t, s') =>
      if kinds.contains t.kind = true then (.ok true, (advance.run s').2) else (.ok false, s')
    | (.error e, s') => (.error e, s') := by
  unfold accept
  rw [run_bind, run_check]
  cases hpeek : peek.run s with
  | mk r s' =>
      cases r with
      | error e => rfl
      | ok t =>
          dsimp only [Except.map]
          by_cases hkind : kinds.contains t.kind = true
          · have hadvance := run_advance_of_buffered (consumes_peek hpeek).2
            rw [if_pos hkind, if_pos hkind, run_bind]
            generalize advance.run s' = r at hadvance ⊢
            obtain ⟨r, s''⟩ := r
            cases hadvance
            rfl
          · rw [if_neg hkind, if_neg hkind]
            rfl

/-- Demanding consumes a token of the kind, or fails where it has looked. -/
theorem run_expect (kind : Kind) (note : String) (s : Stream) :
    (expect kind note).run s = match peek.run s with
    | (.ok t, s') => if t.kind = kind then advance.run s' else (.error (.missing kind note t), s')
    | (.error e, s') => (.error e, s') := by
  unfold expect
  rw [run_bind]
  rcases peek.run s with ⟨e | t, s'⟩
  · rfl
  · dsimp only
    split <;> rfl

/-! ## Parsers -/

/-- The link of a run with itself: whatever happens, the stream is consumed, and a fault that is
told was there and is gone. -/
def tracing (start : Stream) : Link where
  stream s s' := s' = s ∧ ∃ us, Consumes start us s
  token := Eq
  failure r r' := r' = r ∧ (∃ us, Consumes start us r.2) ∧
    ∀ f, r.1 = .lexical f → start.fault = some f ∧ r.2.fault = none

theorem tracing_failure {start s : Stream} {e : Error} (h : ∃ us, Consumes start us s)
    (he : ∀ f, e ≠ .lexical f) :
    (tracing start).failure (e, s) (e, s) :=
  ⟨rfl, h, fun f hf => absurd hf (he f)⟩

theorem tracing_peek_error {start s s' : Stream} {us : List Token} {e : Error}
    (hs : Consumes start us s) (h : peek.run s = (.error e, s')) :
    (tracing start).failure (e, s') (e, s') := by
  obtain ⟨hconsumes, f, rfl, hfault, hnone⟩ := consumes_peek_error h
  refine ⟨rfl, ⟨_, hs.trans hconsumes⟩, ?_⟩
  rintro _ ⟨⟩
  rcases hs.fault_eq with hsame | hgone
  · exact ⟨hsame ▸ hfault, hnone⟩
  · rw [hgone] at hfault
    cases hfault

theorem lawful_tracing (start : Stream) : (tracing start).Lawful where
  meaning h := congrArg Token.meaning h
  lexeme h := congrArg Token.lexeme h
  peek := by
    rintro _ s ⟨rfl, us, hs⟩
    cases hpeek : peek.run s with
    | mk r s' =>
        cases r with
        | error e => exact .error (tracing_peek_error hs hpeek)
        | ok t => exact .ok rfl ⟨rfl, _, hs.trans (consumes_peek hpeek).1⟩
  advance := by
    rintro _ s ⟨rfl, us, hs⟩
    cases hadvance : advance.run s with
    | mk r s' =>
        cases r with
        | error e => exact .error (tracing_peek_error hs (advance_error hadvance))
        | ok t => exact .ok rfl ⟨rfl, _, hs.trans (consumes_advance hadvance)⟩
  missing := by
    rintro s _ t _ k note ⟨rfl, hs⟩ rfl
    exact tracing_failure hs (by intro f hf; cases hf)
  noOperand := by
    rintro s _ t _ ⟨rfl, hs⟩ rfl
    exact tracing_failure hs (by intro f hf; cases hf)
  trailing := by
    rintro s _ t _ ⟨rfl, hs⟩ rfl
    exact tracing_failure hs (by intro f hf; cases hf)
  tooDeep := by
    rintro s _ ⟨rfl, hs⟩
    exact tracing_failure hs (by intro f hf; cases hf)

end Lox.Descent
