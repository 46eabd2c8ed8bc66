import Lox.Proofs.Parity.Goal
/-!
# `Parity.FirstError` — an error is raised at the first token that cannot be right

What the descent says about a text is decided by its tokens and by which token sequences are
accepted at all. The tokens before the one that an error names can be completed to something
accepted, and with that token they no longer can. The end of input is named if more tokens are
needed, and a fault of the text is told only if the tokens before it leave it a chance.

Acceptance of a token sequence is the descent's own, with as much room as it takes.
-/
namespace Lox

open Descent Grammar

variable {α β : Type}

/-- A stream of these tokens and no others. -/
def Descent.Stream.ofTokens (ts : List Token) : Stream := ⟨none, ts, none, .origin, .origin⟩

/-- The parser accepts the tokens, given enough room. -/
def Descent.Accepts (p : (rounds room : Nat) → Parser β) (ts : List Token) : Prop :=
  (∀ t ∈ ts, t.isEnd = false) ∧ ∃ room b, (runOn (p · room) (.ofTokens ts)).1 = .ok b

/-- Something accepted begins with the tokens. -/
def Descent.Viable (p : (rounds room : Nat) → Parser β) (ts : List Token) : Prop :=
  ∃ us, Accepts p (ts ++ us)

/-- The tokens can be completed with tokens whose texts spell what they stand for. -/
def Descent.Completable (p : (rounds room : Nat) → Parser β) (ts : List Token) : Prop :=
  ∃ us, (∀ t ∈ us, t.Genuine) ∧ Accepts p (ts ++ us)

/-- What a result says about the tokens of a text and the fault behind them. -/
structure Descent.Explains (p : (rounds room : Nat) → Parser β) (tokens : List Token)
    (fault : Option ScanError) (result : Except Descent.Error β) : Prop where
  accepted : (∃ b, result = .ok b) ↔ fault = none ∧ Accepts p tokens
  /-- A token is named that is the first one to rule out acceptance. -/
  refused : ∀ e, result = .error e → e.tag = .badStructure ∨ e.tag = .badOperator ∨
    e.tag = .unsupported →
    ∃ us t vs, e.token? = some t ∧ tokens = us ++ t :: vs ∧ Completable p us ∧ ¬ Viable p (us ++ [t])
  /-- The end of input is named if and only if more tokens are needed. -/
  endOfFile : (∃ e, result = .error e ∧ e.tag = .endOfFile) ↔ fault = none ∧ ¬ Accepts p tokens ∧
    Viable p tokens
  /-- The fault is told if and only if the tokens before it do not rule out acceptance. -/
  lexical : (∃ e, result = .error e ∧ e.tag = .lexical) ↔ fault.isSome ∧ Viable p tokens
  wraps : ∀ e, result = .error e → e.tag = .lexical → ∃ f, fault = some f ∧ e = .lexical f
  noOther : ∀ e, result = .error e → e.tag ≠ .parseError
  completable : Viable p tokens → Completable p tokens

namespace Parity

/-! ## Acceptance, by the reader -/

/-- The reading of a sequence of tokens. -/
def Goal.reading (g : Goal α β) (ts : List Token) (hts : ∀ t ∈ ts, t.isEnd = false) (z : Ending)
    (room : Nat) : Reading :=
  ⟨g.start, ts, hts, z, room⟩

/-- The reader is complete behind the tokens. -/
def Goal.Derives (g : Goal α β) (ts : List Token) : Prop :=
  ∃ r, g.start.shiftAll (ts.map Token.terminal) = .ok r ∧ (g.complete? r).isSome

/-- The descent accepts what the reader derives. -/
theorem Goal.accepts_iff (g : Goal α β) {ts : List Token} (hts : ∀ t ∈ ts, t.isEnd = false) :
    Accepts g.descent ts ↔ g.Derives ts := by
  have hgives : Gives ⟨none, .origin⟩ (.ofTokens ts) ts := gives_fresh hts ⟨none, .origin⟩ .origin
  have hends : ∀ room, (g.reading ts hts ⟨none, .origin⟩ room).Ends g.complete? g.value?
      (runOn (g.descent · room) (.ofTokens ts)).1 := by
    intro room
    have hlen : ts.length ≤ (Stream.ofTokens ts).size + 1 := by
      show ts.length ≤ ts.length + 1 + 1
      omega
    exact g.ends (w := g.reading ts hts ⟨none, .origin⟩ room) rfl hgives hlen
  constructor
  · rintro ⟨-, room, b, hb⟩
    have h := hends room
    rw [hb] at h
    cases h with
    | accepted _ hr ha _ => exact ⟨_, hr.run, by rw [ha]; rfl⟩
  · rintro ⟨r, hrun, hr⟩
    refine ⟨hts, 13 * ts.length, ?_⟩
    -- The reader gets through, so the descent can only be short of room, and this room is ample.
    have h := hends (13 * ts.length)
    cases hresult : (runOn (g.descent · (13 * ts.length)) (.ofTokens ts)).1 with
    | ok b => exact ⟨b, rfl⟩
    | error e =>
        rw [hresult] at h
        cases h with
        | rejected he =>
            cases he with
            | lexical hf _ => cases hf
            | tooDeep _ hlt => exact absurd hlt (Nat.lt_irrefl _)
            | refused _ hreached hshift => exact absurd hrun (hreached.not_run hshift)
            | unfinished _ _ hreached hprogram hphrase =>
                cases hrun.symm.trans hreached.run
                rw [g.incomplete hprogram hphrase] at hr
                cases hr

/-! ## Completions -/

def someName : Token := ⟨.identifier "x", .origin, "x"⟩

def someClose : Token := ⟨.mark .rightParen, .origin, ")"⟩

def someStop : Token := ⟨.mark .semicolon, .origin, ";"⟩

theorem exists_tokens {us : List Terminal}
    (h : ∀ t ∈ us, t = someName.terminal ∨ t = someClose.terminal ∨ t = someStop.terminal) :
    ∃ cs : List Token, (∀ c ∈ cs, c.Genuine) ∧ cs.map Token.terminal = us := by
  induction us with
  | nil => exact ⟨[], by simp, rfl⟩
  | cons t us ih =>
      obtain ⟨cs, hcs, rfl⟩ := ih fun u hu => h u (List.mem_cons_of_mem _ hu)
      obtain ⟨c, hc, rfl⟩ : ∃ c : Token, c.Genuine ∧ t = c.terminal := by
        obtain ht | ht | ht := h t List.mem_cons_self
        · exact ⟨someName, rfl, ht⟩
        · exact ⟨someClose, trivial, ht⟩
        · exact ⟨someStop, trivial, ht⟩
      refine ⟨c :: cs, fun d hd => ?_, rfl⟩
      obtain rfl | hd := List.mem_cons.mp hd
      · exact hc
      · exact hcs d hd

/-- What the reader shifts can be completed. -/
theorem Goal.completable (g : Goal α β) {ts : List Token} {r : Reader} (hts : ∀ t ∈ ts, t.isEnd = false)
    (hrun : g.start.shiftAll (ts.map Token.terminal) = .ok r) : Completable g.descent ts := by
  obtain ⟨us, r', hmem, hus, hr'⟩ :=
    g.completion someName.terminal someClose.terminal someStop.terminal rfl rfl rfl hrun
  obtain ⟨cs, hcs, rfl⟩ := exists_tokens hmem
  have hproper : ∀ t ∈ ts ++ cs, t.isEnd = false := by
    intro t ht
    obtain ht | ht := List.mem_append.mp ht
    · exact hts t ht
    · exact (hcs t ht).isEnd_eq_false
  refine ⟨cs, hcs, (g.accepts_iff hproper).mpr ⟨r', ?_, hr'⟩⟩
  rw [List.map_append]
  exact shiftAll_append_ok.mpr ⟨r, hrun, hus⟩

/-- What something accepted begins with is shifted. -/
theorem Goal.run_of_viable (g : Goal α β) {ts : List Token} (h : Viable g.descent ts) :
    ∃ r, g.start.shiftAll (ts.map Token.terminal) = .ok r := by
  obtain ⟨us, hus⟩ := h
  obtain ⟨r, hrun, -⟩ := (g.accepts_iff hus.1).mp hus
  rw [List.map_append] at hrun
  obtain ⟨q, hq, -⟩ := shiftAll_append_ok.mp hrun
  exact ⟨q, hq⟩

theorem Goal.completable_of_viable (g : Goal α β) {ts : List Token} (h : Viable g.descent ts) :
    Completable g.descent ts := by
  obtain ⟨r, hrun⟩ := g.run_of_viable h
  obtain ⟨us, hproper, -⟩ := h
  exact g.completable (fun t ht => hproper t (List.mem_append_left us ht)) hrun

theorem viable_of_completable {p : (rounds room : Nat) → Parser β} {ts : List Token}
    (h : Completable p ts) :
    Viable p ts := by
  obtain ⟨us, -, hus⟩ := h
  exact ⟨us, hus⟩

/-- What the reader refuses is the beginning of nothing accepted. -/
theorem Goal.not_viable_of_refused (g : Goal α β) {us : List Token} {t : Token} {r : Reader}
    (hrun : g.start.shiftAll (us.map Token.terminal) = .ok r) (ht : r.shift t.terminal = none) :
    ¬ Viable g.descent (us ++ [t]) := by
  intro h
  obtain ⟨q, hq⟩ := g.run_of_viable h
  rw [List.map_append] at hq
  obtain ⟨r', hr', hq⟩ := shiftAll_append_ok.mp hq
  cases hrun.symm.trans hr'
  obtain ⟨q', hq', -⟩ := shiftAll_cons_ok.mp hq
  cases ht.symm.trans hq'

theorem viable_of_viable_append {p : (rounds room : Nat) → Parser β} {ts us : List Token}
    (h : Viable p (ts ++ us)) :
    Viable p ts := by
  obtain ⟨vs, hvs⟩ := h
  exact ⟨us ++ vs, by rwa [← List.append_assoc]⟩

theorem viable_of_accepts {p : (rounds room : Nat) → Parser β} {ts : List Token} (h : Accepts p ts) :
    Viable p ts :=
  ⟨[], by rwa [List.append_nil]⟩

/-! ## What a result says

Acceptance and each class of error settle all that the result says. -/

section

variable {p : (rounds room : Nat) → Parser β} {tokens : List Token} {fault : Option ScanError}
    {e : Descent.Error}
variable (hcompletable : Viable p tokens → Completable p tokens)

include hcompletable

theorem explains_of_accepts {b : β} (hfault : fault = none) (h : Accepts p tokens) :
    Explains p tokens fault (.ok b) where
  accepted := by simp [hfault, h]
  refused e he := by cases he
  endOfFile := by simp [h]
  lexical := by simp [hfault]
  wraps e he := by cases he
  noOther e he := by cases he
  completable := hcompletable

theorem explains_of_fault {f : ScanError} (hfault : fault = some f) (h : Viable p tokens) :
    Explains p tokens fault (.error (.lexical f)) where
  accepted := by simp [hfault]
  refused e he htag := by
    cases he
    simp [Descent.Error.tag] at htag
  endOfFile := by simp [hfault, Descent.Error.tag]
  lexical := by simp [hfault, h, Descent.Error.tag]
  wraps e he _ := by
    cases he
    exact ⟨f, hfault, rfl⟩
  noOther e he := by
    cases he
    simp [Descent.Error.tag]
  completable := hcompletable

theorem explains_of_refused {us vs : List Token} {t : Token} (htoken : e.token? = some t)
    (htag : e.tag = .badStructure ∨ e.tag = .badOperator ∨ e.tag = .unsupported)
    (hsplit : tokens = us ++ t :: vs) (hus : Completable p us) (hnot : ¬ Viable p (us ++ [t])) :
    Explains p tokens fault (.error e) := by
  have hviable : ¬ Viable p tokens := by
    rw [hsplit, ← List.singleton_append, ← List.append_assoc]
    exact fun h => hnot (viable_of_viable_append h)
  have haccepts : ¬ Accepts p tokens := fun h => hviable (viable_of_accepts h)
  -- No other class fits the error.
  have hclass : ∀ e', (.error e : Except Descent.Error β) = .error e' →
      e'.tag ≠ .endOfFile ∧ e'.tag ≠ .lexical ∧ e'.tag ≠ .parseError := by
    rintro _ ⟨⟩
    obtain h | h | h := htag <;> simp [h]
  exact {
    accepted := by simp [haccepts]
    refused := by
      rintro _ ⟨⟩ -
      exact ⟨us, t, vs, htoken, hsplit, hus, hnot⟩
    endOfFile := by
      simp only [hviable, and_false, iff_false]
      rintro ⟨e', he', h⟩
      exact (hclass e' he').1 h
    lexical := by
      simp only [hviable, and_false, iff_false]
      rintro ⟨e', he', h⟩
      exact (hclass e' he').2.1 h
    wraps e' he' h := absurd h (hclass e' he').2.1
    noOther e' he' := (hclass e' he').2.2
    completable := hcompletable }

theorem explains_of_endOfFile (htag : e.tag = .endOfFile) (hfault : fault = none)
    (hviable : Viable p tokens) (haccepts : ¬ Accepts p tokens) :
    Explains p tokens fault (.error e) where
  accepted := by simp [haccepts]
  refused := by
    rintro _ ⟨⟩ h
    simp [htag] at h
  endOfFile := by simp [hfault, hviable, haccepts, htag]
  lexical := by simp [hfault, htag]
  wraps := by
    rintro _ ⟨⟩ h
    simp [htag] at h
  noOther := by
    rintro _ ⟨⟩
    simp [htag]
  completable := hcompletable

end

/-- However the descent ends, but for want of room, the result says what the tokens are worth. -/
theorem Goal.explains (g : Goal α β) {w : Reading} {result : Except Descent.Error β}
    (hstart : w.start = g.start) (h : w.Ends g.complete? g.value? result) :
    (TooDeep result ∧ w.room < 13 * w.tokens.length) ∨
      Explains g.descent w.tokens w.ending.fault result := by
  cases h with
  | @accepted r a b hz hr ha _ =>
      have haccepts : Accepts g.descent w.tokens :=
        (g.accepts_iff w.proper).mpr ⟨r, hstart ▸ hr.run, by rw [ha]; rfl⟩
      exact .inr (explains_of_accepts g.completable_of_viable hz haccepts)
  | @rejected e he =>
      cases he with
      | tooDeep _ hlt => exact .inl ⟨⟨_, rfl⟩, hlt⟩
      | lexical hf hr =>
          have hviable : Viable g.descent w.tokens :=
            viable_of_completable (g.completable w.proper (hstart ▸ hr.run))
          exact .inr (explains_of_fault g.completable_of_viable hf hviable)
      | @refused _ t r ts hb hreached hshift =>
          have htag := hb.before (w.proper t hreached.mem)
          obtain ⟨us, hus, hrun⟩ := hreached
          rw [hstart] at hrun
          have hproper : ∀ u ∈ us, u.isEnd = false := fun u hu => w.proper u (by simp [hus, hu])
          exact .inr (explains_of_refused g.completable_of_viable hb.token htag hus
            (g.completable hproper hrun) (g.not_viable_of_refused hrun hshift))
      | @unfinished _ r hb hz hr hprogram hphrase =>
          have hrun := hr.run
          rw [hstart] at hrun
          have hviable : Viable g.descent w.tokens :=
            viable_of_completable (g.completable w.proper hrun)
          have haccepts : ¬ Accepts g.descent w.tokens := by
            intro h
            obtain ⟨r', hr', hcomplete⟩ := (g.accepts_iff w.proper).mp h
            cases hrun.symm.trans hr'
            rw [g.incomplete hprogram hphrase] at hcomplete
            cases hcomplete
          exact .inr (explains_of_endOfFile g.completable_of_viable (hb.atEnd rfl) hz hviable haccepts)

end Parity

/-- The result of reading a text, as a program or as an expression, says what its tokens up to the
first fault are worth: an error names the first token that rules out acceptance, or the end of input
if more is needed, or tells the fault if the tokens before it leave it a chance. Only a room that is
less than thirteen times the number of tokens can be too small to tell. -/
theorem Descent.first_error (s : String) (room : Nat) :
    (TooDeep (runOn (program · room) (.ofText s)).1 ∧ room < 13 * (Stream.upToFault (scan s)).1.length ∨
      Explains program (Stream.upToFault (scan s)).1 (Stream.upToFault (scan s)).2
        (runOn (program · room) (.ofText s)).1) ∧
    (TooDeep (runOn (wholeExpression · room) (.ofText s)).1 ∧
      room < 13 * (Stream.upToFault (scan s)).1.length ∨
      Explains wholeExpression (Stream.upToFault (scan s)).1 (Stream.upToFault (scan s)).2
        (runOn (wholeExpression · room) (.ofText s)).1) :=
  ⟨Parity.Goal.program.explains rfl (Parity.Goal.program.ends_ofText s room),
    Parity.Goal.expr.explains rfl (Parity.Goal.expr.ends_ofText s room)⟩

end Lox
