import Lox.Proofs.Parity.Goal
import Lox.Proofs.Parity.Terminals
import Lox.Proofs.Scan.FormFeed
import Lox.Proofs.Scan.Literal
/-!
# `Parity.Acceptance` — the two front ends accept the same texts

Both front ends read the same terminals (`Parity.Terminals`), the descent consumes what the reader
shifts (`Parity.Simulation`), and making a tree fails only for want of room or at an infinite number
(`Grammar.Build`). Put together: but for depth, a text that the grammar derives is accepted by
descent with the same tree, and the other way round. The one thing that only the grammar skips is
the form feed; with a space in its place, both skip it.
-/
namespace Lox

variable {α β : Type}

namespace Parity

open Descent Grammar

/-! ## Tokens and terminals of a text -/

/-- Braces, commas and points have no place in the grammar. -/
theorem shift_of_no_terminal {t : Terminal} (h : kindHasTerminal t.kind = false) (r : Reader) :
    r.shift t = none := by
  obtain ⟨k, text, place⟩ := t
  obtain ⟨d, s⟩ := r
  have hk : k = .mark .leftBrace ∨ k = .mark .rightBrace ∨ k = .mark .comma ∨ k = .mark .dot := by
    cases k with
    | mark m => cases m <;> simp_all [kindHasTerminal, hasTerminal]
    | identifier | string | number | endOfInput => cases h
  rcases hk with rfl | rfl | rfl | rfl <;> cases s <;> rfl

/-- No reader shifts tokens among which there is one of them. -/
theorem not_shiftAll_of_no_terminal {start r : Reader} {us vs : List Token} {b : Token}
    (hb : kindHasTerminal b.kind = false) :
    start.shiftAll ((us ++ b :: vs).map Token.terminal) ≠ .ok r := by
  intro hrun
  rw [List.map_append, List.map_cons] at hrun
  obtain ⟨q, hq, -⟩ := shiftAll_append_ok.mp hrun
  cases hrun.symm.trans (shiftAll_append_refused hq (shift_of_no_terminal hb q))

/-- How the terminals of a text continue its tokens: they are the tokens as far as the grammar knows
them, with a number in place of a fault that is one. -/
inductive Divided (items : List Item) (tokens : List Token) (fault : Option ScanError)
    (ts : Terminals) : Prop where
  | whole : fault = none → ts = ⟨tokens.map Token.terminal, none⟩ → Divided items tokens fault ts
  /-- The grammar has no terminal for one of the tokens. -/
  | barred {us b vs c} : tokens = us ++ b :: vs → kindHasTerminal b.kind = false →
      ts = ⟨us.map Token.terminal, some (c, b.place)⟩ → Divided items tokens fault ts
  /-- It is stuck at the fault. -/
  | stuck {f c} : fault = some f → f.cause ≠ .invalidNumber →
      ts = ⟨tokens.map Token.terminal, some (c, f.place)⟩ → Divided items tokens fault ts
  /-- The fault is a number, and the terminals go on behind it. -/
  | infinite {f rest} : fault = some f → f.cause = .invalidNumber →
      items = tokens.map .ok ++ .error f :: rest →
      ts = ⟨tokens.map Token.terminal ++ ⟨.number, f.lexeme, f.place⟩ :: (terminalsOf rest).list,
        (terminalsOf rest).stuck⟩ → Divided items tokens fault ts

/-- A token that the grammar knows, before all else. -/
theorem Divided.cons {items : List Item} {tokens : List Token} {fault : Option ScanError}
    {ts : Terminals} (t : Token) (h : Divided items tokens fault ts) :
    Divided (.ok t :: items) (t :: tokens) fault ⟨t.terminal :: ts.list, ts.stuck⟩ := by
  cases h with
  | whole hz hts => exact .whole hz (by rw [hts]; rfl)
  | @barred us b vs c hus hb hts =>
      have hsplit : t :: tokens = (t :: us) ++ b :: vs := congrArg (t :: ·) hus
      exact .barred (c := c) hsplit hb (by rw [hts]; rfl)
  | @stuck f c hf hcause hts => exact .stuck (c := c) hf hcause (by rw [hts]; rfl)
  | infinite hf hcause hsplit hts =>
      exact .infinite hf hcause (congrArg (.ok t :: ·) hsplit) (by rw [hts]; rfl)

/-- A fault other than a form feed, before all else. -/
theorem divided_fault {e : ScanError} (h : isFormFeed (.error e) = false) (items : List Item) :
    Divided (.error e :: items) [] (some e) (terminalsOf (.error e :: items)) := by
  have hfeed : e.cause ≠ .unexpected (some '\x0c') := of_decide_eq_false h
  rw [terminalsOf]
  cases hcause : e.cause with
  | invalidNumber =>
      refine .infinite rfl hcause rfl ?_
      simp only [seenAs, hcause]
      rfl
  | unexpected c =>
      refine .stuck (c := firstChar e.lexeme) rfl (by simp [hcause]) ?_
      rw [hcause] at hfeed
      have hc : c ≠ some '\x0c' := fun hc => hfeed (congrArg _ hc)
      simp only [seenAs, hcause, if_neg hc]
      rfl
  | unterminatedString =>
      refine .stuck (c := firstChar e.lexeme) rfl (by simp [hcause]) ?_
      simp only [seenAs, hcause]
      rfl

/-- The terminals of a text without reported form feeds. -/
theorem divided {items : List Item} (h : ∀ item ∈ items, isFormFeed item = false) :
    Divided items (Stream.upToFault items).1 (Stream.upToFault items).2 (terminalsOf items) := by
  induction items with
  | nil => exact .whole rfl rfl
  | cons item items ih =>
      have hitems := ih fun i hi => h i (List.mem_cons_of_mem _ hi)
      cases item with
      | error e => exact divided_fault (h _ List.mem_cons_self) items
      | ok t =>
          have hseen : seenAs (.ok t) =
            if kindHasTerminal t.kind then .terminal t.terminal
              else .stuck (firstChar t.lexeme) t.place := rfl
          rw [terminalsOf, hseen]
          cases ht : kindHasTerminal t.kind with
          | true => exact hitems.cons t
          | false =>
              have hsplit : (Stream.upToFault (.ok t :: items)).1 =
                  [] ++ t :: (Stream.upToFault items).1 := rfl
              exact .barred (c := firstChar t.lexeme) hsplit ht rfl

/-! ## How the grammar ends -/

/-- How deriving a text ends, told by what the reader does with its terminals. -/
inductive Derived (start : Reader) (complete? : Reader → Option α) (ts : Terminals) :
    Except Grammar.Error α → Prop where
  | refused {us t vs r} : ts.list = us ++ t :: vs → start.shiftAll us = .ok r → r.shift t = none →
      Derived start complete? ts (.error (.unexpected t))
  | unmatched {r c p} : start.shiftAll ts.list = .ok r → ts.stuck = some (c, p) →
      Derived start complete? ts (.error (.unmatched c p))
  | unfinished {r p} : start.shiftAll ts.list = .ok r → ts.stuck = none → complete? r = none →
      Derived start complete? ts (.error (.unexpectedEnd p))
  | derived {r a} : start.shiftAll ts.list = .ok r → ts.stuck = none → complete? r = some a →
      Derived start complete? ts (.ok a)

theorem derived_derive (start : Reader) (complete? : Reader → Option α) (s : String) :
    Derived start complete? (terminalsOf (scan s)) (derive start complete? s) := by
  rw [scan_eq, ← divide_eq_terminalsOf]
  unfold derive
  generalize divide s.toList .origin = ts
  cases hrun : start.shiftAll ts.list with
  | error e =>
      obtain ⟨us, t, vs, q, hlist, hus, ht, rfl⟩ := shiftAll_error hrun
      simp only [hrun]
      exact .refused hlist hus ht
  | ok r =>
      simp only [hrun]
      cases hstuck : ts.stuck with
      | some cp => exact .unmatched hrun hstuck
      | none =>
          cases ha : complete? r with
          | none =>
              simp only [bind, Except.bind, ha]
              exact .unfinished hrun hstuck ha
          | some a =>
              simp only [bind, Except.bind, ha]
              exact .derived hrun hstuck ha

section

variable {start : Reader} {complete? : Reader → Option α} {ts : Terminals}
    {result : Except Grammar.Error α}

theorem Derived.eq_unexpected {us vs : List Terminal} {t : Terminal} {r : Reader}
    (h : Derived start complete? ts result) (hlist : ts.list = us ++ t :: vs)
    (hus : start.shiftAll us = .ok r) (ht : r.shift t = none) :
    result = .error (.unexpected t) := by
  have hrefused : start.shiftAll ts.list = .error (.unexpected t) := by
    rw [hlist, shiftAll_append_refused hus ht]
  cases h with
  | refused hlist' hus' ht' =>
      rw [hlist', shiftAll_append_refused hus' ht'] at hrefused
      cases hrefused
      rfl
  | unmatched hrun _ => cases hrun.symm.trans hrefused
  | unfinished hrun _ _ => cases hrun.symm.trans hrefused
  | derived hrun _ _ => cases hrun.symm.trans hrefused

theorem Derived.eq_unmatched {c : Char} {p : Place} {r : Reader}
    (h : Derived start complete? ts result) (hrun : start.shiftAll ts.list = .ok r)
    (hstuck : ts.stuck = some (c, p)) : result = .error (.unmatched c p) := by
  cases h with
  | refused hlist hus ht =>
      rw [hlist, shiftAll_append_refused hus ht] at hrun
      cases hrun
  | unmatched _ hstuck' =>
      cases hstuck.symm.trans hstuck'
      rfl
  | unfinished _ hnone _ => cases hstuck.symm.trans hnone
  | derived _ hnone _ => cases hstuck.symm.trans hnone

theorem Derived.eq_unexpectedEnd {r : Reader} (h : Derived start complete? ts result)
    (hrun : start.shiftAll ts.list = .ok r) (hstuck : ts.stuck = none) (hr : complete? r = none) :
    ∃ p, result = .error (.unexpectedEnd p) := by
  cases h with
  | refused hlist hus ht =>
      rw [hlist, shiftAll_append_refused hus ht] at hrun
      cases hrun
  | unmatched _ hsome => cases hstuck.symm.trans hsome
  | @unfinished _ p _ _ _ => exact ⟨p, rfl⟩
  | derived hrun' _ ha =>
      cases hrun.symm.trans hrun'
      cases hr.symm.trans ha

theorem Derived.eq_ok {r : Reader} {a : α} (h : Derived start complete? ts result)
    (hrun : start.shiftAll ts.list = .ok r) (hstuck : ts.stuck = none) (ha : complete? r = some a) :
    result = .ok a := by
  cases h with
  | refused hlist hus ht =>
      rw [hlist, shiftAll_append_refused hus ht] at hrun
      cases hrun
  | unmatched _ hsome => cases hstuck.symm.trans hsome
  | unfinished hrun' _ hnone =>
      cases hrun.symm.trans hrun'
      cases ha.symm.trans hnone
  | derived hrun' _ ha' =>
      cases hrun.symm.trans hrun'
      cases ha.symm.trans ha'
      rfl

end

/-! ## Agreement -/

/-- What descent makes of a text. -/
def Goal.descend (g : Goal α β) (s : String) : Except Descent.Error β :=
  (runOn (g.descent · parseRoom) (.ofText s)).1

/-- What the grammar makes of a text. -/
def Goal.make (g : Goal α β) (s : String) : Except Grammar.Error β := do
  g.build buildRoom (← derive g.start g.complete? s)

theorem Goal.make_of_error (g : Goal α β) {s : String} {e : Grammar.Error}
    (h : derive g.start g.complete? s = .error e) : g.make s = .error e := by
  rw [Goal.make, h]
  rfl

/-- The grammar fails to derive a text, or it makes a tree of what it has derived. -/
theorem Goal.make_cases (g : Goal α β) (s : String) :
    (∃ e, g.make s = .error e ∧ Derived g.start g.complete? (terminalsOf (scan s)) (.error e)) ∨
    ∃ r a, g.start.shiftAll (terminalsOf (scan s)).list = .ok r ∧ (terminalsOf (scan s)).stuck = none ∧
      g.complete? r = some a ∧ Built (g.numbers a) (g.value? a) (g.make s) := by
  have hderived := derived_derive g.start g.complete? s
  cases hderive : derive g.start g.complete? s with
  | error e =>
      rw [hderive] at hderived
      exact .inl ⟨e, g.make_of_error hderive, hderived⟩
  | ok a =>
      rw [hderive] at hderived
      have hmake : g.make s = g.build buildRoom a := by
        rw [Goal.make, hderive]
        rfl
      cases hderived with
      | derived hrun hstuck ha =>
          refine .inr ⟨_, a, hrun, hstuck, ha, ?_⟩
          rw [hmake]
          exact g.built a buildRoom

theorem Goal.genuine_ofText (g : Goal α β) (s : String) (room : Nat) : (g.ofText s room).Genuine :=
  fun _ ht => genuine_of_mem_ofText ht

/-- The number of an infinite literal is at fault. -/
theorem number_of_infinite {text : String} {p : Place}
    (h : ∃ v, Number.read? text.toList = some v ∧ Number.isInfinite v = true) :
    Terminal.number ⟨.number, text, p⟩ = .error (.invalidNumber text p) := by
  obtain ⟨v, hread, hinfinite⟩ := h
  simp only [Terminal.number, hread, hinfinite, if_true]

theorem infinite_of_split {s : String} {ts : List Token} {f : ScanError} {rest : List Item}
    (h : scan s = ts.map .ok ++ .error f :: rest) (hf : f.cause = .invalidNumber) :
    ∃ v, Number.read? f.lexeme.toList = some v ∧ Number.isInfinite v = true := by
  apply infinite_of_mem_itemsFrom hf s.toList .origin
  rw [← scan_eq, h]
  exact List.mem_append_right _ List.mem_cons_self

/-- A text that is all tokens has no reported form feed. -/
theorem not_isFormFeed_of_no_fault {s : String} (h : (Stream.upToFault (scan s)).2 = none) :
    ∀ item ∈ scan s, isFormFeed item = false := by
  rw [scan_of_no_fault h]
  intro item hitem
  obtain ⟨t, -, rfl⟩ := List.mem_map.mp hitem
  rfl

/-- What descent makes of a text within some room. -/
def Goal.read (g : Goal α β) (room : Nat) (s : String) : Except Descent.Error β :=
  (runOn (g.descent · room) (.ofText s)).1

/-- What descent rejects is rejected at a token that the reader does not shift, at the end, at a fault
or for want of room. -/
theorem Goal.rejects_of_read (g : Goal α β) {room : Nat} {s : String} {e : Descent.Error}
    (h : g.read room s = .error e) : (g.ofText s room).Rejects e := by
  have hends := g.ends_ofText s room
  rw [show (runOn (g.descent · room) (.ofText s)).1 = .error e from h] at hends
  cases hends with
  | rejected he => exact he

/-- Behind the tokens of what descent reads the reader is complete. -/
theorem Goal.run_of_read (g : Goal α β) {room : Nat} {s : String} {t : β} (ht : g.read room s = .ok t) :
    (Stream.upToFault (scan s)).2 = none ∧ ∃ r a,
      g.start.shiftAll ((Stream.upToFault (scan s)).1.map Token.terminal) = .ok r ∧
      g.complete? r = some a ∧
        g.value? a = some t := by
  have hends := g.ends_ofText s room
  rw [show (runOn (g.descent · room) (.ofText s)).1 = .ok t from ht] at hends
  cases hends with
  | accepted hz hr ha hvalue => exact ⟨hz, _, _, hr.run, ha, hvalue (g.genuine_ofText s room)⟩

theorem Goal.run_of_descend (g : Goal α β) {s : String} {t : β} (ht : g.descend s = .ok t) :
    (Stream.upToFault (scan s)).2 = none ∧ ∃ r a,
      g.start.shiftAll ((Stream.upToFault (scan s)).1.map Token.terminal) = .ok r ∧
      g.complete? r = some a ∧
        g.value? a = some t :=
  g.run_of_read (show g.read parseRoom s = .ok t from ht)

/-- The grammar derives what descent reads, whatever room that takes. -/
theorem Goal.derive_of_read (g : Goal α β) {room : Nat} {s : String} {t : β}
    (ht : g.read room s = .ok t) :
    ∃ a, derive g.start g.complete? s = .ok a ∧ g.value? a = some t := by
  obtain ⟨hfault, r, a, hrun, ha, hvalue⟩ := g.run_of_read ht
  -- There is no fault, and the reader knows all tokens, so the terminals are the tokens.
  have hts : terminalsOf (scan s) = ⟨(Stream.upToFault (scan s)).1.map Token.terminal, none⟩ := by
    cases divided (not_isFormFeed_of_no_fault hfault) with
    | whole _ hts => exact hts
    | barred hus hb _ =>
        rw [hus] at hrun
        exact absurd hrun (not_shiftAll_of_no_terminal hb)
    | stuck hf _ _ => cases hfault.symm.trans hf
    | infinite hf _ _ _ => cases hfault.symm.trans hf
  have hderived := derived_derive g.start g.complete? s
  rw [hts] at hderived
  exact ⟨a, hderived.eq_ok hrun rfl ha, hvalue⟩

/-- What was derived is made into its tree, given enough room. -/
theorem Goal.build_of_value (g : Goal α β) {a : α} {t : β} (h : g.value? a = some t) (room : Nat) :
    g.build room a = .ok t ∨ g.build room a = .error .tooDeep := by
  have hbuilt := g.built a room
  rw [h] at hbuilt
  generalize g.build room a = result at hbuilt
  cases hbuilt with
  | ok hv _ => exact .inl (by rw [Option.some.inj hv])
  | tooDeep => exact .inr rfl
  | infinite _ _ _ hv => cases hv

/-- The grammar makes the same tree of what descent accepts, given enough room. -/
theorem Goal.make_of_descend (g : Goal α β) {s : String} {t : β} (ht : g.descend s = .ok t) :
    g.make s = .ok t ∨ g.make s = .error .tooDeep := by
  obtain ⟨a, hderive, hvalue⟩ := g.derive_of_read (show g.read parseRoom s = .ok t from ht)
  rw [Goal.make, hderive]
  exact g.build_of_value hvalue buildRoom

/-- Thirteen levels for each token are enough to read a text. -/
theorem Goal.not_tooDeep_read (g : Goal α β) {s : String} {room : Nat}
    (h : 13 * (Stream.ofText s).ahead.length ≤ room) : ¬TooDeep (g.read room s) := by
  rintro ⟨p, hdeep⟩
  cases g.rejects_of_read hdeep with
  | tooDeep _ hroom => exact absurd hroom (Nat.not_lt.mpr h)
  | refused hblames _ _ => cases hblames.token
  | unfinished hblames _ _ _ _ => cases hblames.token

/-- How descent ends on a text whose tokens the reader shifts. -/
theorem Goal.read_of_run (g : Goal α β) {s : String} {r : Reader} (room : Nat)
    (hrun : g.start.shiftAll ((Stream.upToFault (scan s)).1.map Token.terminal) = .ok r) :
    (TooDeep (g.read room s) ∧ room < 13 * (Stream.ofText s).ahead.length) ∨
    (∃ f, (Stream.upToFault (scan s)).2 = some f ∧ g.read room s = .error (.lexical f)) ∨
    ((Stream.upToFault (scan s)).2 = none ∧ ∀ a, g.complete? r = some a →
      ∃ b, g.value? a = some b ∧ g.read room s = .ok b) := by
  have hends := g.ends_ofText s room
  rw [show (runOn (g.descent · room) (.ofText s)).1 = g.read room s from rfl] at hends
  generalize g.read room s = result at hends
  cases hends with
  | @accepted _ _ b hz hr ha hvalue =>
      refine .inr (.inr ⟨hz, fun a ha' => ⟨b, ?_, rfl⟩⟩)
      cases hrun.symm.trans hr.run
      cases ha.symm.trans ha'
      exact hvalue (g.genuine_ofText s room)
  | rejected he =>
      cases he with
      | lexical hf _ => exact .inr (.inl ⟨_, hf, rfl⟩)
      | tooDeep _ hroom => exact .inl ⟨⟨_, rfl⟩, hroom⟩
      | refused _ hreached hshift => exact absurd hrun (hreached.not_run hshift)
      | unfinished _ hz hr hprogram hphrase =>
          refine .inr (.inr ⟨hz, fun a ha => ?_⟩)
          cases hrun.symm.trans hr.run
          cases (g.incomplete hprogram hphrase).symm.trans ha

theorem Goal.descend_of_run (g : Goal α β) {s : String} {r : Reader}
    (hrun : g.start.shiftAll ((Stream.upToFault (scan s)).1.map Token.terminal) = .ok r) :
    TooDeep (g.descend s) ∨
    (∃ f, (Stream.upToFault (scan s)).2 = some f ∧ g.descend s = .error (.lexical f)) ∨
    ((Stream.upToFault (scan s)).2 = none ∧ ∀ a, g.complete? r = some a →
      ∃ b, g.value? a = some b ∧ g.descend s = .ok b) :=
  (g.read_of_run parseRoom hrun).imp_left And.left

/-- Descent reads what the grammar makes a tree of, and finds the same tree, unless
there is not enough room. -/
theorem Goal.read_of_make (g : Goal α β) {s : String} {t : β} (room : Nat)
    (hfeed : ∀ item ∈ scan s, isFormFeed item = false) (ht : g.make s = .ok t) :
    g.read room s = .ok t ∨ (TooDeep (g.read room s) ∧ room < 13 * (Stream.ofText s).ahead.length) := by
  obtain ⟨e, he, -⟩ | ⟨r, a, hrun, hstuck, ha, hbuilt⟩ := g.make_cases s
  · cases ht.symm.trans he
  rw [ht] at hbuilt
  cases hbuilt with
  | ok hvalue hfinite =>
      cases divided hfeed with
      | whole hz hts =>
          rw [hts] at hrun
          obtain h | ⟨f, hf, -⟩ | ⟨-, h⟩ := g.read_of_run room hrun
          · exact .inr h
          · cases hz.symm.trans hf
          · obtain ⟨b, hb, hread⟩ := h a ha
            cases hvalue.symm.trans hb
            exact .inl hread
      | barred _ _ hts => rw [hts] at hstuck; cases hstuck
      | stuck _ _ hts => rw [hts] at hstuck; cases hstuck
      | @infinite f rest _ hcause hsplit hts =>
          -- The number at fault is among those that were made, and all of these are finite.
          have hmem : (⟨.number, f.lexeme, f.place⟩ : Terminal) ∈ g.numbers a := by
            rw [g.numbers_eq hrun ha, hts]
            exact List.mem_filter.mpr ⟨List.mem_append_right _ List.mem_cons_self, rfl⟩
          obtain ⟨e, he⟩ := hfinite _ hmem
          cases he.symm.trans (number_of_infinite (infinite_of_split hsplit hcause))

/-- Room enough there always is. -/
theorem Goal.exists_read_of_no_feed (g : Goal α β) {s : String} {t : β}
    (hfeed : ∀ item ∈ scan s, isFormFeed item = false) (ht : g.make s = .ok t) :
    ∃ room, g.read room s = .ok t := by
  obtain hread | ⟨-, hroom⟩ := g.read_of_make (13 * _) hfeed ht
  · exact ⟨_, hread⟩
  · exact absurd hroom (Nat.lt_irrefl _)

theorem Goal.descend_of_make (g : Goal α β) {s : String} {t : β}
    (hfeed : ∀ item ∈ scan s, isFormFeed item = false) (ht : g.make s = .ok t) :
    g.descend s = .ok t ∨ TooDeep (g.descend s) :=
  (g.read_of_make parseRoom hfeed ht).imp_right And.left

/-! ## Form feeds -/

theorem terminalsOf_filter (items : List Item) :
    terminalsOf (items.filter (!isFormFeed ·)) = terminalsOf items := by
  induction items with
  | nil => rfl
  | cons item items ih =>
      rw [List.filter_cons]
      cases hitem : isFormFeed item with
      | false =>
          show terminalsOf (item :: items.filter (!isFormFeed ·)) = _
          rw [terminalsOf, terminalsOf, ih]
      | true =>
          have hseen : seenAs item = .blank := by
            cases item with
            | ok t => cases hitem
            | error e =>
                have hcause : e.cause = .unexpected (some '\x0c') := of_decide_eq_true hitem
                simp only [seenAs, hcause, if_true]
          show terminalsOf (items.filter (!isFormFeed ·)) = _
          rw [terminalsOf, hseen, ih]
          rfl

/-- The grammar makes no difference between a form feed and a space. -/
theorem Goal.make_blankFormFeeds (g : Goal α β) (s : String) :
    g.make (blankFormFeeds s) = g.make s := by
  have hdivide : divide (blankFormFeeds s).toList .origin = divide s.toList .origin := by
    rw [divide_eq_terminalsOf, divide_eq_terminalsOf, ← scan_eq, ← scan_eq, scan_blankFormFeeds,
      terminalsOf_filter]
  rw [Goal.make, Goal.make, derive, derive, hdivide]

/-- What the grammar makes a tree of is read by descent as well, with its form feeds blanked and
with as much room as that takes. -/
theorem Goal.exists_read_of_make (g : Goal α β) {s : String} {t : β} (ht : g.make s = .ok t) :
    ∃ room s', g.read room s' = .ok t := by
  have hmake : g.make (blankFormFeeds s) = .ok t := by rw [g.make_blankFormFeeds, ht]
  obtain ⟨room, hread⟩ := g.exists_read_of_no_feed (not_isFormFeed_blankFormFeeds s) hmake
  exact ⟨room, _, hread⟩

end Parity

/-- Where neither result is for want of room, the two results accept the same trees. -/
def Agree (made : Except Grammar.Error β) (read : Except Descent.Error β) : Prop :=
  made ≠ .error .tooDeep → ¬Descent.TooDeep read → ∀ t, made = .ok t ↔ read = .ok t

namespace Parity

theorem Goal.agree (g : Goal α β) {s : String} (hfeed : ∀ item ∈ scan s, isFormFeed item = false) :
    Agree (g.make s) (g.descend s) := by
  intro hmake hdescend t
  constructor
  · intro ht
    exact (g.descend_of_make hfeed ht).resolve_right hdescend
  · intro ht
    exact (g.make_of_descend ht).resolve_right hmake

theorem Goal.agree_blankFormFeeds (g : Goal α β) (s : String) :
    Agree (g.make s) (g.descend (blankFormFeeds s)) := by
  rw [← g.make_blankFormFeeds]
  exact g.agree (not_isFormFeed_blankFormFeeds s)

end Parity

/-- Where neither is short of room, the grammar makes a tree of a text if and only if descent reads
the same tree from the text with a space for every form feed that scanning reports. So on a text
without form feeds the two accept the same, and whatever descent accepts the grammar accepts. This
holds of programs and of single expressions. -/
theorem front_ends_agree (s : String) :
    Agree (Grammar.parseProgram s) (Descent.parseProgram (blankFormFeeds s)) ∧
    Agree (Grammar.parseExpr s) (Descent.parseExpr (blankFormFeeds s)) ∧
    ('\x0c' ∉ s.toList → Agree (Grammar.parseProgram s) (Descent.parseProgram s) ∧
      Agree (Grammar.parseExpr s) (Descent.parseExpr s)) ∧
    (∀ t, Descent.parseProgram s = .ok t → Grammar.parseProgram s = .ok t ∨
      Grammar.parseProgram s = .error .tooDeep) ∧
    (∀ t, Descent.parseExpr s = .ok t → Grammar.parseExpr s = .ok t ∨
      Grammar.parseExpr s = .error .tooDeep) := by
  refine ⟨Parity.Goal.program.agree_blankFormFeeds s, Parity.Goal.expr.agree_blankFormFeeds s,
    fun h => ?_, ?_, ?_⟩
  · have hfeed := not_isFormFeed_of_not_mem h
    exact ⟨Parity.Goal.program.agree hfeed, Parity.Goal.expr.agree hfeed⟩
  · exact fun t ht => Parity.Goal.program.make_of_descend ht
  · exact fun t ht => Parity.Goal.expr.make_of_descend ht

/-- A form feed between two tokens, and one inside a string, which stays. -/
theorem front_ends_agree_form_feed : Descent.parseProgram (blankFormFeeds "print\x0cx + \"\x0c\";") =
    .ok [.print (.binary (.strict .add) (.literal (.identifier "x")) (.literal (.string "\x0c")))] := by
  have hmade : Grammar.parseProgram "print\x0cx + \"\x0c\";" =
      .ok [.print (.binary (.strict .add) (.literal (.identifier "x"))
        (.literal (.string "\x0c")))] := by cbv
  have hread : (Descent.parseProgram (blankFormFeeds "print\x0cx + \"\x0c\";")).toOption.isSome =
      true := by cbv
  have hroom : ¬Descent.TooDeep (Descent.parseProgram (blankFormFeeds "print\x0cx + \"\x0c\";")) := by
    rintro ⟨p, hp⟩
    rw [hp] at hread
    cases hread
  refine ((front_ends_agree "print\x0cx + \"\x0c\";").1 ?_ hroom _).mp hmade
  rw [hmade]
  intro h
  cases h

end Lox
