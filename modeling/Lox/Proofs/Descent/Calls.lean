import Lox.Proofs.Descent.Consumption
import Lox.Proofs.Scan.Munch
/-!
# `Descent.Calls` — the stream of a text under any sequence of calls

Every parser may be called on what an earlier one has left, also when that one broke off. From what
parsers do to a stream at all (`Consumes`) follows in which states the stream of a text can be found
(`Standing`), and with it that the tokens are consumed one by one in the order of the text, that the
end of input stays in the buffer, and that the fault is told once.
-/
namespace Lox.Descent

/-! ## Calls -/

/-- What a parser can be asked for. Reading what nests takes a room. -/
inductive Call where
  | peek
  | advance
  | check (kinds : List Kind)
  | accept (kinds : List Kind)
  | expect (kind : Kind) (note : String)
  | program (room : Nat)
  | wholeExpression (room : Nat)
  | statement (room : Nat)
  | declaration (room : Nat)
  | atTier (room : Nat) (tier : Tier)
  | unary (room : Nat)
  | primary (room : Nat)

/-- What a parser answers. -/
inductive Answer where
  | token (t : Token)
  | flag (b : Bool)
  | expr (e : Expr)
  | stmt (s : Stmt)
  | stmts (ss : List Stmt)

namespace Call

/-- The parser that a call runs. -/
def parser : Call → (rounds : Nat) → Parser Answer
  | peek, _ => .token <$> Descent.peek
  | advance, _ => .token <$> Descent.advance
  | check kinds, _ => .flag <$> Descent.check kinds
  | accept kinds, _ => .flag <$> Descent.accept kinds
  | expect kind note, _ => .token <$> Descent.expect kind note
  | program room, rounds => .stmts <$> Descent.program rounds room
  | wholeExpression room, rounds => .expr <$> Descent.wholeExpression rounds room
  | statement room, rounds => .stmt <$> Descent.statement rounds room
  | declaration room, rounds => .stmt <$> Descent.declaration rounds room
  | atTier room tier, rounds => .expr <$> Descent.atTier rounds room tier
  | unary room, rounds => .expr <$> Descent.unary rounds room
  | primary room, rounds => .expr <$> Descent.primary rounds room

/-- Answers a call. -/
def run (c : Call) (s : Stream) : Except Error Answer × Stream := runOn c.parser s

/-- The call was to see or to take a token of some kind, and there was none. -/
def Fails : Call → Except Error Answer → Prop
  | check _, r | accept _, r => r ≠ .ok (.flag true)
  | expect _ _, r => ∃ e, r = .error e
  | _, _ => False

/-- The call was to take a token, and this is the one. -/
def Takes : Call → Except Error Answer → Token → Prop
  | advance, r, t | expect _ _, r, t => r = .ok (.token t) ∧ t.isEnd = false
  | _, _, _ => False

end Call

/-- The stream after a run of calls. -/
def Stream.after (s : Stream) (calls : List Call) : Stream := calls.foldl (fun s c => (c.run s).2) s

/-- What a run of calls is answered. -/
def Stream.answers (s : Stream) : List Call → List (Except Error Answer)
  | [] => []
  | c :: calls => (c.run s).1 :: (c.run s).2.answers calls

theorem keeps_call (start : Stream) (c : Call) (rounds : Nat) :
    (tracing start).Keeps Eq (c.parser rounds) (c.parser rounds) := by
  have hL := lawful_tracing start
  have hmap {α : Type} {p : Parser α} (f : α → Answer) (hp : (tracing start).Keeps Eq p p) :
      (tracing start).Keeps Eq (f <$> p) (f <$> p) := hp.map fun _ _ h => congrArg f h
  cases c with
  | peek => exact hmap _ hL.peek
  | advance => exact hmap _ hL.advance
  | check kinds => exact hmap _ (hL.check kinds)
  | accept kinds => exact hmap _ (hL.accept kinds)
  | expect kind note => exact hmap _ (hL.expect kind note)
  | program room => exact hmap _ (hL.program rounds room)
  | wholeExpression room => exact hmap _ (hL.wholeExpression rounds room)
  | statement room => exact hmap _ (hL.statement rounds room)
  | declaration room => exact hmap _ (hL.declaration rounds room)
  | atTier room tier => exact hmap _ (hL.atTier rounds room tier)
  | unary room => exact hmap _ (hL.unary rounds room)
  | primary room => exact hmap _ (hL.primary rounds room)

/-- A call consumes tokens of the stream, and tells a fault only if there is one, which is gone
then. -/
theorem consumes_call (c : Call) (s : Stream) : (∃ us, Consumes s us (c.run s).2) ∧
    ∀ f, (c.run s).1 = .error (.lexical f) → s.fault = some f ∧ (c.run s).2.fault = none := by
  -- The run is linked with itself, from the stream that it starts on.
  have hends := keeps_call s c (s.size + 1) s s ⟨rfl, [], .refl⟩
  change (tracing s).Ends Eq (c.run s) (c.run s) at hends
  generalize c.run s = r at hends
  cases hends with
  | ok _ hstream => exact ⟨hstream.2, by intro f hf; cases hf⟩
  | error hfailure =>
      refine ⟨hfailure.2.1, ?_⟩
      rintro f ⟨⟩
      exact hfailure.2.2 f rfl

/-- A call that fails to see or to take a token consumes nothing. -/
theorem consumes_nothing {c : Call} {s : Stream} (h : c.Fails (c.run s).1) :
    Consumes s [] (c.run s).2 := by
  cases c with
  | check kinds =>
      change Consumes s [] ((Answer.flag <$> check kinds : Parser Answer).run s).2
      rw [run_map, run_check]
      exact consumes_nothing_peek s
  | accept kinds =>
      change ((Answer.flag <$> accept kinds : Parser Answer).run s).1 ≠ _ at h
      change Consumes s [] ((Answer.flag <$> accept kinds : Parser Answer).run s).2
      rw [run_map, run_accept] at h ⊢
      have hpeek := consumes_nothing_peek s
      generalize peek.run s = r at h hpeek ⊢
      obtain ⟨e | t, s'⟩ := r
      · exact hpeek
      · dsimp only at h ⊢
        split at h
        · exact absurd rfl h
        · rename_i hkind
          rw [if_neg hkind]
          exact hpeek
  | expect kind note =>
      obtain ⟨e, he⟩ := h
      change ((Answer.token <$> expect kind note : Parser Answer).run s).1 = _ at he
      change Consumes s [] ((Answer.token <$> expect kind note : Parser Answer).run s).2
      rw [run_map, run_expect] at he ⊢
      have hconsumes := consumes_nothing_peek s
      cases hpeek : peek.run s with
      | mk r s' =>
          rw [hpeek] at he hconsumes
          cases r with
          | error e => exact hconsumes
          | ok t =>
              dsimp only at he ⊢
              split at he
              · -- A token of the kind is there, and is taken.
                rw [run_advance_of_buffered (consumes_peek hpeek).2] at he
                cases he
              · rename_i hkind
                rw [if_neg hkind]
                exact hconsumes
  | peek | advance | program _ | wholeExpression _ | statement _ | declaration _ | atTier _ _
  | unary _ | primary _ =>
      exact h.elim

theorem consumes_answered {s : Stream} {t : Token}
    (h : (advance.run s).1.map Answer.token = .ok (.token t)) (hend : t.isEnd = false) :
    Consumes s [t] (advance.run s).2 := by
  cases hadvance : advance.run s with
  | mk r s' =>
      rw [hadvance] at h
      cases r with
      | error e => cases h
      | ok u =>
          cases h
          have hconsumes := consumes_advance hadvance
          rw [hend] at hconsumes
          exact hconsumes

/-- A call that takes a token consumes this one. -/
theorem consumes_taken {c : Call} {s : Stream} {t : Token} (h : c.Takes (c.run s).1 t) :
    Consumes s [t] (c.run s).2 := by
  cases c with
  | advance =>
      obtain ⟨hanswer, hend⟩ := h
      change ((Answer.token <$> advance : Parser Answer).run s).1 = _ at hanswer
      show Consumes s [t] ((Answer.token <$> advance : Parser Answer).run s).2
      rw [run_map] at hanswer ⊢
      exact consumes_answered hanswer hend
  | expect kind note =>
      obtain ⟨hanswer, hend⟩ := h
      change ((Answer.token <$> expect kind note : Parser Answer).run s).1 = _ at hanswer
      show Consumes s [t] ((Answer.token <$> expect kind note : Parser Answer).run s).2
      rw [run_map, run_expect] at hanswer ⊢
      cases hpeek : peek.run s with
      | mk r s' =>
          rw [hpeek] at hanswer
          cases r with
          | error e => cases hanswer
          | ok u =>
              dsimp only at hanswer ⊢
              split at hanswer
              · rename_i hkind
                rw [if_pos hkind]
                exact (consumes_peek hpeek).1.trans (consumes_answered hanswer hend)
              · cases hanswer
  | peek | check _ | accept _ | program _ | wholeExpression _ | statement _ | declaration _
  | atTier _ _ | unary _ | primary _ => exact h.elim

/-! ## The stream of a text -/

/-- Where reading has come to behind these tokens. -/
def behind (ts : List Token) : Place := (ts.getLast?.map Token.behind).getD .origin

theorem behind_take_succ {ts : List Token} {k : Nat} {t : Token} (h : ts[k]? = some t) :
    behind (ts.take (k + 1)) = t.behind := by
  rw [behind, List.take_add_one, h, Option.toList_some, List.getLast?_concat]
  rfl

/-- The tokens pulled: those consumed, and the one in the buffer. -/
def pulled (consumed : List Token) (s : Stream) : List Token :=
  consumed ++ s.buffered.toList.filter fun t => !t.isEnd

theorem pulled_of_none {us : List Token} {s : Stream} (hs : s.buffered = none) : pulled us s = us := by
  rw [pulled, hs, Option.toList_none, List.filter_nil, List.append_nil]

theorem pulled_of_isEnd {us : List Token} {s : Stream} {t : Token} (hs : s.buffered = some t)
    (hend : t.isEnd = true) :
    pulled us s = us := by
  rw [pulled, hs, Option.toList_some, List.filter_singleton, hend]
  exact List.append_nil us

theorem pulled_of_buffered {ts : List Token} {k : Nat} {t : Token} {s : Stream}
    (hs : s.buffered = some t) (ht : ts[k]? = some t) (hend : t.isEnd = false) :
    pulled (ts.take k) s = ts.take (k + 1) := by
  rw [pulled, hs, List.take_add_one, ht, Option.toList_some, List.filter_singleton, hend]
  rfl

/-- The states in which the stream of a text can be found after some of its tokens were consumed. -/
inductive Standing (start : Stream) : Nat → Stream → Prop where
  | unread {k : Nat} : k ≤ start.ahead.length →
      Standing start k ⟨none, start.ahead.drop k, start.fault, behind (start.ahead.take k), start.stop⟩
  | held {k : Nat} {t : Token} : start.ahead[k]? = some t →
      Standing start k ⟨some t, start.ahead.drop (k + 1), start.fault,
        behind (start.ahead.take (k + 1)), start.stop⟩
  /-- The fault was met. -/
  | failed {f : ScanError} : start.fault = some f →
      Standing start start.ahead.length ⟨none, [], none, start.stop, start.stop⟩
  | ended : Standing start start.ahead.length ⟨some ⟨.endOfInput, start.stop, ""⟩, [], none,
      start.stop, start.stop⟩

namespace Standing

variable {start s : Stream} {k : Nat}

theorem look {t : Token} (h : Standing start k s) (hbuffer : s.buffered = none)
    (hpull : s.pull.1 = .ok t) :
    Standing start k { s.pull.2 with buffered := some t } := by
  cases h with
  | unread hk =>
      obtain ⟨u, us, hahead, hs⟩ | ⟨-, f, -, hs⟩ | ⟨hahead, hfault, hs⟩ := pull_cases _
      · -- The token that is pulled is the one behind those consumed.
        rw [hs] at hpull ⊢
        cases hpull
        dsimp only at hahead
        have ht : start.ahead[k]? = some t := by
          rw [← List.head?_drop, hahead]
          rfl
        have hus : us = start.ahead.drop (k + 1) := by
          rw [← List.tail_drop, hahead]
          rfl
        rw [hus, ← behind_take_succ ht]
        exact .held ht
      · rw [hs] at hpull
        cases hpull
      · obtain rfl : k = start.ahead.length := Nat.le_antisymm hk (List.drop_eq_nil_iff.mp hahead)
        rw [hs] at hpull ⊢
        cases hpull
        dsimp only at hahead hfault
        rw [hahead, hfault]
        exact .ended
  | held _ => cases hbuffer
  | failed _ =>
      cases hpull
      exact .ended
  | ended => cases hbuffer

theorem fault {e : Error} (h : Standing start k s) (hbuffer : s.buffered = none)
    (hpull : s.pull.1 = .error e) :
    Standing start k s.pull.2 := by
  cases h with
  | unread hk =>
      obtain ⟨u, us, -, hs⟩ | ⟨hahead, f, hfault, hs⟩ | ⟨-, -, hs⟩ := pull_cases _
      · rw [hs] at hpull
        cases hpull
      · obtain rfl : k = start.ahead.length := Nat.le_antisymm hk (List.drop_eq_nil_iff.mp hahead)
        rw [hs]
        dsimp only at hahead hfault ⊢
        rw [hahead]
        exact .failed hfault
      · rw [hs] at hpull
        cases hpull
  | held _ => cases hbuffer
  | failed _ => cases hpull
  | ended => cases hbuffer

/-- A token that is taken is the next one. -/
theorem take {t : Token} (h : Standing start k s) (hbuffer : s.buffered = some t)
    (hend : t.isEnd = false) :
    start.ahead[k]? = some t ∧ Standing start (k + 1) { s with buffered := none } := by
  cases h with
  | unread _ => cases hbuffer
  | held ht =>
      cases hbuffer
      obtain ⟨hlt, -⟩ := List.getElem?_eq_some_iff.mp ht
      exact ⟨ht, .unread hlt⟩
  | failed _ => cases hbuffer
  | ended =>
      cases hbuffer
      cases hend

/-- The tokens that are not pulled are the others. -/
theorem ahead (h : Standing start k s) (hproper : ∀ t ∈ start.ahead, t.isEnd = false) :
    pulled (start.ahead.take k) s ++ s.ahead = start.ahead := by
  cases h with
  | unread _ =>
      rw [pulled_of_none rfl]
      exact List.take_append_drop k _
  | @held _ t ht =>
      rw [pulled_of_buffered rfl ht (hproper t (List.mem_of_getElem? ht))]
      exact List.take_append_drop (k + 1) _
  | failed _ =>
      rw [pulled_of_none rfl, List.take_length]
      exact List.append_nil _
  | ended =>
      rw [pulled_of_isEnd rfl rfl, List.take_length]
      exact List.append_nil _

end Standing

/-- What is consumed of a text is what its tokens begin with. -/
theorem standing_of_consumes {start s : Stream} {us : List Token} (hbuffer : start.buffered = none)
    (hhere : start.here = .origin) (h : Consumes start us s) :
    us = start.ahead.take us.length ∧ Standing start us.length s := by
  induction h with
  | refl =>
      refine ⟨rfl, ?_⟩
      obtain ⟨buffered, ahead, fault, here, stop⟩ := start
      cases hbuffer
      cases hhere
      exact .unread (Nat.zero_le _)
  | look _ hnone hpull ih => exact ⟨ih.1, ih.2.look hnone hpull⟩
  | fault _ hnone hpull ih => exact ⟨ih.1, ih.2.fault hnone hpull⟩
  | @take us s t _ hsome hend ih =>
      obtain ⟨ht, hstanding⟩ := ih.2.take hsome hend
      rw [List.length_append, List.length_singleton]
      refine ⟨?_, hstanding⟩
      rw [List.take_add_one, ht, ← ih.1]
      rfl

/-! ## Runs of calls -/

/-- The fault that an answer tells. -/
def told? : Except Error Answer → Option ScanError
  | .error (.lexical f) => some f
  | _ => none

theorem eq_of_told? {r : Except Error Answer} {f : ScanError} (h : told? r = some f) :
    r = .error (.lexical f) := by
  unfold told? at h
  split at h
  · cases h
    rfl
  · cases h

theorem consumes_after (s : Stream) (calls : List Call) : ∃ us, Consumes s us (s.after calls) := by
  induction calls generalizing s with
  | nil => exact ⟨[], .refl⟩
  | cons c calls ih =>
      obtain ⟨us, hus⟩ := (consumes_call c s).1
      obtain ⟨vs, hvs⟩ := ih (c.run s).2
      exact ⟨us ++ vs, hus.trans hvs⟩

/-- However often a stream is asked, its fault is told once, and no other one is told. -/
theorem told_sublist (s : Stream) (calls : List Call) :
    ((s.answers calls).filterMap told?).Sublist s.fault.toList := by
  induction calls generalizing s with
  | nil => exact List.nil_sublist _
  | cons c calls ih =>
      obtain ⟨⟨us, hconsumes⟩, htold⟩ := consumes_call c s
      have hrest := ih (c.run s).2
      show (((c.run s).1 :: (c.run s).2.answers calls).filterMap told?).Sublist _
      cases hanswer : told? (c.run s).1 with
      | some f =>
          -- The fault is told now, so it is gone for the calls that follow.
          obtain ⟨hfault, hnone⟩ := htold f (eq_of_told? hanswer)
          rw [hnone] at hrest
          rw [List.filterMap_cons_some hanswer, hfault, List.sublist_nil.mp hrest]
          exact List.Sublist.refl _
      | none =>
          rw [List.filterMap_cons_none hanswer]
          rcases hconsumes.fault_eq with hsame | hgone
          · exact hsame ▸ hrest
          · rw [hgone] at hrest
            exact hrest.trans (List.nil_sublist _)

/-! ## In terms of the text -/

/-- The items begin with these tokens, up to the first fault if there is one. -/
def Leads (items : List Item) (ts : List Token) : Option ScanError → Prop
  | none => items = ts.map .ok
  | some f => ∃ rest, items = ts.map .ok ++ .error f :: rest

theorem leads_ofText (source : String) :
    Leads (scan source) (Stream.ofText source).ahead (Stream.ofText source).fault := by
  obtain ⟨hnone, heq⟩ | ⟨f, rest, hsome, heq⟩ := upToFault_spec (scan source)
  · rw [show (Stream.ofText source).fault = none from hnone]
    exact heq
  · rw [show (Stream.ofText source).fault = some f from hsome]
    exact ⟨rest, heq⟩

theorem Leads.fits {source : String} {ts : List Token} {fault : Option ScanError}
    (h : Leads (scan source) ts fault) :
    (∀ t ∈ ts, Fits source.toList (.ok t)) ∧ ∀ f, fault = some f → Fits source.toList (.error f) := by
  have hfits : ∀ i ∈ scan source, Fits source.toList i :=
    fun i hi => ((tokenisation_scan source).fits i hi).2
  cases fault with
  | none =>
      change scan source = _ at h
      rw [h] at hfits
      refine ⟨fun t ht => hfits _ (List.mem_map_of_mem ht), ?_⟩
      intro f hf
      cases hf
  | some f =>
      obtain ⟨rest, hrest⟩ := h
      rw [hrest] at hfits
      refine ⟨fun t ht => hfits _ (List.mem_append_left _ (List.mem_map_of_mem ht)), ?_⟩
      rintro f ⟨⟩
      exact hfits _ (List.mem_append_right _ List.mem_cons_self)

/-- The place behind an item lies in the text, too. -/
theorem liesIn_behind {source : List Char} {i : Item} (h : Fits source i) :
    ((itemPlace i).after (itemLexeme i).toList).LiesIn source ∧
      ((itemPlace i).after (itemLexeme i).toList).offset = itemStop i := by
  have hle : itemStart i ≤ itemStop i := Nat.le_add_right _ _
  have htext : source.take (itemStart i) ++ source.extract (itemStart i) (itemStop i) =
      source.take (itemStop i) := by
    rw [List.extract_eq_take_drop, ← List.take_add, Nat.add_sub_cancel' hle]
  have hplace : (itemPlace i).after (itemLexeme i).toList =
      Place.origin.after (source.take (itemStop i)) := by
    rw [h.text, ← htext, Place.after_append]
    exact congrArg (Place.after · _) h.place.eq_after
  constructor
  · have hlies := Place.liesIn_after (source.take (itemStop i)) (source.drop (itemStop i))
    rw [List.take_append_drop] at hlies
    exact hplace ▸ hlies
  · rw [hplace, Place.offset_after_origin, List.length_take_of_le h.inside]

/-- Without a fault reading stops at the end of the text. -/
theorem stop_ofText {source : String} (h : (Stream.ofText source).fault = none) :
    (Stream.ofText source).stop.LiesIn source.toList ∧
    (Stream.ofText source).stop.offset = source.toList.length := by
  have hpulls := Cursor.pulls_drain (.ofText source)
  have hsound := hpulls.reaches.sound (Cursor.sound_ofChars source.toList)
  have hstop : (Stream.ofText source).stop = (Cursor.ofText source).drain.2.here := by
    unfold Stream.ofText at h ⊢
    dsimp only at h ⊢
    rw [h]
  rw [hstop]
  exact ⟨hsound.placed.here, hsound.offset_eq_length hpulls.rest_eq_nil⟩

/-- With a fault it stops behind that. -/
theorem stop_ofText_fault {source : String} {f : ScanError}
    (h : (Stream.ofText source).fault = some f) :
    (Stream.ofText source).stop.LiesIn source.toList ∧
    (Stream.ofText source).stop.offset = itemStop (.error f) := by
  have hstop : (Stream.ofText source).stop = f.place.after f.lexeme.toList := by
    unfold Stream.ofText at h ⊢
    dsimp only at h ⊢
    rw [h]
  rw [hstop]
  exact liesIn_behind ((leads_ofText source).fits.2 f h)

/-- The stream of a text with these tokens and this fault, of which the first `k` tokens are
consumed. -/
structure Abides (source : String) (ts : List Token) (fault : Option ScanError) (k : Nat)
    (s : Stream) : Prop where
  le : k ≤ ts.length
  consumed : Consumes (.ofText source) (ts.take k) s
  /-- The tokens that are not pulled are the others. -/
  ahead : pulled (ts.take k) s ++ s.ahead = ts
  buffer : s.buffered = none ∨ (∃ t, ts[k]? = some t ∧ s.buffered = some t) ∨
    (k = ts.length ∧ ∃ t, s.buffered = some t ∧ t.isEnd = true)
  here : s.here.LiesIn source.toList
  /-- Reading has come to the end of the last token pulled, of the text, or of the fault. -/
  reached : s.here.offset = ((pulled (ts.take k) s).getLast?.map fun t => itemStop (.ok t)).getD 0 ∨
    (fault = none ∧ s.here.offset = source.length ∧ ∃ t, s.buffered = some t ∧ t.isEnd = true) ∨
    ∃ f, fault = some f ∧ s.fault = none ∧ s.here.offset = itemStop (.error f)

/-- The place behind the first tokens of a text. -/
theorem behind_spec {source : String} {ts : List Token} (h : ∀ t ∈ ts, Fits source.toList (.ok t)) :
    (behind ts).LiesIn source.toList ∧
      (behind ts).offset = (ts.getLast?.map fun t => itemStop (.ok t)).getD 0 := by
  unfold behind
  cases hlast : ts.getLast? with
  | none => exact ⟨Place.liesIn_after [] source.toList, rfl⟩
  | some t => exact liesIn_behind (h t (List.mem_of_getLast? hlast))

/-- Where a stream stands tells what holds of it. -/
theorem abides_of_consumes {source : String} {us : List Token} {s : Stream}
    (h : Consumes (.ofText source) us s) :
    Abides source (Stream.ofText source).ahead (Stream.ofText source).fault us.length s := by
  obtain ⟨hus, hstanding⟩ := standing_of_consumes rfl rfl h
  have hproper : ∀ t ∈ (Stream.ofText source).ahead, t.isEnd = false :=
    fun t ht => (genuine_of_mem_ofText ht).isEnd_eq_false
  have hbehind (n : Nat) := behind_spec fun t (ht : t ∈ (Stream.ofText source).ahead.take n) =>
    (leads_ofText source).fits.1 t (List.mem_of_mem_take ht)
  have hahead := hstanding.ahead hproper
  rw [hus] at h
  generalize us.length = k at h hstanding hahead
  clear hus
  -- Until the last token is pulled, the place is behind the tokens; later it is where reading stops.
  cases hstanding with
  | unread hk =>
      refine ⟨hk, h, hahead, .inl rfl, (hbehind k).1, .inl ?_⟩
      rw [pulled_of_none rfl]
      exact (hbehind k).2
  | @held _ t ht =>
      obtain ⟨hlt, -⟩ := List.getElem?_eq_some_iff.mp ht
      refine ⟨Nat.le_of_lt hlt, h, hahead, .inr (.inl ⟨t, ht, rfl⟩), (hbehind (k + 1)).1, .inl ?_⟩
      rw [pulled_of_buffered rfl ht (hproper t (List.mem_of_getElem? ht))]
      exact (hbehind (k + 1)).2
  | @failed f hf =>
      obtain ⟨hlies, hoffset⟩ := stop_ofText_fault hf
      exact ⟨Nat.le_refl _, h, hahead, .inl rfl, hlies, .inr (.inr ⟨f, hf, rfl, hoffset⟩)⟩
  | ended =>
      have hbuffer : ∃ t : Token, some ⟨.endOfInput, (Stream.ofText source).stop, ""⟩ = some t ∧
          t.isEnd = true :=
        ⟨_, rfl, rfl⟩
      cases hf : (Stream.ofText source).fault with
      | none =>
          obtain ⟨hlies, hoffset⟩ := stop_ofText hf
          exact ⟨Nat.le_refl _, h, hahead, .inr (.inr ⟨rfl, hbuffer⟩), hlies,
            .inr (.inl ⟨rfl, hoffset, hbuffer⟩)⟩
      | some f =>
          obtain ⟨hlies, hoffset⟩ := stop_ofText_fault hf
          exact ⟨Nat.le_refl _, h, hahead, .inr (.inr ⟨rfl, hbuffer⟩), hlies,
            .inr (.inr ⟨f, rfl, rfl, hoffset⟩)⟩

/-- What a call does to a stream of which the first `k` tokens are consumed, and `k'` afterwards. -/
structure Serves (ts : List Token) (k k' : Nat) (s : Stream) (c : Call) : Prop where
  le : k ≤ k'
  consumes : Consumes s (ts.extract k k') (c.run s).2
  /-- A call that fails to see or to take a token consumes nothing. -/
  fails : c.Fails (c.run s).1 → k' = k
  /-- A call that takes a token takes the next one. -/
  takes : ∀ t, c.Takes (c.run s).1 t → ts[k]? = some t ∧ k' = k + 1

theorem extract_take {ts us vs : List Token} (h : us ++ vs = ts.take (us ++ vs).length) :
    ts.extract us.length (us ++ vs).length = vs := by
  rw [List.extract_eq_take_drop, ← List.drop_take, ← h, List.drop_left]

theorem not_fails_of_takes {c : Call} {r : Except Error Answer} {t : Token} (h : c.Takes r t) :
    ¬ c.Fails r := by
  cases c with
  | expect kind note =>
      rintro ⟨e, rfl⟩
      cases h.1
  | advance => exact id
  | peek | check _ | accept _ | program _ | wholeExpression _ | statement _ | declaration _
  | atTier _ _ | unary _ | primary _ => exact h.elim

theorem takes_unique {c : Call} {r : Except Error Answer} {t u : Token} (h : c.Takes r t)
    (h' : c.Takes r u) : t = u := by
  cases c with
  | advance | expect _ _ =>
      cases h.1.symm.trans h'.1
      rfl
  | peek | check _ | accept _ | program _ | wholeExpression _ | statement _ | declaration _
  | atTier _ _ | unary _ | primary _ => exact h.elim

/-- What a call consumes of the stream, as far as its answer tells. -/
theorem consumes_told (c : Call) (s : Stream) :
    ∃ us, Consumes s us (c.run s).2 ∧ (c.Fails (c.run s).1 → us = []) ∧
    ∀ t, c.Takes (c.run s).1 t → us = [t] := by
  by_cases htakes : ∃ t, c.Takes (c.run s).1 t
  · obtain ⟨t, ht⟩ := htakes
    refine ⟨[t], consumes_taken ht, fun h => absurd h (not_fails_of_takes ht), ?_⟩
    intro u hu
    rw [takes_unique hu ht]
  by_cases hfails : c.Fails (c.run s).1
  · exact ⟨[], consumes_nothing hfails, fun _ => rfl, fun t ht => absurd ⟨t, ht⟩ htakes⟩
  · obtain ⟨us, hus⟩ := (consumes_call c s).1
    exact ⟨us, hus, fun h => absurd h hfails, fun t ht => absurd ⟨t, ht⟩ htakes⟩

theorem serves_of_consumes {source : String} {us vs : List Token} {s : Stream} {c : Call}
    (hus : Consumes (.ofText source) us s) (hvs : Consumes s vs (c.run s).2)
    (hfails : c.Fails (c.run s).1 → vs = []) (htakes : ∀ t, c.Takes (c.run s).1 t → vs = [t]) :
    Serves (Stream.ofText source).ahead us.length (us ++ vs).length s c := by
  -- What was consumed before and what the call consumes are together what the tokens begin with.
  have hwhole := (standing_of_consumes rfl rfl (hus.trans hvs)).1
  refine ⟨?_, ?_, ?_, ?_⟩
  · rw [List.length_append]
    exact Nat.le_add_right _ _
  · rw [extract_take hwhole]
    exact hvs
  · intro h
    rw [hfails h, List.append_nil]
  · intro t ht
    obtain rfl := htakes t ht
    refine ⟨?_, by rw [List.length_append, List.length_singleton]⟩
    have hnext : ((Stream.ofText source).ahead.take (us ++ [t]).length)[us.length]? = some t := by
      rw [← hwhole, List.getElem?_concat_length]
    rwa [List.getElem?_take_of_lt (by simp)] at hnext

/-- Whatever parsers are called on the stream of a text, in any order and whether or not they fail,
its tokens are consumed one by one in the order of the text. The end of input stays in the buffer
for ever, and the fault is told at most once. -/
theorem stream_abides (source : String) : ∃ ts fault, Leads (scan source) ts fault ∧ ∀ calls,
    ∃ k, Abides source ts fault k ((Stream.ofText source).after calls) ∧
      (∀ c, ∃ k', Abides source ts fault k' (c.run ((Stream.ofText source).after calls)).2 ∧
        Serves ts k k' ((Stream.ofText source).after calls) c) ∧
      (∀ t, ((Stream.ofText source).after calls).buffered = some t → t.isEnd = true → ∀ more,
        ((Stream.ofText source).after calls).after more = (Stream.ofText source).after calls) ∧
      (((Stream.ofText source).answers calls).filterMap told?).Sublist fault.toList := by
  refine ⟨_, _, leads_ofText source, fun calls => ?_⟩
  obtain ⟨us, hus⟩ := consumes_after (.ofText source) calls
  refine ⟨us.length, abides_of_consumes hus, ?_, ?_, told_sublist _ calls⟩
  · intro c
    obtain ⟨vs, hvs, hfails, htakes⟩ := consumes_told c ((Stream.ofText source).after calls)
    exact ⟨_, abides_of_consumes (hus.trans hvs), serves_of_consumes hus hvs hfails htakes⟩
  · intro t ht hend more
    obtain ⟨vs, hvs⟩ := consumes_after ((Stream.ofText source).after calls) more
    exact hvs.eq_of_isEnd ht hend

end Lox.Descent
