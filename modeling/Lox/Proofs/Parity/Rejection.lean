import Lox.Proofs.Parity.Acceptance
/-!
# `Parity.Rejection` — what the two front ends reject

The grammar ought to reject whatever descent rejects. One character comes between the two: a form
feed outside of strings and comments is a fault to descent and a blank to the grammar. Nothing else
does (`rejection_law`), so the law holds of every text in which no form feed is reported, and of
every text at all if spaces are written for the form feeds before descent reads it.

The proof goes from a text that the grammar makes a tree of to what descent makes of it. The grammar
is not stuck anywhere in such a text, and all its numbers are finite, so that a form feed is the
only fault that descent can meet there.
-/
namespace Lox

variable {α β : Type}

/-- Want of room aside, the grammar rejects what descent rejects. -/
def RejectsToo (made : Except Grammar.Error β) (read : Except Descent.Error β) : Prop :=
  ∀ e, read = .error e → ¬e.IsTooDeep → ∃ e', made = .error e'

/-- Where the law holds and where it does not. Here `made` is what the grammar makes of a
text and `read` what descent makes of it, and `spaced` is what descent makes of the text
with spaces for its form feeds. -/
structure RejectionLaw (s : String) (made : Except Grammar.Error β)
    (read spaced : Except Descent.Error β) : Prop where
  /-- It holds of a text in which no form feed is reported. -/
  without : (∀ item ∈ scan s, isFormFeed item = false) → RejectsToo made read
  /-- It holds of every text, once spaces are written for the form feeds. -/
  blanked : RejectsToo made spaced
  /-- It fails exactly if descent stops at a form feed in a text that the grammar makes a tree
  of. -/
  fails : ¬RejectsToo made read ↔
    ∃ f t, read = .error (.lexical f) ∧ isFormFeed (.error f) = true ∧ made = .ok t

namespace Parity

open Descent Grammar

/-! ## Terminals up to the first fault -/

/-- What the terminals of a text begin with if the grammar is not stuck in it: the tokens before the
first fault, and then, if there is a fault that is no form feed, the number that is at fault. -/
inductive Leading (tokens : List Token) (fault : Option ScanError) (ts : List Terminal) : Prop where
  | whole : fault = none → ts = tokens.map Token.terminal → Leading tokens fault ts
  | formFeed {f us} : fault = some f → isFormFeed (.error f) = true →
      ts = tokens.map Token.terminal ++ us →
      Leading tokens fault ts
  | number {f us} : fault = some f → f.cause = .invalidNumber →
      ts = tokens.map Token.terminal ++ ⟨.number, f.lexeme, f.place⟩ :: us → Leading tokens fault ts

theorem Leading.cons {tokens : List Token} {fault : Option ScanError} {ts : List Terminal} (t : Token)
    (h : Leading tokens fault ts) : Leading (t :: tokens) fault (t.terminal :: ts) := by
  cases h with
  | whole hfault hts => exact .whole hfault (congrArg (t.terminal :: ·) hts)
  | formFeed hfault hfeed hts => exact .formFeed hfault hfeed (congrArg (t.terminal :: ·) hts)
  | number hfault hcause hts => exact .number hfault hcause (congrArg (t.terminal :: ·) hts)

/-- A fault at which the grammar is not stuck. -/
theorem leading_fault {e : ScanError} {items : List Item}
    (h : (terminalsOf (.error e :: items)).stuck = none) :
    Leading [] (some e) (terminalsOf (.error e :: items)).list := by
  rw [terminalsOf] at h ⊢
  cases hcause : e.cause with
  | invalidNumber =>
      have hseen : seenAs (.error e) = .terminal ⟨.number, e.lexeme, e.place⟩ := by
        simp only [seenAs, hcause]
      rw [hseen]
      exact .number rfl hcause rfl
  | unterminatedString =>
      have hseen : seenAs (.error e) = .stuck (firstChar e.lexeme) e.place := by
        simp only [seenAs, hcause]
      rw [hseen] at h
      cases h
  | unexpected c =>
      by_cases hc : c = some '\x0c'
      · exact .formFeed rfl (decide_eq_true (hcause.trans (congrArg _ hc))) rfl
      · have hseen : seenAs (.error e) = .stuck (firstChar e.lexeme) e.place := by
          simp only [seenAs, hcause, if_neg hc]
        rw [hseen] at h
        cases h

theorem leading_terminalsOf {items : List Item} (h : (terminalsOf items).stuck = none) :
    Leading (Stream.upToFault items).1 (Stream.upToFault items).2 (terminalsOf items).list := by
  induction items with
  | nil => exact .whole rfl rfl
  | cons item items ih =>
      cases item with
      | error e => exact leading_fault h
      | ok t =>
          rw [terminalsOf] at h ⊢
          cases ht : kindHasTerminal t.kind with
          | true =>
              have hseen : seenAs (.ok t) = .terminal t.terminal := if_pos ht
              rw [hseen] at h ⊢
              exact (ih h).cons t
          | false =>
              have hseen : seenAs (.ok t) = .stuck (firstChar t.lexeme) t.place := if_neg (by simp [ht])
              rw [hseen] at h
              cases h

/-! ## Texts that the grammar makes a tree of -/

/-- Descent reads the same tree, unless there is not enough room or it stops at a form feed. -/
theorem Goal.descend_of_made (g : Goal α β) {s : String} {t : β} (ht : g.make s = .ok t) :
    g.descend s = .ok t ∨ TooDeep (g.descend s) ∨
      ∃ f, g.descend s = .error (.lexical f) ∧ isFormFeed (.error f) = true := by
  obtain ⟨e, he, -⟩ | ⟨r, a, hrun, hstuck, ha, hbuilt⟩ := g.make_cases s
  · cases ht.symm.trans he
  rw [ht] at hbuilt
  cases hbuilt with
  | ok hvalue hfinite =>
      cases leading_terminalsOf hstuck with
      | whole hfault hts =>
          have hfeed := not_isFormFeed_of_no_fault hfault
          exact (g.descend_of_make hfeed ht).imp_right .inl
      | formFeed hfault hfeed hts =>
          -- The reader shifts the tokens before the form feed, so descent comes to it unless it
          -- runs out of room.
          rw [hts] at hrun
          obtain ⟨q, hq, -⟩ := shiftAll_append_ok.mp hrun
          obtain hdeep | ⟨f', hf', hread⟩ | ⟨hnone, -⟩ := g.descend_of_run hq
          · exact .inr (.inl hdeep)
          · cases hfault.symm.trans hf'
            exact .inr (.inr ⟨_, hread, hfeed⟩)
          · cases hfault.symm.trans hnone
      | @number f us hfault hcause hts =>
          -- The number at fault is among those that were made, and all of these are finite.
          obtain ⟨hnone, -⟩ | ⟨f', rest, hf', hsplit⟩ := upToFault_spec (scan s)
          · cases hfault.symm.trans hnone
          cases hfault.symm.trans hf'
          have hmem : (⟨.number, f.lexeme, f.place⟩ : Terminal) ∈ g.numbers a := by
            rw [g.numbers_eq hrun ha, hts]
            exact List.mem_filter.mpr ⟨List.mem_append_right _ List.mem_cons_self, rfl⟩
          obtain ⟨e, he⟩ := hfinite _ hmem
          cases he.symm.trans (number_of_infinite (infinite_of_split hsplit hcause))

/-- A form feed at which descent stops is reported in the text. -/
theorem Goal.mem_scan_of_descend (g : Goal α β) {s : String} {f : ScanError}
    (h : g.descend s = .error (.lexical f)) :
    .error f ∈ scan s := by
  have hfault : (Stream.upToFault (scan s)).2 = some f := by
    cases g.rejects_of_read h with
    | lexical hf _ => exact hf
    | refused hblames _ _ => cases hblames.token
    | unfinished hblames _ _ _ _ => cases hblames.token
  obtain ⟨hnone, -⟩ | ⟨f', rest, hf', hsplit⟩ := upToFault_spec (scan s)
  · cases hfault.symm.trans hnone
  cases hfault.symm.trans hf'
  rw [hsplit]
  exact List.mem_append_right _ List.mem_cons_self

/-- What descent rejects and the grammar does not is rejected for a form feed. -/
theorem Goal.formFeed_of_rejected (g : Goal α β) {s : String} {e : Descent.Error} {t : β}
    (hread : g.descend s = .error e) (hroom : ¬e.IsTooDeep) (hmade : g.make s = .ok t) :
    ∃ f, e = .lexical f ∧ isFormFeed (.error f) = true := by
  obtain h | ⟨p, h⟩ | ⟨f, h, hfeed⟩ := g.descend_of_made hmade
  · cases hread.symm.trans h
  · exact absurd ⟨p, Except.error.inj (hread.symm.trans h)⟩ hroom
  · exact ⟨f, Except.error.inj (hread.symm.trans h), hfeed⟩

theorem Goal.rejectsToo (g : Goal α β) {s : String} (hfeed : ∀ item ∈ scan s, isFormFeed item = false) :
    RejectsToo (g.make s) (g.descend s) := by
  intro e hread hroom
  cases hmade : g.make s with
  | error e' => exact ⟨e', rfl⟩
  | ok t =>
      obtain ⟨f, rfl, hf⟩ := g.formFeed_of_rejected hread hroom hmade
      have hnone := hfeed _ (g.mem_scan_of_descend hread)
      cases hf.symm.trans hnone

theorem Goal.rejectionLaw (g : Goal α β) (s : String) :
    RejectionLaw s (g.make s) (g.descend s) (g.descend (blankFormFeeds s)) where
  without := g.rejectsToo
  blanked := by
    rw [← g.make_blankFormFeeds]
    exact g.rejectsToo (not_isFormFeed_blankFormFeeds s)
  fails := by
    constructor
    · intro hfails
      obtain ⟨e, hread, hroom, hmade⟩ : ∃ e, g.descend s = .error e ∧ ¬e.IsTooDeep ∧
          ¬∃ e', g.make s = .error e' := by
        simpa [RejectsToo] using hfails
      cases hmake : g.make s with
      | error e' => exact absurd ⟨e', hmake⟩ hmade
      | ok t =>
          obtain ⟨f, rfl, hf⟩ := g.formFeed_of_rejected hread hroom hmake
          exact ⟨f, t, hread, hf, rfl⟩
    · rintro ⟨f, t, hread, -, hmade⟩ hlaw
      obtain ⟨e', he'⟩ := hlaw _ hread (by rintro ⟨p, hp⟩; cases hp)
      cases hmade.symm.trans he'

end Parity

/-- The grammar rejects what descent rejects, for any reason but want of room, in every text in
which no form feed is reported, and in every text if descent is given spaces for the form feeds. It
fails to do so exactly where descent stops at a form feed in a text that the grammar makes a tree
of. This holds of programs and of single expressions. -/
theorem rejection_law (s : String) :
    RejectionLaw s (Grammar.parseProgram s) (Descent.parseProgram s)
      (Descent.parseProgram (blankFormFeeds s)) ∧
    RejectionLaw s (Grammar.parseExpr s) (Descent.parseExpr s) (Descent.parseExpr (blankFormFeeds s)) :=
  ⟨Parity.Goal.program.rejectionLaw s, Parity.Goal.expr.rejectionLaw s⟩

/-- Descent rejects a program with a form feed between two words, and the grammar accepts it. -/
theorem form_feed_accepted :
    ¬RejectsToo (Grammar.parseProgram "print\x0cx;") (Descent.parseProgram "print\x0cx;") ∧
    Descent.parseProgram "print\x0cx;" =
      .error (.lexical ⟨.unexpected (some '\x0c'), ⟨5, 1, 6⟩, "\x0c"⟩) ∧
    Grammar.parseProgram "print\x0cx;" = .ok [.print (.literal (.identifier "x"))] := by
  have hread : Descent.parseProgram "print\x0cx;" =
      .error (.lexical ⟨.unexpected (some '\x0c'), ⟨5, 1, 6⟩, "\x0c"⟩) := by cbv
  have hmade : Grammar.parseProgram "print\x0cx;" = .ok [.print (.literal (.identifier "x"))] := by cbv
  refine ⟨?_, hread, hmade⟩
  intro hlaw
  obtain ⟨e', he'⟩ := hlaw _ hread (by rintro ⟨p, hp⟩; cases hp)
  cases hmade.symm.trans he'

end Lox
