import Lox.Proofs.Program.Entries
import Lox.Proofs.Session.Independence
/-!
# `Session.Shadowing` — the accepted entries that are taken for commands

A line whose first visible character is a slash is taken for a command before any front end sees it.
No expression and no statement begins with that sign, so of the texts that a front end accepts only
those are lost that begin with a comment (`commands_shadow_comments_only`); there is no command of
such a name, and they are complained of.

What counts as a blank when a line is looked at for a command is more than what the front ends skip.
The characters that make the difference are faults, and a text with such a fault at its beginning is
not accepted (`itemsFrom_trimStart`).
-/
namespace Lox

open Grammar Parity

/-! ## Trimming -/

namespace Text

/-- Trimming takes nothing off a piece at the start of a text that begins and ends with something
visible. -/
theorem trim_of_trimStart {cs w rest : List Char} {c : Char} (h : trimStart cs = w ++ c :: rest)
    (hc : isBlank c = false) : ∃ rest', trim cs = w ++ c :: rest' := by
  have hback : trimStart (w ++ c :: rest).reverse = trimStart rest.reverse ++ c :: w.reverse := by
    have hkept : trimStart (c :: w.reverse) = c :: w.reverse :=
      List.dropWhile_cons_of_neg (by simp [hc])
    have htext : (w ++ c :: rest).reverse = rest.reverse ++ c :: w.reverse := by simp
    rw [htext]
    unfold trimStart at hkept ⊢
    rw [List.dropWhile_append, hkept]
    split
    · rename_i hempty
      rw [List.isEmpty_iff.mp hempty, List.nil_append]
    · rfl
  refine ⟨(trimStart rest.reverse).reverse, ?_⟩
  rw [trim, h, hback]
  simp

/-- Trimming leaves the first visible character where it is. -/
theorem head?_trim (cs : List Char) : (trim cs).head? = (trimStart cs).head? := by
  cases hstart : trimStart cs with
  | nil =>
      rw [trim, hstart]
      rfl
  | cons c rest =>
      have hc := List.head?_dropWhile_not isBlank cs
      rw [show cs.dropWhile isBlank = c :: rest from hstart] at hc
      obtain ⟨rest', htrim⟩ := trim_of_trimStart (w := []) hstart (by simpa using hc)
      rw [htrim]
      rfl

theorem trimStart_of_trim {cs : List Char} (h : trim cs = []) : trimStart cs = [] := by
  rw [← List.head?_eq_none_iff, ← head?_trim, h]
  rfl

end Text

/-- Blanks aside, the text begins with a comment. -/
def BeginsWithComment (cs : List Char) : Prop := ['/', '/'] <+: Text.trimStart cs

instance (cs : List Char) : Decidable (BeginsWithComment cs) := inferInstanceAs (Decidable (_ <+: _))

/-! ## Blanks at the start of a text -/

theorem isBlank_eq_false_of_head {w : List Char} {c : Char} (h : LexemeText w) (hc : w.head? = some c) :
    Text.isBlank c = false := by
  have hcode : (33 ≤ c.toNat ∧ c.toNat ≤ 126) → Text.isBlank c = false := by
    intro hcode
    rw [← Bool.not_eq_true]
    simp only [Text.isBlank, Bool.and_eq_true, Bool.or_eq_true, decide_eq_true_eq, beq_iff_eq]
    omega
  cases h with
  | string h =>
      obtain ⟨body, -, rfl⟩ := h
      cases hc
      rfl
  | number h =>
      obtain ⟨d, ds, rfl, hd⟩ := h.head
      cases hc
      have := isDigit_iff.mp hd
      exact hcode (by omega)
  | name h =>
      cases h with
      | @intro d ds hd _ =>
          cases hc
          apply hcode
          simp only [isNameStart, Char.isAlpha, Char.isUpper, Char.isLower, Bool.or_eq_true,
            Bool.and_eq_true,
            decide_eq_true_eq, beq_iff_eq, UInt32.le_iff_toNat_le, ge_iff_le] at hd
          change ((65 ≤ c.toNat ∧ c.toNat ≤ 90) ∨ (97 ≤ c.toNat ∧ c.toNat ≤ 122)) ∨ c = '_' at hd
          rcases hd with (hd | hd) | rfl
          · omega
          · omega
          · decide
  | sign h =>
      obtain ⟨m, hm, rfl⟩ := h
      have hheads : ∀ m ∈ Mark.signs, m.spelling.toList.head?.all (fun c => !Text.isBlank c) =
          true := by decide
      simpa [hc] using hheads m hm

/-- A blank that is no layout is a fault by itself. -/
theorem itemsFrom_fault {c : Char} (hblank : Text.isBlank c = true)
    (hlayout : isLayoutBlank c = false) (cs : List Char) (p : Place) : itemsFrom (c :: cs) p =
      .error ⟨.unexpected (some c), p, String.ofList [c]⟩ :: itemsFrom cs (p.step c) := by
  have hlexeme : lexemeAt (c :: cs) = (.error (.unexpected (some c)), 1) := by
    apply lexemeAt_alien
    intro w hw hc
    rw [isBlank_eq_false_of_head hw hc] at hblank
    cases hblank
  have hlength : layoutLength false (c :: cs) = 0 := by
    refine layoutLength_eq_zero.mpr ⟨hlayout, ?_⟩
    rw [← Bool.not_eq_true]
    intro hcomment
    obtain ⟨rfl, -⟩ := List.cons_prefix_cons.mp (List.isPrefixOf_iff_prefix.mp hcomment)
    cases hblank
  rw [itemsFrom_lexeme (List.cons_ne_nil c cs) hlength, hlexeme]
  rfl

/-- The blanks at the start of a text are skipped, or are faults. -/
theorem itemsFrom_trimStart (cs : List Char) (p : Place) : ∃ (faults : List ScanError) (q : Place),
    itemsFrom cs p = faults.map .error ++ itemsFrom (Text.trimStart cs) q ∧
      ∀ e ∈ faults, ∃ c, e.cause = .unexpected c := by
  induction cs generalizing p with
  | nil => exact ⟨[], p, rfl, List.forall_mem_nil _⟩
  | cons c cs ih =>
      cases hblank : Text.isBlank c with
      | false =>
          have htrim : Text.trimStart (c :: cs) = c :: cs :=
            List.dropWhile_cons_of_neg (by simp [hblank])
          exact ⟨[], p, by rw [htrim]; rfl, List.forall_mem_nil _⟩
      | true =>
          obtain ⟨faults, q, hitems, hfaults⟩ := ih (p.step c)
          have htrim : Text.trimStart (c :: cs) = Text.trimStart cs := List.dropWhile_cons_of_pos hblank
          rw [htrim]
          cases hlayout : isLayoutBlank c with
          | true => exact ⟨faults, q, by rw [itemsFrom_blank hlayout, hitems], hfaults⟩
          | false =>
              refine ⟨⟨.unexpected (some c), p, String.ofList [c]⟩ :: faults, q, ?_, ?_⟩
              · rw [itemsFrom_fault hblank hlayout, hitems]
                rfl
              · exact List.forall_mem_cons.mpr ⟨⟨_, rfl⟩, hfaults⟩

/-- A slash that does not begin a comment is a token. -/
theorem itemsFrom_slash {cs : List Char} (h : cs.head? ≠ some '/') (p : Place) : ∃ t items,
    itemsFrom ('/' :: cs) p = .ok t :: items ∧ t.kind = .mark .slash := by
  have hlength : layoutLength false ('/' :: cs) = 0 := by
    refine layoutLength_eq_zero.mpr ⟨rfl, ?_⟩
    cases cs with
    | nil => rfl
    | cons c cs =>
        have hc : '/' ≠ c := fun hc => h (congrArg some hc.symm)
        simp [List.isPrefixOf, hc]
  have hsign : Mark.signAt? ('/' :: cs) = some .slash := rfl
  have hlexeme : lexemeAt ('/' :: cs) = (.ok (.mark .slash), 1) := by
    rw [lexemeAt_other (by decide) (by decide) (by decide), hsign]
    rfl
  rw [itemsFrom_lexeme (List.cons_ne_nil _ _) hlength, hlexeme]
  exact ⟨_, _, rfl, rfl⟩

/-! ## Accepted texts -/

namespace FrontEnd

/-- The front end accepts the text, as an expression or as a program. -/
def Accepts (f : FrontEnd) (s : String) : Prop :=
  (∃ e, f.parseExpr s = .ok e) ∨ ∃ p, f.parseProgram s = .ok p

/-- What is accepted is all terminals, which the reader shifts from one of its two beginnings. -/
theorem Accepts.terminals {f : FrontEnd} {s : String} (h : f.Accepts s) :
    ∃ ts r, f.terminals? s = some ts ∧
    (Reader.forExpr.shiftAll ts = .ok r ∨ Reader.forProgram.shiftAll ts = .ok r) := by
  obtain ⟨e, he⟩ | ⟨p, hp⟩ := h
  · obtain ⟨a, ⟨ts, r, hts, hrun, -⟩, -⟩ := derives_of_parse ((f.parseExpr_eq s).symm.trans he)
    exact ⟨ts, r, hts, .inl hrun⟩
  · obtain ⟨a, ⟨ts, r, hts, hrun, -⟩, -⟩ := derives_of_parse ((f.parseProgram_eq s).symm.trans hp)
    exact ⟨ts, r, hts, .inr hrun⟩

/-- Faults of characters at the start of a text that is all terminals anyway are
blanks to the front end. -/
theorem terminals?_of_faults {f : FrontEnd} {s : String} {faults : List ScanError}
    {items : List Item} {ts : List Terminal} (hscan : scan s = faults.map .error ++ items)
    (hfaults : ∀ e ∈ faults, ∃ c, e.cause = .unexpected c) (hts : f.terminals? s = some ts) :
    (items = [] → ts = []) ∧
      ∀ t more, items = .ok t :: more → kindHasTerminal t.kind = true →
      ∃ us, ts = t.terminal :: us := by
  cases f with
  | descent =>
      obtain ⟨hfault, hts⟩ := Option.ite_none_right_eq_some.mp hts
      have hnone : (Descent.Stream.upToFault (scan s)).2 = none := hfault
      have hahead : ts = (Descent.Stream.upToFault (scan s)).1.map Token.terminal :=
        (Option.some.inj hts).symm
      -- Descent has no fault at all.
      obtain rfl : faults = [] := by
        cases faults with
        | nil => rfl
        | cons e faults =>
            rw [hscan] at hnone
            cases hnone
      rw [hahead, hscan]
      refine ⟨?_, ?_⟩
      · rintro rfl
        rfl
      · rintro t more rfl -
        exact ⟨_, rfl⟩
  | grammar =>
      obtain ⟨hstuck, hts⟩ := Option.ite_none_right_eq_some.mp hts
      rw [divide_eq_terminalsOf, ← scan_eq, hscan] at hstuck hts
      -- A fault at which the grammar is not stuck is a form feed.
      have hskip : ∀ faults : List ScanError, (∀ e ∈ faults, ∃ c, e.cause = .unexpected c) →
          (terminalsOf (faults.map .error ++ items)).stuck = none →
          terminalsOf (faults.map .error ++ items) = terminalsOf items := by
        intro faults hfaults hstuck
        induction faults with
        | nil => rfl
        | cons e faults ih =>
            obtain ⟨⟨c, hcause⟩, hmore⟩ := List.forall_mem_cons.mp hfaults
            rw [List.map_cons, List.cons_append, terminalsOf] at hstuck ⊢
            simp only [seenAs, hcause] at hstuck ⊢
            split at hstuck
            · rename_i hfeed
              rw [if_pos hfeed]
              exact ih hmore hstuck
            · cases hstuck
      rw [hskip faults hfaults hstuck] at hts
      refine ⟨?_, ?_⟩
      · rintro rfl
        exact (Option.some.inj hts).symm
      · rintro t more rfl hterminal
        refine ⟨(terminalsOf more).list, ?_⟩
        rw [← Option.some.inj hts, terminalsOf]
        simp only [seenAs, if_pos hterminal]
        rfl

/-- Neither an expression nor a program begins with a slash. -/
theorem not_shift_slash {t : Terminal} (h : t.kind = .mark .slash) :
    Reader.forExpr.shift t = none ∧ Reader.forProgram.shift t = none := by
  have hoperand : ∀ purpose, shiftOperand purpose [] t = none := by
    intro purpose
    simp [shiftOperand, Terminal.phrase?, h, Kind.unaryOp?]
  simp [Reader.shift, Reader.forExpr, Reader.forProgram, h, hoperand]

/-- If the first visible character of an accepted text is a slash, it begins a comment. -/
theorem Accepts.beginsWithComment {f : FrontEnd} {s : String} (h : f.Accepts s) {rest : List Char}
    (hslash : Text.trimStart s.toList = '/' :: rest) : BeginsWithComment s.toList := by
  by_cases hrest : rest.head? = some '/'
  · obtain ⟨more, rfl⟩ := List.head?_eq_some_iff.mp hrest
    exact ⟨more, hslash.symm⟩
  · exfalso
    obtain ⟨faults, q, hitems, hfaults⟩ := itemsFrom_trimStart s.toList .origin
    rw [← scan_eq, hslash] at hitems
    obtain ⟨t, more, hmore, ht⟩ := itemsFrom_slash hrest q
    obtain ⟨ts, r, hts, hrun⟩ := h.terminals
    obtain ⟨us, rfl⟩ := (terminals?_of_faults hitems hfaults hts).2 t more hmore (by rw [ht]; rfl)
    obtain ⟨hexpr, hprogram⟩ := not_shift_slash (t := t.terminal) ht
    rcases hrun with hrun | hrun
    · rw [Reader.shiftAll, hexpr] at hrun
      cases hrun
    · rw [Reader.shiftAll, hprogram] at hrun
      cases hrun

/-- An accepted text of blanks is the empty program. -/
theorem Accepts.blank {f : FrontEnd} {s : String} (h : f.Accepts s)
    (hblank : Text.trimStart s.toList = []) :
    (∃ err, f.parseExpr s = .error err) ∧ f.parseProgram s = .ok [] := by
  obtain ⟨faults, q, hitems, hfaults⟩ := itemsFrom_trimStart s.toList .origin
  rw [← scan_eq, hblank, itemsFrom_nil] at hitems
  have hnil : ∀ ts, f.terminals? s = some ts → ts = [] :=
    fun ts hts => (terminals?_of_faults hitems hfaults hts).1 rfl
  obtain ⟨e, he⟩ | ⟨p, hp⟩ := h
  · -- Without terminals there is no expression.
    obtain ⟨a, ⟨ts, r, hts, hrun, ha⟩, -⟩ := derives_of_parse ((f.parseExpr_eq s).symm.trans he)
    obtain rfl := hnil ts hts
    cases hrun
    cases ha
  · have hexpr : ∀ e, f.parseExpr s ≠ .ok e := fun e he => not_both he hp
    obtain ⟨a, ⟨ts, r, hts, hrun, ha⟩, hvalue⟩ := derives_of_parse ((f.parseProgram_eq s).symm.trans hp)
    obtain rfl := hnil ts hts
    cases hrun
    cases ha
    cases hvalue
    refine ⟨?_, hp⟩
    cases hresult : f.parseExpr s with
    | error err => exact ⟨err, rfl⟩
    | ok e => exact absurd hresult (hexpr e)

end FrontEnd

/-! ## Entries and commands -/

namespace Session

/-- Handling the empty program does nothing. -/
theorem enter_of_empty {s : Session} {entry : String} {err : SourceError}
    (hexpr : s.frontEnd.parseExpr entry = .error err)
    (hprogram : s.frontEnd.parseProgram entry = .ok []) : s.enter entry = .none := by
  unfold enter
  split
  · rw [showTrees, entryTrees, hexpr, hprogram]
    rfl
  · rw [evaluateEntry, answer, hexpr, run_eq hprogram]
    rfl

theorem splitCommand?_comment {line : List Char} (h : BeginsWithComment line) : ∃ word argument,
    splitCommand? line = some (String.ofList word, argument) ∧ ['/', '/'] <+: word := by
  obtain ⟨rest, hrest⟩ := h
  obtain ⟨rest', htrim⟩ := Text.trim_of_trimStart (w := ['/']) hrest.symm rfl
  have hword : (Text.firstWord ('/' :: '/' :: rest')).1 =
      '/' :: '/' :: rest'.takeWhile (!Text.isBlank ·) := by
    rw [Text.firstWord, List.takeWhile_cons_of_pos rfl, List.takeWhile_cons_of_pos rfl]
  refine ⟨(Text.firstWord ('/' :: '/' :: rest')).1, (Text.firstWord ('/' :: '/' :: rest')).2, ?_, ?_⟩
  · rw [splitCommand?, htrim]
    rfl
  · rw [hword]
    exact List.prefix_append ['/', '/'] _

/-- No command has the name of a comment. -/
theorem command_name_ne {word : List Char} (h : ['/', '/'] <+: word) (c : Command) :
    c.name ≠ String.ofList word := by
  intro hname
  have hslash : ¬ ['/', '/'] <+: c.name.toList := by cases c <;> decide
  rw [hname, String.toList_ofList] at hslash
  exact hslash h

/-- What begins with a comment is a command that there is not. -/
theorem command?_comment {line : String} (h : BeginsWithComment line.toList) (w : Switches) :
    ∃ word, ['/', '/'] <+: word ∧
    w.command? line = some (.warn ("Unknown command: " ++ String.ofList word), w) := by
  obtain ⟨word, argument, hsplit, hword⟩ := splitCommand?_comment h
  refine ⟨word, hword, ?_⟩
  rw [Switches.command?, hsplit]
  simp only [ofName?_eq_none (command_name_ne hword)]

/-- Blanks aside, an accepted text that does not begin with a comment does not begin with a
slash. -/
theorem command?_accepted {f : FrontEnd} {entry : String} (h : f.Accepts entry)
    (hcomment : ¬BeginsWithComment entry.toList) (w : Switches) : w.command? entry = none := by
  have hhead : (Text.trim entry.toList).head? ≠ some '/' := by
    intro hslash
    rw [Text.head?_trim] at hslash
    obtain ⟨rest, hrest⟩ := List.head?_eq_some_iff.mp hslash
    exact hcomment (h.beginsWithComment hrest)
  rw [Switches.command?, splitCommand?_eq_none hhead]

/-- Of the entries that the front end accepts, exactly those that begin with a comment are taken for
commands. All others are handled as entries and leave the session as it was; these are complained of
as commands that there are not. -/
theorem commands_shadow_comments_only (s : Session) (text : String)
    (h : s.frontEnd.Accepts (normalize text)) :
    (s.switches.command? (normalize text) = none ↔ ¬BeginsWithComment (normalize text).toList) ∧
    (¬BeginsWithComment (normalize text).toList → s.step (.line text) = (s.enter (normalize text), s)) ∧
    (BeginsWithComment (normalize text).toList → ∃ word, ['/', '/'] <+: word ∧
      s.step (.line text) = (.warn ("Unknown command: " ++ String.ofList word), s)) := by
  refine ⟨⟨?_, ?_⟩, ?_, ?_⟩
  · intro hnone hcomment
    obtain ⟨word, -, hcommand⟩ := command?_comment hcomment s.switches
    cases hnone.symm.trans hcommand
  · exact fun hcomment => command?_accepted h hcomment s.switches
  · intro hcomment
    by_cases hblank : Text.trim (normalize text).toList = []
    · -- A line of blanks is dropped, which is what handling it comes to.
      obtain ⟨⟨err, hexpr⟩, hprogram⟩ := h.blank (Text.trimStart_of_trim hblank)
      rw [enter_of_empty hexpr hprogram]
      simp [step, Switches.turn, hblank]
    · simp [step, Switches.turn, hblank, command?_accepted h hcomment]
  · intro hcomment
    obtain ⟨word, hword, hcommand⟩ := command?_comment hcomment s.switches
    refine ⟨word, hword, ?_⟩
    have hvisible : Text.trim (normalize text).toList ≠ [] := by
      intro hblank
      rw [BeginsWithComment, Text.trimStart_of_trim hblank] at hcomment
      simp at hcomment
    simp [step, Switches.turn, hvisible, hcommand]

/-- Neither a form feed before an entry nor a comment behind it makes it a command. -/
theorem commands_shadow_comments_only_form_feed :
    FrontEnd.grammar.Accepts (normalize "\x0c! nil\r // c") ∧
    ¬BeginsWithComment (normalize "\x0c! nil\r // c").toList ∧
    (mk .grammar ⟨true, false⟩).step (.line "\x0c! nil\r // c") =
    (.say "(! nil)", mk .grammar ⟨true, false⟩) := by
  have hentry : normalize "\x0c! nil\r // c" = "\x0c! nil // c" := by decide
  have htree : FrontEnd.grammar.parseExpr "\x0c! nil // c" = .ok (.unary .not (.literal .nil)) := by cbv
  have haccepts : FrontEnd.grammar.Accepts (normalize "\x0c! nil\r // c") :=
    .inl ⟨_, by rw [hentry, htree]⟩
  have hcomment : ¬BeginsWithComment (normalize "\x0c! nil\r // c").toList := by decide
  have henter : (mk .grammar ⟨true, false⟩).enter "\x0c! nil // c" = .say "(! nil)" := by
    rw [enter, if_pos rfl, showTrees, entryTrees, htree]
    rfl
  refine ⟨haccepts, hcomment, ?_⟩
  rw [(commands_shadow_comments_only (mk .grammar ⟨true, false⟩) "\x0c! nil\r // c" haccepts).2.1
    hcomment, hentry, henter]

/-- A comment alone is the empty program to both front ends, and still it is taken for a command. -/
theorem comment_taken_for_command : FrontEnd.descent.Accepts (normalize "// nothing") ∧
    FrontEnd.grammar.Accepts (normalize "// nothing") ∧
    Switches.command? ⟨false, false⟩ (normalize "// nothing") =
    some (.warn "Unknown command: //", ⟨false, false⟩) := by
  have hentry : normalize "// nothing" = "// nothing" := by decide
  have hdescent : FrontEnd.descent.parseProgram "// nothing" = .ok [] := by cbv
  have hgrammar : FrontEnd.grammar.parseProgram "// nothing" = .ok [] := by cbv
  rw [hentry]
  exact ⟨.inr ⟨_, hdescent⟩, .inr ⟨_, hgrammar⟩, by decide⟩

end Session
end Lox
