import Lox.Proofs.Grammar.Alone
import Lox.Proofs.Parity.Acceptance
import Lox.Proofs.Program.Concatenation
import Lox.Session
/-!
# `Program.Entries` — telling expressions from programs

An entry of a session may be an expression or a program, and never is both. It is an
expression exactly if a semicolon below it makes it a program of one expression
statement (`expressions_and_programs`). Both front ends are handled alike: what either
makes of a text is what its reader derives from the terminals of that text
(`FrontEnd.Derives`), up to the room that it takes.
-/
namespace Lox

open Grammar Parity

variable {α β : Type}

/-- The text was not accepted for want of room. -/
def TooDeep (x : Except SourceError α) : Prop := ∃ e, x = .error e ∧ e.tag = .tooDeep

namespace FrontEnd

/-! ## Derivations -/

/-- The terminals of a text that is all terminals. -/
def terminals? (f : FrontEnd) (s : String) : Option (List Terminal) :=
  match f with
  | descent =>
    if (Descent.Stream.ofText s).fault = none then
      some ((Descent.Stream.ofText s).ahead.map Token.terminal)
    else none
  | grammar =>
    if (divide s.toList .origin).stuck = none then some (divide s.toList .origin).list else none

/-- The reader is complete behind the terminals of the text. -/
def Derives (f : FrontEnd) (start : Reader) (complete? : Reader → Option α) (s : String) (a : α) :
    Prop :=
  ∃ ts r, f.terminals? s = some ts ∧ start.shiftAll ts = .ok r ∧ complete? r = some a

/-- What a front end makes of a text. -/
def parse (f : FrontEnd) (g : Goal α β) (s : String) : Except SourceError β :=
  match f with
  | descent => (g.descend s).mapError .descent
  | grammar => (g.make s).mapError .grammar

theorem parseProgram_eq (f : FrontEnd) (s : String) : f.parseProgram s = f.parse .program s := by
  cases f <;> rfl

theorem parseExpr_eq (f : FrontEnd) (s : String) : f.parseExpr s = f.parse .expr s := by
  cases f <;> rfl

/-- What is accepted is derived. -/
theorem derives_of_parse {f : FrontEnd} {g : Goal α β} {s : String} {b : β} (h : f.parse g s = .ok b) :
    ∃ a, f.Derives g.start g.complete? s a ∧ g.value? a = some b := by
  cases f with
  | descent =>
      obtain ⟨hfault, r, a, hrun, ha, hvalue⟩ := g.run_of_descend (ok_of_mapError h)
      exact ⟨a, ⟨_, r, if_pos hfault, hrun, ha⟩, hvalue⟩
  | grammar =>
      have hmake : g.make s = .ok b := ok_of_mapError h
      obtain ⟨e, he, -⟩ | ⟨r, a, hrun, hstuck, ha, hbuilt⟩ := g.make_cases s
      · cases hmake.symm.trans he
      · rw [hmake] at hbuilt
        rw [scan_eq, ← divide_eq_terminalsOf] at hrun hstuck
        cases hbuilt with
        | ok hvalue _ => exact ⟨a, ⟨_, r, if_pos hstuck, hrun, ha⟩, hvalue⟩

/-- What is derived and has a tree is accepted, unless that takes too much room. -/
theorem parse_of_derives {f : FrontEnd} {g : Goal α β} {s : String} {a : α} {b : β}
    (h : f.Derives g.start g.complete? s a) (hb : g.value? a = some b) :
    f.parse g s = .ok b ∨ TooDeep (f.parse g s) := by
  obtain ⟨ts, r, hts, hrun, ha⟩ := h
  cases f with
  | descent =>
      obtain ⟨hfault, hts⟩ := Option.ite_none_right_eq_some.mp hts
      cases hts
      show (g.descend s).mapError _ = _ ∨ TooDeep ((g.descend s).mapError _)
      obtain ⟨p, hdeep⟩ | ⟨f, hf, -⟩ | ⟨-, hread⟩ := g.descend_of_run hrun
      · rw [hdeep]
        exact .inr ⟨_, rfl, rfl⟩
      · cases hfault.symm.trans hf
      · obtain ⟨b', hb', hread⟩ := hread a ha
        cases hb.symm.trans hb'
        rw [hread]
        exact .inl rfl
  | grammar =>
      obtain ⟨hstuck, hts⟩ := Option.ite_none_right_eq_some.mp hts
      cases hts
      show (g.make s).mapError _ = _ ∨ TooDeep ((g.make s).mapError _)
      rw [divide_eq_terminalsOf, ← scan_eq] at hrun hstuck
      obtain ⟨e, -, hderived⟩ | ⟨r', a', hrun', -, ha', hbuilt⟩ := g.make_cases s
      · cases hderived.eq_ok hrun hstuck ha
      · cases hrun.symm.trans hrun'
        cases ha.symm.trans ha'
        rw [hb] at hbuilt
        generalize g.make s = made at hbuilt
        cases hbuilt with
        | ok hvalue _ => exact .inl (by rw [Option.some.inj hvalue]; rfl)
        | tooDeep => exact .inr ⟨_, rfl, rfl⟩
        | infinite _ _ _ hvalue => cases hvalue

/-! ## A semicolon below a text -/

theorem append_newline_semicolon (s : String) : s ++ "\n;" = s ++ "\n" ++ ";" := by
  rw [String.append_assoc]
  rfl

theorem scan_semicolon : scan ";" = [.ok ⟨.mark .semicolon, .origin, ";"⟩] := by cbv

/-- A text and the text with a semicolon below it are all terminals together, and the second has the
semicolon behind the terminals of the first. -/
theorem terminals?_statement (f : FrontEnd) (s : String) :
    ∃ stop : Terminal, stop.kind = .mark .semicolon ∧
    f.terminals? (s ++ "\n;") = (f.terminals? s).map (· ++ [stop]) := by
  have hquote : '"' ∉ (";" : String).toList := by decide
  rw [append_newline_semicolon]
  cases f with
  | descent =>
      refine ⟨(Token.moved (.below s.toList) ⟨.mark .semicolon, .origin, ";"⟩).terminal, rfl, ?_⟩
      have hsemicolon : Descent.Stream.upToFault (scan ";") =
          ([⟨.mark .semicolon, .origin, ";"⟩], none) := by
        rw [scan_semicolon]
        rfl
      have hahead : (Descent.Stream.ofText ";").ahead = [⟨.mark .semicolon, .origin, ";"⟩] :=
        congrArg Prod.fst hsemicolon
      have hwhole : (Descent.Stream.ofText ";").fault = none := congrArg Prod.snd hsemicolon
      -- With a fault in the text the semicolon changes nothing, since it closes no string.
      by_cases hfault : (Descent.Stream.ofText s).fault = none
      · have hfault' : (Descent.Stream.ofText (s ++ "\n" ++ ";")).fault = none := by
          refine (congrArg Prod.snd (Descent.upToFault_below hfault ";")).trans ?_
          rw [hwhole]
          rfl
        rw [terminals?, terminals?, if_pos hfault, if_pos hfault', Descent.ahead_below hfault,
          hahead, List.map_append]
        rfl
      · have hfault' := mt (Descent.fault_of_below hquote) hfault
        rw [terminals?, terminals?, if_neg hfault, if_neg hfault']
        rfl
  | grammar =>
      refine ⟨Terminal.moved (.below s.toList) ⟨.mark .semicolon, ";", .origin⟩, rfl, ?_⟩
      have hsemicolon : divide (";" : String).toList .origin =
          ⟨[⟨.mark .semicolon, ";", .origin⟩], none⟩ := by
        rw [divide_eq_terminalsOf, ← scan_eq, scan_semicolon]
        rfl
      by_cases hstuck : (divide s.toList .origin).stuck = none
      · have hbelow := divide_below hstuck ";"
        rw [hsemicolon] at hbelow
        rw [terminals?, terminals?, hbelow, if_pos hstuck]
        rfl
      · have hstuck' := mt (stuck_of_below hquote) hstuck
        rw [terminals?, terminals?, if_neg hstuck, if_neg hstuck']
        rfl

/-- An expression is derived from a text exactly if one expression statement is derived
from it with a semicolon. -/
theorem derives_iff_statement {f : FrontEnd} {s : String} {p : Phrase} :
    f.Derives .forExpr Reader.phrase? s p ↔
    f.Derives .forProgram Reader.program? (s ++ "\n;") [.expression p] := by
  obtain ⟨stop, hstop, hterminals⟩ := f.terminals?_statement s
  constructor
  · rintro ⟨ts, r, hts, hrun, hp⟩
    refine ⟨ts ++ [stop], _, ?_, (phrase_iff_statement hstop).mp ⟨r, hrun, hp⟩, rfl⟩
    rw [hterminals, hts]
    rfl
  · rintro ⟨us, ⟨done, state⟩, hus, hrun, hprogram⟩
    rw [hterminals] at hus
    obtain ⟨ts, hts, rfl⟩ := Option.map_eq_some_iff.mp hus
    obtain ⟨rfl, hdone⟩ := Option.ite_none_right_eq_some.mp hprogram
    obtain rfl : done = [.expression p] := by simpa using Option.some.inj hdone
    obtain ⟨r, hexpr, hp⟩ := (phrase_iff_statement hstop).mpr hrun
    exact ⟨ts, r, hts, hexpr, hp⟩

/-- No program is derived from a text from which an expression is derived. -/
theorem not_derives_program {f : FrontEnd} {s : String} {p : Phrase} {ss : List Sentence}
    (hexpr : f.Derives .forExpr Reader.phrase? s p) : ¬f.Derives .forProgram Reader.program? s ss := by
  rintro ⟨us, r', hus, hrun', hprogram⟩
  obtain ⟨ts, r, hts, hrun, hp⟩ := hexpr
  cases hts.symm.trans hus
  cases (not_program_of_phrase hrun hp hrun').symm.trans hprogram

/-! ## Accepted texts -/

theorem not_both {f : FrontEnd} {s : String} {e : Expr} {p : List Stmt}
    (hexpr : f.parseExpr s = .ok e) :
    f.parseProgram s ≠ .ok p := by
  intro hprogram
  rw [parseExpr_eq] at hexpr
  rw [parseProgram_eq] at hprogram
  obtain ⟨q, hq, -⟩ := derives_of_parse hexpr
  obtain ⟨ss, hss, -⟩ := derives_of_parse hprogram
  exact not_derives_program hq hss

theorem stmt?_eq_expression {s : Sentence} {e : Expr} :
    s.stmt? = some (.expression e) ↔ ∃ p, s = .expression p ∧ p.expr? = some e := by
  cases s with
  | expression p => simp
  | print p => simp
  | declare name initial => cases initial <;> simp

/-- The sentences of one expression statement are one sentence. -/
theorem mapM_stmt?_expression {ss : List Sentence} {e : Expr} :
    ss.mapM Sentence.stmt? = some [.expression e] ↔ ∃ p, ss = [.expression p] ∧ p.expr? = some e := by
  cases ss with
  | nil => simp
  | cons s ss =>
      rw [List.mapM_cons]
      cases ss with
      | nil =>
          have hone : (do let t ← s.stmt?; let ts ← [].mapM Sentence.stmt?; pure (t :: ts)) =
              s.stmt?.map ([·]) := by
            cases s.stmt? <;> rfl
          rw [hone]
          simp [stmt?_eq_expression]
      | cons t ss =>
          rw [List.mapM_cons]
          cases s.stmt? <;> cases t.stmt? <;> cases ss.mapM Sentence.stmt? <;> simp

theorem parseExpr_iff_statement {f : FrontEnd} {s : String} (hexpr : ¬TooDeep (f.parseExpr s))
    (hprogram : ¬TooDeep (f.parseProgram (s ++ "\n;"))) (e : Expr) :
    f.parseExpr s = .ok e ↔ f.parseProgram (s ++ "\n;") = .ok [.expression e] := by
  rw [parseExpr_eq] at hexpr ⊢
  rw [parseProgram_eq] at hprogram ⊢
  constructor
  · intro h
    obtain ⟨p, hp, he⟩ := derives_of_parse h
    exact (parse_of_derives (derives_iff_statement.mp hp)
      (mapM_stmt?_expression.mpr ⟨p, rfl, he⟩)).resolve_right hprogram
  · intro h
    obtain ⟨ss, hss, hvalue⟩ := derives_of_parse h
    obtain ⟨p, rfl, he⟩ := mapM_stmt?_expression.mp hvalue
    exact (parse_of_derives (derives_iff_statement.mpr hss) he).resolve_right hexpr

end FrontEnd

/-! ## Entries -/

theorem answer_of_expr {f : FrontEnd} {s : String} {e : Expr} (h : f.parseExpr s = .ok e) :
    answer f s = ((evaluate f s).map .value, "") := by
  rw [answer, evaluate, h]
  rfl

theorem answer_of_program {f : FrontEnd} {s : String} {err : SourceError} {p : List Stmt}
    (hexpr : f.parseExpr s = .error err) (hprogram : f.parseProgram s = .ok p) :
    (∃ last, (answer f s).1 = .ok (.ran last)) ∨
      ∃ e, (answer f s).1 = .error (.runtime e) := by
  rw [answer, hexpr, run_eq hprogram]
  cases hfailure : (Run.ofStatements p).failure with
  | none => exact .inl ⟨(Run.ofStatements p).values.getLast?, by simp only [hfailure]⟩
  | some e => exact .inr ⟨e, by simp only [hfailure]⟩

theorem answer_of_rejected {f : FrontEnd} {s : String} {err err' : SourceError}
    (hexpr : f.parseExpr s = .error err') (hprogram : f.parseProgram s = .error err) :
    answer f s = (.error (.source err), "") := by
  rw [answer, hexpr, run_eq_error hprogram]

/-- An entry is rejected if it is neither an expression nor a program, with what is
wrong with it as a program. -/
theorem answer_eq_source {f : FrontEnd} {s : String} {err : SourceError} :
    (answer f s).1 = .error (.source err) ↔
    (∃ err', f.parseExpr s = .error err') ∧ f.parseProgram s = .error err := by
  constructor
  · intro h
    cases hexpr : f.parseExpr s with
    | ok e =>
        rw [answer, hexpr] at h
        cases he : e.eval <;> simp [he, Except.map, Except.mapError] at h
    | error err' =>
        refine ⟨⟨err', rfl⟩, ?_⟩
        cases hprogram : f.parseProgram s with
        | ok p =>
            obtain ⟨last, hlast⟩ | ⟨e, he⟩ := answer_of_program hexpr hprogram
            · cases hlast.symm.trans h
            · cases he.symm.trans h
        | error err'' =>
            rw [answer_of_rejected hexpr hprogram] at h
            cases h
            rfl
  · rintro ⟨⟨err', hexpr⟩, hprogram⟩
    rw [answer_of_rejected hexpr hprogram]

/-- The reply to an entry tells whether it was an expression. -/
theorem reply_eq_value {f : FrontEnd} {s : String} {reply : Reply} (h : (answer f s).1 = .ok reply) :
    (∃ v, reply = .value v) ↔ ∃ e, f.parseExpr s = .ok e := by
  cases hexpr : f.parseExpr s with
  | ok e =>
      rw [answer_of_expr hexpr] at h
      obtain ⟨v, hv⟩ : ∃ v, reply = .value v := by
        cases hv : evaluate f s with
        | ok v =>
            rw [hv] at h
            exact ⟨v, (Except.ok.inj h).symm⟩
        | error err =>
            rw [hv] at h
            cases h
      exact ⟨fun _ => ⟨e, rfl⟩, fun _ => ⟨v, hv⟩⟩
  | error err =>
      refine ⟨?_, fun ⟨e, he⟩ => nomatch he⟩
      rintro ⟨v, rfl⟩
      cases hprogram : f.parseProgram s with
      | error err' =>
          rw [answer_of_rejected hexpr hprogram] at h
          cases h
      | ok p =>
          obtain ⟨last, hlast⟩ | ⟨e, he⟩ := answer_of_program hexpr hprogram
          · cases hlast.symm.trans h
          · cases he.symm.trans h

/-- The trees of an entry are refused if the entry is rejected, with the same error. -/
theorem entryTrees_eq_error {f : FrontEnd} {s : String} {err : SourceError} :
    entryTrees f s = .error err ↔
    (∃ err', f.parseExpr s = .error err') ∧ f.parseProgram s = .error err := by
  unfold entryTrees
  cases f.parseExpr s with
  | ok e => simp
  | error err' => cases f.parseProgram s <;> simp [bind, Except.bind, pure, Except.pure]

/-- A rejected entry is complained of alike whether its trees or its value are asked for. -/
theorem enter_of_rejected {f : FrontEnd} {s : String} {err : SourceError}
    (h : entryTrees f s = .error err) (w : Session.Switches) :
    (Session.mk f w).enter s = ⟨"", complaint w.trace err.diagnostic.message, 0⟩ := by
  obtain ⟨⟨err', hexpr⟩, hprogram⟩ := entryTrees_eq_error.mp h
  unfold Session.enter
  split
  · rw [Session.showTrees, h]
    rfl
  · rw [Session.evaluateEntry, answer_of_rejected hexpr hprogram]
    rfl

/-- Of the trees of an entry that is not rejected it is only complained that one is too deep. -/
theorem enter_of_trees {f : FrontEnd} {s : String} {trees : List Node}
    (h : entryTrees f s = .ok trees) (trace : Bool) :
    ((Session.mk f ⟨true, trace⟩).enter s).err = "" ∨
      ((Session.mk f ⟨true, trace⟩).enter s).err = complaint trace
        (RenderError.diagnostic {}).message := by
  rw [Session.enter, if_pos rfl, Session.showTrees, h]
  cases hlines : (treeLines trees).2 with
  | none => exact .inl (by simp [hlines, Session.finish])
  | some e => exact .inr (by simp [hlines, Session.finish, Failure.diagnostic])

/-! ## Values -/

theorem evaluate_of_expr {f : FrontEnd} {s : String} {e : Expr} (h : f.parseExpr s = .ok e) :
    evaluate f s = e.eval.mapError .runtime := by
  rw [evaluate, h]
  rfl

/-- Running one expression is evaluating it. -/
theorem ofStatements_expression (e : Expr) : Run.ofStatements [.expression e] = match e.eval with
    | .ok v => ⟨[v], "", none⟩
    | .error err => ⟨[], "", some err⟩ := by
  have hexec : (Stmt.expression e).toNode.exec = (e.eval, "") := rfl
  rw [Run.ofStatements, hexec]
  cases e.eval with
  | ok v => rfl
  | error err => rfl

/-- Expressions and programs are told apart. No text is both, and one is an expression exactly if a
semicolon below it makes it a program of one expression statement; both come to the same value or
error then. An entry that is neither is rejected with what is wrong with it as a program, and its
trees are refused likewise. -/
theorem expressions_and_programs (f : FrontEnd) (s : String) :
    (∀ e p, f.parseExpr s = .ok e → f.parseProgram s ≠ .ok p) ∧
    (¬TooDeep (f.parseExpr s) → ¬TooDeep (f.parseProgram (s ++ "\n;")) →
      (∀ e, f.parseExpr s = .ok e ↔ f.parseProgram (s ++ "\n;") = .ok [.expression e]) ∧
      (∀ reply, (answer f s).1 = .ok reply →
        ((∃ v, reply = .value v) ↔ ∃ e, f.parseProgram (s ++ "\n;") = .ok [.expression e])) ∧
      ∀ e, f.parseProgram (s ++ "\n;") = .ok [.expression e] →
        answer f s = ((evaluate f s).map .value, "") ∧
        (∀ v, evaluate f s = .ok v ↔ run f (s ++ "\n;") = .ok ⟨[v], "", none⟩) ∧
        ∀ err, evaluate f s = .error (.runtime err) ↔ run f (s ++ "\n;") = .ok ⟨[], "", some err⟩) ∧
    (∀ err, (answer f s).1 = .error (.source err) → f.parseProgram s = .error err ∧
      (answer f s).2 = "") ∧
    (∀ err, entryTrees f s = .error err ↔ (answer f s).1 = .error (.source err)) ∧
    (∀ err, entryTrees f s = .error err →
      ∀ w, (Session.mk f w).enter s = ⟨"", complaint w.trace err.diagnostic.message, 0⟩) ∧
    ∀ trees, entryTrees f s = .ok trees → ∀ trace, ((Session.mk f ⟨true, trace⟩).enter s).err = "" ∨
      ((Session.mk f ⟨true, trace⟩).enter s).err = complaint trace
        (RenderError.diagnostic {}).message := by
  refine ⟨fun e p => FrontEnd.not_both, ?_, ?_, ?_, ?_, ?_⟩
  · intro hexpr hprogram
    have hiff := FrontEnd.parseExpr_iff_statement hexpr hprogram
    refine ⟨hiff, fun reply h => (reply_eq_value h).trans (exists_congr hiff), ?_⟩
    · intro e he
      have hread := (hiff e).mpr he
      refine ⟨answer_of_expr hread, ?_, ?_⟩
      · intro v
        rw [evaluate_of_expr hread, run_eq he, ofStatements_expression]
        cases e.eval <;> simp [Except.mapError]
      · intro err
        rw [evaluate_of_expr hread, run_eq he, ofStatements_expression]
        cases e.eval <;> simp [Except.mapError]
  · intro err h
    obtain ⟨⟨err', hexpr⟩, hprogram⟩ := answer_eq_source.mp h
    exact ⟨hprogram, by rw [answer_of_rejected hexpr hprogram]⟩
  · exact fun err => entryTrees_eq_error.trans answer_eq_source.symm
  · exact fun err h w => enter_of_rejected h w
  · exact fun trees h trace => enter_of_trees h trace

/-- A comment does not hide the semicolon, and the error of the expression is the error of the
statement. -/
theorem expressions_and_programs_comment : ¬TooDeep (FrontEnd.descent.parseExpr "-nil // c") ∧
    ¬TooDeep (FrontEnd.descent.parseProgram ("-nil // c" ++ "\n;")) ∧
    FrontEnd.descent.parseProgram ("-nil // c" ++ "\n;") =
    .ok [.expression (.unary .negate (.literal .nil))] ∧
    run .descent ("-nil // c" ++ "\n;") = .ok ⟨[], "", some (.notANumber "-" .nil)⟩ := by
  have hexpr : FrontEnd.descent.parseExpr "-nil // c" = .ok (.unary .negate (.literal .nil)) := by cbv
  have hprogram : FrontEnd.descent.parseProgram ("-nil // c" ++ "\n;") =
      .ok [.expression (.unary .negate (.literal .nil))] := by cbv
  have hvalue : evaluate .descent "-nil // c" = .error (.runtime (.notANumber "-" .nil)) := by cbv
  have hshallow : ¬TooDeep (FrontEnd.descent.parseExpr "-nil // c") := by
    rintro ⟨e, he, -⟩
    cases hexpr.symm.trans he
  have hshallow' : ¬TooDeep (FrontEnd.descent.parseProgram ("-nil // c" ++ "\n;")) := by
    rintro ⟨e, he, -⟩
    cases hprogram.symm.trans he
  obtain ⟨-, hboth, -⟩ := expressions_and_programs .descent "-nil // c"
  obtain ⟨hiff, -, hsame⟩ := hboth hshallow hshallow'
  exact ⟨hshallow, hshallow', (hiff _).mp hexpr, ((hsame _ hprogram).2.2 _).mp hvalue⟩

end Lox
