import Lox.Script
import Mathlib
/-!
# `Program.Outcome` — how a script ends

What a single statement does is told without running anything else: whether it fails
(`Stmt.failure?`) and what it prints (`Stmt.shown`). A run is then the statements up to the first
that fails (`printed_eq`, `failure_eq`), and the report of a script can be read off the list of its
statements (`script_outcome`).
-/
namespace Lox

/-! ## One statement -/

namespace Stmt

/-- Why a statement fails, if it does. A declaration fails whatever the variable is to start
with. -/
def failure? : Stmt → Option RuntimeError
  | declare name _ => some (.declaration name)
  | expression e | print e =>
    match e.eval with
    | .ok _ => none
    | .error err => some err

/-- Does the statement fail? -/
def fails (s : Stmt) : Bool := s.failure?.isSome

/-- What a statement prints. -/
def shown : Stmt → String
  | print e =>
    match e.eval with
    | .ok v => v.text ++ "\n"
    | .error _ => ""
  | _ => ""

/-- A statement that does not fail has a value and prints what it shows. -/
theorem exec_of_fine {s : Stmt} (h : s.failure? = none) : ∃ v, s.toNode.exec = (.ok v, s.shown) := by
  cases s with
  | declare name e => cases h
  | expression e =>
      cases he : e.eval with
      | ok v => exact ⟨v, by simp_all [toNode, Node.exec, Expr.eval, shown]⟩
      | error err => simp_all [failure?]
  | print e =>
      cases he : e.eval with
      | ok v => exact ⟨v, by simp_all [toNode, Node.exec, Expr.eval, shown]⟩
      | error err => simp_all [failure?]

/-- A statement that fails prints nothing. -/
theorem exec_of_failure {s : Stmt} {err : RuntimeError} (h : s.failure? = some err) :
    s.toNode.exec = (.error err, "") := by
  cases s with
  | declare name e => cases e <;> simp_all [failure?, toNode, Node.exec]
  | expression e => cases he : e.eval <;> simp_all [failure?, toNode, Node.exec, Expr.eval]
  | print e => cases he : e.eval <;> simp_all [failure?, toNode, Node.exec, Expr.eval]

end Stmt

/-! ## Runs -/

namespace Run

/-- A run, and then another one if the first did not fail. -/
def andThen (r next : Run) : Run :=
  match r.failure with
  | none => ⟨r.values ++ next.values, r.printed ++ next.printed, next.failure⟩
  | some _ => r

theorem ofStatements_of_fine {s : Stmt} (h : s.failure? = none) :
    ∃ v, ∀ rest, ofStatements (s :: rest) =
      ⟨v :: (ofStatements rest).values, s.shown ++ (ofStatements rest).printed,
        (ofStatements rest).failure⟩ := by
  obtain ⟨v, hv⟩ := Stmt.exec_of_fine h
  exact ⟨v, fun rest => by simp [ofStatements, hv]⟩

theorem ofStatements_of_failure {s : Stmt} {err : RuntimeError} (h : s.failure? = some err)
    (rest : List Stmt) :
    ofStatements (s :: rest) = ⟨[], "", some err⟩ := by
  simp [ofStatements, Stmt.exec_of_failure h]

/-- Statements run as their first part does, and then as the rest of them does. -/
theorem ofStatements_append (p q : List Stmt) :
    ofStatements (p ++ q) = (ofStatements p).andThen (ofStatements q) := by
  induction p with
  | nil => simp [ofStatements, andThen]
  | cons s p ih =>
      rw [List.cons_append]
      cases hs : s.failure? with
      | some err => simp [ofStatements_of_failure hs, andThen]
      | none =>
          obtain ⟨v, hv⟩ := ofStatements_of_fine hs
          rw [hv, hv, ih]
          cases hp : (ofStatements p).failure <;> simp [andThen, hp, String.append_assoc]

theorem failure_eq (stmts : List Stmt) :
    (ofStatements stmts).failure = stmts.findSome? Stmt.failure? := by
  induction stmts with
  | nil => rfl
  | cons s rest ih =>
      cases hs : s.failure? with
      | some err => simp [ofStatements_of_failure hs, hs]
      | none =>
          obtain ⟨v, hv⟩ := ofStatements_of_fine hs
          simp [hv, hs, ih]

/-- A run prints what the statements before the first failing one show. -/
theorem printed_eq (stmts : List Stmt) :
    (ofStatements stmts).printed = String.join ((stmts.take (stmts.findIdx Stmt.fails)).map
      Stmt.shown) := by
  induction stmts with
  | nil => rfl
  | cons s rest ih =>
      cases hs : s.failure? with
      | some err => simp [ofStatements_of_failure hs, List.findIdx_cons, Stmt.fails, hs]
      | none =>
          obtain ⟨v, hv⟩ := ofStatements_of_fine hs
          simp [hv, List.findIdx_cons, Stmt.fails, hs, ih, String.join_cons]

theorem failure_eq_none_iff (stmts : List Stmt) :
    (ofStatements stmts).failure = none ↔ ¬ stmts.findIdx Stmt.fails < stmts.length := by
  rw [failure_eq, List.findSome?_eq_none_iff, List.findIdx_lt_length]
  simp [Stmt.fails]

end Run

/-! ## Trees -/

/-- The lines of the trees before the first that is too deep to be written. -/
structure Listing (stmts : List Stmt) (lines : List String) : Prop where
  texts : (stmts.take lines.length).map Stmt.text = lines.map .ok
  stops : ∀ s, stmts[lines.length]? = some s → s.text = .error {}

theorem Listing.length_le {stmts : List Stmt} {lines : List String} (h : Listing stmts lines) :
    lines.length ≤ stmts.length := by
  have hlen := congrArg List.length h.texts
  simp only [List.length_map, List.length_take] at hlen
  omega

/-- The trees that are written are those of a listing. The refusal says whether any
statement is missing in it. -/
theorem treeLines_listing (stmts : List Stmt) :
    ∃ lines, Listing stmts lines ∧ treeLines (stmts.map Stmt.toNode) =
      (String.join (lines.map (· ++ "\n")), if lines.length < stmts.length then some {} else none) := by
  induction stmts with
  | nil => exact ⟨[], ⟨rfl, by simp⟩, rfl⟩
  | cons s rest ih =>
      obtain ⟨lines, hlines, htree⟩ := ih
      cases hs : s.toNode.text with
      | error err =>
          refine ⟨[], ⟨rfl, ?_⟩, by simp [treeLines, hs]⟩
          intro t ht
          obtain rfl : s = t := by simpa using ht
          exact hs
      | ok line =>
          refine ⟨line :: lines, ⟨?_, ?_⟩, ?_⟩
          · simp [hlines.texts, Stmt.text, hs]
          · simpa using hlines.stops
          · simp [treeLines, hs, htree, String.join_cons]

/-! ## Scripts -/

theorem ok_of_mapError {α β γ : Type} {f : α → β} {x : Except α γ} {a : γ}
    (h : x.mapError f = .ok a) : x = .ok a := by
  cases x with
  | error e => cases h
  | ok b => rw [Except.ok.inj h]

theorem error_of_mapError {α β γ : Type} {f : α → β} {x : Except α γ} {e : β}
    (h : x.mapError f = .error e) :
    ∃ e', x = .error e' ∧ e = f e' := by
  cases x with
  | error e' => exact ⟨e', rfl, (Except.error.inj h).symm⟩
  | ok b => cases h

theorem complaint_ne_empty (trace : Bool) (message : String) : complaint trace message ≠ "" := by
  intro h
  have hlen := congrArg String.length h
  simp [complaint, String.length_append] at hlen

@[simp] theorem Report.ofRun_out (trace : Bool) (out : String) (failure : Option Failure) :
    (Report.ofRun trace out failure).out = out := by
  cases failure <;> rfl

/-- Only a script that did not fail has nothing to complain of. -/
theorem Report.ofRun_err (trace : Bool) (out : String) (failure : Option Failure) :
    (Report.ofRun trace out failure).err = "" ↔ (Report.ofRun trace out failure).code.number = 0 := by
  cases failure with
  | none => simp [Report.ofRun, ExitCode.number]
  | some e => cases e <;> simp [Report.ofRun, complaint_ne_empty, Failure.exitCode, ExitCode.number]

/-- The report of a script that is run. -/
theorem runScript_run {f : FrontEnd} {s : String} {stmts : List Stmt}
    (h : f.parseProgram s = .ok stmts) (trace : Bool) :
    runScript f false trace s =
      .ofRun trace (Run.ofStatements stmts).printed
        ((Run.ofStatements stmts).failure.map .runtime) := by
  simp [runScript, h]

/-- The report of a script whose trees are written. -/
theorem runScript_tree {f : FrontEnd} {s : String} {stmts : List Stmt}
    (h : f.parseProgram s = .ok stmts) (trace : Bool) :
    ∃ lines, Listing stmts lines ∧ runScript f true trace s =
    .ofRun trace (String.join (lines.map (· ++ "\n")))
      ((if lines.length < stmts.length then some {} else none).map .render) := by
  obtain ⟨lines, hlines, htree⟩ := treeLines_listing stmts
  exact ⟨lines, hlines, by simp [runScript, h, htree]⟩

/-- Every script ends in a report of one of three forms. -/
theorem runScript_eq_ofRun (f : FrontEnd) (tree trace : Bool) (s : String) :
    ∃ out failure, runScript f tree trace s = .ofRun trace out failure := by
  unfold runScript
  split
  · exact ⟨_, _, rfl⟩
  · split <;> exact ⟨_, _, rfl⟩

theorem Report.ofRun_code (trace : Bool) (out : String) (failure : Option Failure) :
    (Report.ofRun trace out failure).code.number ∈ [0, 65, 70] := by
  cases failure with
  | none => simp [Report.ofRun, ExitCode.number]
  | some e => cases e <;> simp [Report.ofRun, Failure.exitCode, ExitCode.number]

/-- How a script ends. A text that is rejected writes nothing and has exit code 65. Otherwise,
running it writes what the statements before the first failing one show, with code 70 if there is
one that fails; and writing its trees gives the lines of the statements before the first too deep to
be written, with code 65 if there is one. There is a complaint exactly if the exit code is not 0. -/
theorem script_outcome (f : FrontEnd) (trace : Bool) (s : String) :
    (match f.parseProgram s with
    | .error _ =>
      ∀ tree, (runScript f tree trace s).code.number = 65 ∧ (runScript f tree trace s).out = ""
    | .ok stmts =>
      (runScript f false trace s).out =
        String.join ((stmts.take (stmts.findIdx Stmt.fails)).map Stmt.shown) ∧
      (runScript f false trace s).code.number =
        (if stmts.findIdx Stmt.fails < stmts.length then 70 else 0) ∧
      ∃ lines, Listing stmts lines ∧
        (runScript f true trace s).out = String.join (lines.map (· ++ "\n")) ∧
        (runScript f true trace s).code.number = (if lines.length < stmts.length then 65 else 0)) ∧
    ∀ tree, ((runScript f tree trace s).err = "" ↔ (runScript f tree trace s).code.number = 0) ∧
      (runScript f tree trace s).code.number ∈ [0, 65, 70] := by
  constructor
  · cases hparse : f.parseProgram s with
    | error e => simp [runScript, hparse, Report.ofRun, Failure.exitCode, ExitCode.number]
    | ok stmts =>
        have hrun := runScript_run hparse trace
        obtain ⟨lines, hlines, hlist⟩ := runScript_tree hparse trace
        refine ⟨?_, ?_, lines, hlines, ?_, ?_⟩
        · rw [hrun, Report.ofRun_out, Run.printed_eq]
        · rw [hrun]
          have hfail := Run.failure_eq_none_iff stmts
          cases h : (Run.ofStatements stmts).failure with
          | none =>
              rw [if_neg (hfail.1 h)]
              rfl
          | some err =>
              have hlt : stmts.findIdx Stmt.fails < stmts.length := by
                by_contra hge
                rw [hfail.2 hge] at h
                cases h
              rw [if_pos hlt]
              rfl
        · rw [hlist, Report.ofRun_out]
        · rw [hlist]
          split <;> rfl
  · intro tree
    obtain ⟨out, failure, h⟩ := runScript_eq_ofRun f tree trace s
    rw [h]
    exact ⟨Report.ofRun_err trace out failure, Report.ofRun_code trace out failure⟩

end Lox
