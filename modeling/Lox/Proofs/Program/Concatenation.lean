import Lox.Proofs.Descent.Lines
import Lox.Proofs.Grammar.Lines
import Lox.Proofs.Program.Outcome
/-!
# `Program.Concatenation` — a program below another one

Both front ends read a program below an accepted one as it is alone: its statements come behind the
others, and its errors are the same in lower rows (`FrontEnd.parseProgram_below`). Running the two
together is then running one after the other (`programs_concatenate`).
-/
namespace Lox

/-! ## Errors further down -/

/-- The error, moved down. -/
def SourceError.moved (d : Displacement) : SourceError → SourceError
  | descent e => descent (e.moved d)
  | grammar e => grammar (e.moved d)

/-- A program below an accepted one is read as it is alone, but behind the other
statements and further down. -/
theorem FrontEnd.parseProgram_below {f : FrontEnd} {above : String} {p : List Stmt}
    (h : f.parseProgram above = .ok p) (s : String) : f.parseProgram (above ++ "\n" ++ s) =
      ((f.parseProgram s).mapError (SourceError.moved (.below above.toList))).map (p ++ ·) := by
  cases f with
  | descent =>
      have hread : Descent.parseProgram above = .ok p := ok_of_mapError h
      show (Descent.parseProgram (above ++ "\n" ++ s)).mapError _ = _
      rw [Descent.parseProgram_below hread]
      show _ = (((Descent.parseProgram s).mapError SourceError.descent).mapError _).map _
      cases Descent.parseProgram s <;> rfl
  | grammar =>
      have hmade : Grammar.parseProgram above = .ok p := ok_of_mapError h
      show (Grammar.parseProgram (above ++ "\n" ++ s)).mapError _ = _
      rw [Grammar.parseProgram_below hmade]
      show _ = (((Grammar.parseProgram s).mapError SourceError.grammar).mapError _).map _
      cases Grammar.parseProgram s <;> rfl

/-- The two errors are of the same class, and the second one is some rows further down in the same
column. An error that has no place has none further down either. -/
structure SourceError.Lower (rows : Int) (e e' : SourceError) : Prop where
  tag : e'.tag = e.tag
  complaint : e'.diagnostic.tag = e.diagnostic.tag
  row : e'.diagnostic.row = e.diagnostic.row.map (· + rows)
  col : e'.diagnostic.col = e.diagnostic.col

theorem SourceError.lower_moved (d : Displacement) (e : SourceError) : Lower d.rows e (e.moved d) := by
  cases e with
  | descent e => cases e <;> exact ⟨rfl, rfl, rfl, rfl⟩
  | grammar e => cases e <;> exact ⟨rfl, rfl, rfl, rfl⟩

/-! ## Runs -/

theorem run_eq {f : FrontEnd} {s : String} {p : List Stmt} (h : f.parseProgram s = .ok p) :
    run f s = .ok (.ofStatements p) := by
  unfold run
  rw [h]
  rfl

theorem run_eq_error {f : FrontEnd} {s : String} {e : SourceError} (h : f.parseProgram s = .error e) :
    run f s = .error e := by
  unfold run
  rw [h]
  rfl

/-- Programs compose by concatenation. Below a program that is accepted, another one is accepted if
it is accepted alone, and then its statements come behind the others and running both is running one
after the other. If it is rejected alone, then both together are rejected with an error of the same
class, lower by the rows of the first program and in the same column, and nothing is run. -/
theorem programs_concatenate {f : FrontEnd} {s₁ : String} {p₁ : List Stmt}
    (h₁ : f.parseProgram s₁ = .ok p₁) (s₂ : String) :
    (∀ p₂, f.parseProgram s₂ = .ok p₂ → f.parseProgram (s₁ ++ "\n" ++ s₂) = .ok (p₁ ++ p₂) ∧
      ∃ r₁ r₂, run f s₁ = .ok r₁ ∧ run f s₂ = .ok r₂ ∧
        (r₁.failure = none → run f (s₁ ++ "\n" ++ s₂) =
          .ok ⟨r₁.values ++ r₂.values, r₁.printed ++ r₂.printed, r₂.failure⟩) ∧
        (r₁.failure ≠ none → run f (s₁ ++ "\n" ++ s₂) = .ok r₁)) ∧
    (∀ e, f.parseProgram s₂ = .error e → ∃ e', f.parseProgram (s₁ ++ "\n" ++ s₂) = .error e' ∧
      e.Lower (s₁.toList.count '\n' + 1) e' ∧ run f (s₁ ++ "\n" ++ s₂) = .error e' ∧
      ∀ tree trace, (runScript f tree trace (s₁ ++ "\n" ++ s₂)).out = "") := by
  have hbelow := FrontEnd.parseProgram_below h₁ s₂
  constructor
  · intro p₂ h₂
    rw [h₂] at hbelow
    refine ⟨hbelow, .ofStatements p₁, .ofStatements p₂, run_eq h₁, run_eq h₂, ?_, ?_⟩
    · intro hfine
      rw [run_eq hbelow, Run.ofStatements_append, Run.andThen, hfine]
    · intro hfails
      obtain ⟨err, herr⟩ := Option.ne_none_iff_exists'.mp hfails
      rw [run_eq hbelow, Run.ofStatements_append, Run.andThen, herr]
  · intro e h₂
    rw [h₂] at hbelow
    refine ⟨e.moved (.below s₁.toList), hbelow, ?_, run_eq_error hbelow, ?_⟩
    · exact e.lower_moved (.below s₁.toList)
    · intro tree trace
      unfold runScript
      rw [hbelow]
      exact Report.ofRun_out trace "" _

/-- Below a string of two rows and a comment that only the text ends: an operand is missing two rows
further down than alone, and what is printed comes behind the string. -/
theorem programs_concatenate_string_and_comment :
    FrontEnd.descent.parseProgram "print \"a\nb\"; // c" = .ok [.print (.literal (.string "a\nb"))] ∧
    (∃ e, FrontEnd.descent.parseProgram ("print \"a\nb\"; // c" ++ "\n" ++ "a\n+ ;") = .error e ∧
      e.tag = .badStructure ∧ e.diagnostic.row = some 4 ∧ e.diagnostic.col = some 3) ∧
    run .descent ("print \"a\nb\"; // c" ++ "\n" ++ "print nil;") =
      .ok ⟨[.string "a\nb", .nil], "a\nb\nnil\n", none⟩ := by
  have habove : FrontEnd.descent.parseProgram "print \"a\nb\"; // c" =
      .ok [.print (.literal (.string "a\nb"))] := by cbv
  refine ⟨habove, ?_, ?_⟩
  · have hreject : FrontEnd.descent.parseProgram "a\n+ ;" =
        .error (.descent (.noOperand ⟨.mark .semicolon, ⟨4, 2, 3⟩, ";"⟩)) := by cbv
    obtain ⟨e, he, hlower, -⟩ := (programs_concatenate habove "a\n+ ;").2 _ hreject
    exact ⟨e, he, hlower.tag, hlower.row, hlower.col⟩
  · have haccept : FrontEnd.descent.parseProgram "print nil;" = .ok [.print (.literal .nil)] := by cbv
    have hfirst : run .descent "print \"a\nb\"; // c" = .ok ⟨[.string "a\nb"], "a\nb\n", none⟩ := by cbv
    have hsecond : run .descent "print nil;" = .ok ⟨[.nil], "nil\n", none⟩ := by cbv
    obtain ⟨-, r₁, r₂, hr₁, hr₂, hrun, -⟩ := (programs_concatenate habove "print nil;").1 _ haccept
    cases hfirst.symm.trans hr₁
    cases hsecond.symm.trans hr₂
    exact hrun rfl

end Lox
