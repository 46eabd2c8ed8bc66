import Lox.CommandLine
import Lox.Proofs.Program.Outcome
import Lox.Proofs.Text.Utf8
/-!
# `CommandLine.ExitCodes` — how a run of the program ends

A run ends with a report whose exit code is one of the documented ones, unless it breaks off: that
happens exactly if the script is no UTF-8, or its path holds a null character
(`ends_unless_broken_off`). A script that is there but is no text therefore does not end as one that
cannot be read does (`undecodable_script_breaks_off`).
-/
namespace Lox.CommandLine

/-- What keeps a request from ending with a report: bytes that encode no characters, or
a path that no file has. -/
def Request.Breaks (w : World) : Request → Prop
  | run _ _ .standardInput => ∀ cs, w.standardInput ≠ Text.Utf8.encode cs
  | run _ _ (.file path) =>
    '\x00' ∈ path.toList ∨ ∃ bytes, w.read (.ofText path) = .ok bytes ∧
      ∀ cs, bytes ≠ Text.Utf8.encode cs
  | _ => False

/-- The characters of a script. -/
inductive Origin.Holds (w : World) : Origin → List Char → Prop
  | standardInput {cs : List Char} : w.standardInput = Text.Utf8.encode cs → Holds w .standardInput cs
  | file {path : String} {cs : List Char} :
      w.read (.ofText path) = .ok (Text.Utf8.encode cs) → Holds w (.file path) cs

/-- How a request ends, by its exit code: 64 tells that the arguments are misused, 74 that the
script cannot be read, and 65 and 70 that it fails. -/
structure Request.Ends (w : World) (request : Request) (r : Report) : Prop where
  documented : r.code.number ∈ [0, 64, 65, 70, 74]
  misused : r.code.number = 64 ↔ request = .missingValue ∨ request = .misuse
  unreadable : r.code.number = 74 ↔ ∃ f tree path e, request = .run f tree (.file path) ∧
    w.read (.ofText path) = .error e
  complains : r.code.number = 74 → r.out = "" ∧ ∃ message, r.err = complaint w.trace message
  failed : r.code.number = 65 ∨ r.code.number = 70 → ∃ f tree origin cs, request = .run f tree origin ∧
    origin.Holds w cs ∧ r = runScript f tree w.trace (String.ofList (Text.unifyNewlines cs))

/-! ## Requests without a script -/

theorem ends_fine {w : World} {request : Request} {r : Report} (hcode : r.code = .ok)
    (hused : ¬(request = .missingValue ∨ request = .misuse))
    (hfile : ∀ f tree path, request ≠ .run f tree (.file path)) :
    request.Ends w r where
  documented := by simp [hcode, ExitCode.number]
  misused := by simp [hcode, ExitCode.number, hused]
  unreadable := by simp [hcode, ExitCode.number, hfile]
  complains := by simp [hcode, ExitCode.number]
  failed := by simp [hcode, ExitCode.number]

theorem ends_misused {w : World} {request : Request} {r : Report} (hcode : r.code = .usage)
    (hmisused : request = .missingValue ∨ request = .misuse) : request.Ends w r where
  documented := by simp [hcode, ExitCode.number]
  misused := by simp [hcode, ExitCode.number, hmisused]
  unreadable := by
    refine ⟨by simp [hcode, ExitCode.number], ?_⟩
    rintro ⟨f, tree, path, e, rfl, -⟩
    simp at hmisused
  complains := by simp [hcode, ExitCode.number]
  failed := by simp [hcode, ExitCode.number]

/-! ## Scripts -/

theorem decodeText_encode (cs : List Char) :
    decodeText (Text.Utf8.encode cs) = .ok (String.ofList (Text.unifyNewlines cs)) := by
  rw [decodeText, Text.Utf8.decode_eq_ok_iff.mpr rfl]

theorem decodeText_of_not_encode {bytes : List UInt8} (h : ∀ cs, bytes ≠ Text.Utf8.encode cs) :
    ∃ b, decodeText bytes = .error b := by
  unfold decodeText
  cases hdecode : Text.Utf8.decode bytes with
  | ok cs => exact absurd (Text.Utf8.decode_eq_ok_iff.mp hdecode) (h cs)
  | error e => exact ⟨_, rfl⟩

/-- A script that is run ends its request. -/
theorem ends_runScript {w : World} {f : FrontEnd} {tree : Bool} {origin : Origin} {cs : List Char}
    (h : origin.Holds w cs) : (Request.run f tree origin).Ends w
      (runScript f tree w.trace (String.ofList (Text.unifyNewlines cs))) := by
  obtain ⟨out, failure, hrun⟩ := runScript_eq_ofRun f tree w.trace
    (String.ofList (Text.unifyNewlines cs))
  have hcode := Report.ofRun_code w.trace out failure
  rw [← hrun] at hcode
  generalize hr : runScript f tree w.trace _ = r at hcode
  have hfewer : r.code.number ≠ 64 ∧ r.code.number ≠ 74 := by simp at hcode; omega
  exact {
    documented := by simp at hcode ⊢; omega
    misused := ⟨fun h => absurd h hfewer.1, by simp⟩
    unreadable := by
      refine ⟨fun h => absurd h hfewer.2, ?_⟩
      rintro ⟨f', tree', path, e, hrequest, hread⟩
      cases hrequest
      cases h with
      | file hbytes => cases hbytes.symm.trans hread
    complains := fun h => absurd h hfewer.2
    failed := fun _ => ⟨f, tree, origin, cs, rfl, h, hr.symm⟩ }

/-- A script that cannot be read ends its request. -/
theorem ends_unreadable {w : World} {path : String} {e : ReadError} (f : FrontEnd) (tree : Bool)
    (h : w.read (.ofText path) = .error e) : (Request.run f tree (.file path)).Ends w
      ⟨.inputError, "", complaint w.trace (e.message (.ofText path))⟩ where
  documented := by simp [ExitCode.number]
  misused := by simp [ExitCode.number]
  unreadable := ⟨fun _ => ⟨f, tree, path, e, rfl, h⟩, fun _ => rfl⟩
  complains _ := ⟨rfl, _, rfl⟩
  failed := by simp [ExitCode.number]

/-! ## Runs -/

theorem perform_of_breaks {w : World} {request : Request} (h : request.Breaks w) :
    ∃ b, request.perform w = .error b := by
  match request, h with
  | .run f tree .standardInput, h =>
      obtain ⟨b, hb⟩ := decodeText_of_not_encode h
      exact ⟨b, by rw [Request.perform, hb]; rfl⟩
  | .run f tree (.file path), h =>
      show ∃ b, runFile w f tree path = .error b
      by_cases hnull : '\x00' ∈ path.toList
      · exact ⟨.nullInPath, by simp [runFile, hnull]⟩
      · obtain hpath | ⟨bytes, hread, hbytes⟩ := h
        · exact absurd hpath hnull
        · obtain ⟨b, hb⟩ := decodeText_of_not_encode hbytes
          exact ⟨b, by simp [runFile, hnull, hread, hb]⟩

theorem perform_of_not_breaks {w : World} {request : Request} (h : ¬request.Breaks w) :
    ∃ r, request.perform w = .ok r ∧ request.Ends w r := by
  match request, h with
  | .help, _ => exact ⟨_, rfl, ends_fine rfl (by simp) (by simp)⟩
  | .missingValue, _ => exact ⟨_, rfl, ends_misused rfl (by simp)⟩
  | .misuse, _ => exact ⟨_, rfl, ends_misused rfl (by simp)⟩
  | .run f tree .session, _ => exact ⟨_, rfl, ends_fine rfl (by simp) (by simp)⟩
  | .run f tree .standardInput, h =>
      obtain ⟨cs, hcs⟩ := not_forall_not.mp h
      refine ⟨_, ?_, ends_runScript (.standardInput hcs)⟩
      rw [Request.perform, hcs, decodeText_encode]
      rfl
  | .run f tree (.file path), h =>
      obtain ⟨hnull, htext⟩ := not_or.mp h
      show ∃ r, runFile w f tree path = .ok r ∧ _
      cases hread : w.read (.ofText path) with
      | error e => exact ⟨_, by simp [runFile, hnull, hread], ends_unreadable f tree hread⟩
      | ok bytes =>
          obtain ⟨cs, rfl⟩ : ∃ cs, bytes = Text.Utf8.encode cs := by
            by_contra hbytes
            exact htext ⟨bytes, hread, not_exists.mp hbytes⟩
          exact ⟨_, by simp [runFile, hnull, hread, decodeText_encode], ends_runScript (.file hread)⟩

/-- A run ends with a report, whose exit code is documented, unless it breaks off. -/
theorem ends_unless_broken_off (w : World) (arguments : List String) :
    (¬(Request.ofArguments arguments).Breaks w →
      ∃ r, perform w arguments = .ok r ∧ (Request.ofArguments arguments).Ends w r) ∧
    ((Request.ofArguments arguments).Breaks w → ∃ b, perform w arguments = .error b) :=
  ⟨perform_of_not_breaks, perform_of_breaks⟩

theorem ends_unless_broken_off_missing :
    ¬(Request.ofArguments ["--tree", "a.lox"]).Breaks ⟨fun _ => .error .missing, [], [], false⟩ ∧
      ∃ r, perform ⟨fun _ => .error .missing, [], [], false⟩ ["--tree", "a.lox"] = .ok r ∧
        (Request.ofArguments ["--tree", "a.lox"]).Ends ⟨fun _ => .error .missing, [], [], false⟩ r := by
  have hrequest : Request.ofArguments ["--tree", "a.lox"] =
  .run .descent true (.file "a.lox") := by decide
  have hwhole : ¬(Request.ofArguments ["--tree", "a.lox"]).Breaks
    ⟨fun _ => .error .missing, [], [], false⟩ := by
    rw [hrequest]
    simp [Request.Breaks]
  exact ⟨hwhole, (ends_unless_broken_off _ _).1 hwhole⟩

/-- A script that is there but is no text ends with no exit code at all. -/
theorem undecodable_script_breaks_off :
    perform ⟨fun _ => .ok [0xff], [], [], false⟩ ["a.lox"] =
    .error (.undecodable ⟨0, 0xff, 1, .badStart⟩) := by
  have hrequest : Request.ofArguments ["a.lox"] = .run .descent false (.file "a.lox") := by decide
  rw [perform, hrequest]
  simp [Request.perform, runFile, decodeText, Text.Utf8.decode, Text.Utf8.decodeFrom, Text.Utf8.lead?]

end Lox.CommandLine
