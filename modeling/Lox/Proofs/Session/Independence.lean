import Lox.Session
import Mathlib
/-!
# `Session.Independence` — no entry bears on another

A session answers every input in turn and ends with its last one. All that an input can leave behind
is the two switches, and only a command that sets one of them does: an entry does not, whatever
becomes of it, nor does a command that there is not, nor one whose argument is no word for on or
off. Such inputs are `Idle`. Taking one of them out takes its own effects out and leaves all others
as they were (`entries_independent`).
-/
namespace Lox.Session

/-! ## Inputs that set nothing -/

/-- The argument sets no switch: there is one, and it is no word for on or off. -/
def IsBadArgument (argument : List Char) : Prop :=
  argument ≠ [] ∧ String.ofList (Text.lower argument) ∉ onWords ++ offWords

/-- The lines that set nothing, after invisible characters were dropped from them. -/
inductive Input.Idle : Input → Prop where
  /-- The line is no command: blanks aside, it does not start with a slash. -/
  | entry {text : String} : (Text.trim (normalize text).toList).head? ≠ some '/' → Idle (.line text)
  /-- There is no command of the name. -/
  | unknown {text name : String} {argument : List Char} : splitCommand? (normalize text).toList =
      some (name, argument) →
      (∀ c : Command, c.name ≠ name) → Idle (.line text)
  /-- The command sets a switch, and its argument is none for it. -/
  | badArgument {text : String} {c : Command} {argument : List Char} :
      splitCommand? (normalize text).toList = some (c.name, argument) → c = .trace ∨ c = .tree →
      IsBadArgument argument → Idle (.line text)

theorem switch?_of_isBadArgument {argument : List Char} (h : IsBadArgument argument) (current : Bool) :
    switch? argument current = none := by
  obtain ⟨hne, hword⟩ := h
  obtain ⟨hon, hoff⟩ := List.mem_append.not.mp hword |> not_or.mp
  have hempty : argument.isEmpty = false := List.isEmpty_eq_false_iff.mpr hne
  simp [switch?, hon, hoff, hempty]

theorem splitCommand?_eq_none {line : List Char} (h : (Text.trim line).head? ≠ some '/') :
    splitCommand? line = none := by
  unfold splitCommand?
  split
  · rename_i cs hcs
    rw [hcs] at h
    exact absurd rfl h
  · rfl

theorem ofName?_name (c : Command) : Command.ofName? c.name = some c := by cases c <;> decide

theorem ofName?_eq_none {name : String} (h : ∀ c : Command, c.name ≠ name) :
    Command.ofName? name = none := by
  apply List.find?_eq_none.mpr
  intro c _
  simpa using h c

namespace Switches

theorem obey_of_isBadArgument {c : Command} {argument : List Char} (hc : c = .trace ∨ c = .tree)
    (h : IsBadArgument argument) (w : Switches) : (w.obey c argument).2 = w := by
  obtain rfl | rfl := hc
  · simp only [obey, switch?_of_isBadArgument h]
  · simp only [obey, switch?_of_isBadArgument h]

/-- An idle line is no command, or one that leaves the switches as they are. -/
theorem command?_of_idle {text : String} (h : Input.Idle (.line text)) (w : Switches) :
    w.command? (normalize text) = none ∨ ∃ e, w.command? (normalize text) = some (e, w) := by
  cases h with
  | entry hslash =>
      left
      simp only [command?, splitCommand?_eq_none hslash]
  | unknown hsplit hname =>
      right
      simp only [command?, hsplit, ofName?_eq_none hname]
      exact ⟨_, rfl⟩
  | @badArgument _ c argument hsplit hc hargument =>
      right
      refine ⟨(w.obey c argument).1, ?_⟩
      simp only [command?, hsplit, ofName?_name]
      rw [Option.some_inj, Prod.ext_iff]
      exact ⟨rfl, obey_of_isBadArgument hc hargument w⟩

theorem turn_of_idle {i : Input} (h : i.Idle) (w : Switches) :
    (∃ text, w.turn i = .entry text) ∨ ∃ e, w.turn i = .done e w := by
  obtain ⟨text, rfl⟩ : ∃ text, i = .line text := by
    cases h with
    | entry _ | unknown _ _ | badArgument _ _ _ => exact ⟨_, rfl⟩
  unfold turn
  dsimp only
  split
  · exact .inr ⟨_, rfl⟩
  · obtain hnone | ⟨e, he⟩ := command?_of_idle h w
    · rw [hnone]
      exact .inl ⟨_, rfl⟩
    · rw [he]
      exact .inr ⟨e, rfl⟩

end Switches

/-! ## One input -/

/-- An idle line leaves the session as it is. -/
theorem step_of_idle {i : Input} (h : i.Idle) (s : Session) : (s.step i).2 = s := by
  unfold step
  obtain ⟨text, hturn⟩ | ⟨e, hturn⟩ := s.switches.turn_of_idle h
  · rw [hturn]
  · rw [hturn]

theorem step_frontEnd (s : Session) (i : Input) : (s.step i).2.frontEnd = s.frontEnd := by
  unfold step
  cases s.switches.turn i with
  | done e w => rfl
  | entry text => rfl

/-! ## All inputs -/

/-- The session behind some inputs. -/
def after (s : Session) (inputs : List Input) : Session := inputs.foldl (fun s i => (s.step i).2) s

@[simp] theorem after_nil (s : Session) : s.after [] = s := rfl

@[simp] theorem after_cons (s : Session) (i : Input) (is : List Input) :
    s.after (i :: is) = (s.step i).2.after is :=
  rfl

theorem after_frontEnd (s : Session) (inputs : List Input) :
    (s.after inputs).frontEnd = s.frontEnd := by
  induction inputs generalizing s with
  | nil => rfl
  | cons i is ih => rw [after_cons, ih, step_frontEnd]

theorem play_cons (s : Session) (i : Input) (is : List Input) :
    s.play (i :: is) = (s.step i).1 :: (s.step i).2.play is := rfl

/-- Every input is answered, in the session that the inputs before it have left. -/
theorem getElem?_play (s : Session) (inputs : List Input) (k : Nat) :
    (s.play inputs)[k]? = inputs[k]?.map fun i => ((s.after (inputs.take k)).step i).1 := by
  induction inputs generalizing s k with
  | nil => simp [play]
  | cons i is ih =>
      rw [play_cons]
      cases k with
      | zero => simp
      | succ k => simp [ih]

theorem length_play (s : Session) (inputs : List Input) : (s.play inputs).length = inputs.length := by
  induction inputs generalizing s with
  | nil => rfl
  | cons i is ih => rw [play_cons, List.length_cons, List.length_cons, ih]

/-- Without an idle line its own effects are missing, and no others change. -/
theorem play_eraseIdx {i : Input} (h : i.Idle) (s : Session) {inputs : List Input} {k : Nat}
    (hk : inputs[k]? = some i) :
    s.play (inputs.eraseIdx k) = (s.play inputs).eraseIdx k := by
  induction inputs generalizing s k with
  | nil => simp at hk
  | cons j js ih =>
      cases k with
      | zero =>
          -- The line is the first one; those behind it find the session as it was.
          obtain rfl : j = i := by simpa using hk
          rw [List.eraseIdx_cons_zero, play_cons, List.eraseIdx_cons_zero, step_of_idle h]
      | succ k =>
          rw [List.getElem?_cons_succ] at hk
          rw [List.eraseIdx_cons_succ, play_cons, play_cons, List.eraseIdx_cons_succ,
            ih (s.step j).2 hk]

theorem transcript_eraseIdx {i : Input} (h : i.Idle) (s : Session) {inputs : List Input} {k : Nat}
    (hk : inputs[k]? = some i) :
    s.transcript (inputs.eraseIdx k) = (s.transcript inputs).eraseIdx (k + 1) := by
  have hlt : k < (s.play inputs).length := by
    rw [length_play]
    exact (List.getElem?_eq_some_iff.mp hk).1
  rw [transcript, transcript, framed, framed, play_eraseIdx h s hk, List.cons_append, List.cons_append,
    List.eraseIdx_cons_succ, List.eraseIdx_append_of_lt_length hlt]

/-- The entries of a session are independent of each other. The session says its banner, answers
every input in the session that the inputs before it have left, and says farewell when there are no
more; it keeps its front end. If a line that sets nothing is taken out, whichever it is and wherever
it stands, what is written in answer to every other input stays the same. -/
theorem entries_independent (s : Session) (inputs : List Input) :
    (∃ effects, s.transcript inputs = banner :: effects ++ [farewell] ∧ effects.length = inputs.length ∧
      ∀ k i, inputs[k]? = some i → effects[k]? = some ((s.after (inputs.take k)).step i).1) ∧
    (∀ k, (s.after (inputs.take k)).frontEnd = s.frontEnd) ∧
    ∀ k i, inputs[k]? = some i → i.Idle →
    s.transcript (inputs.eraseIdx k) = (s.transcript inputs).eraseIdx (k + 1) := by
  refine ⟨⟨s.play inputs, rfl, s.length_play inputs, ?_⟩, ?_, ?_⟩
  · intro k i hk
    rw [getElem?_play, hk]
    rfl
  · exact fun k => s.after_frontEnd (inputs.take k)
  · exact fun k i hk hi => transcript_eraseIdx hi s hk

/-- A command with a bad argument is complained of, and the entry behind it is shown as it would be
without. -/
theorem entries_independent_bad_argument :
    Input.Idle (.line "/tree maybe") ∧
    (mk .grammar ⟨false, true⟩).transcript [.line "/tree on", .line "/tree maybe", .line "! nil"] =
      [banner, .say "Parse tree: on", .warn "Usage: /tree [on|off]", .say "(! nil)", farewell] ∧
    (mk .grammar ⟨false, true⟩).transcript [.line "/tree on", .line "! nil"] =
      [banner, .say "Parse tree: on", .say "(! nil)", farewell] := by
  have hidle : Input.Idle (.line "/tree maybe") :=
    @Input.Idle.badArgument _ .tree "maybe".toList (by decide) (.inr rfl) ⟨by decide, by decide⟩
  have htrees : entryTrees .grammar "! nil" = .ok [.unary .not (.literal .nil)] := by cbv
  have hentry : (mk .grammar ⟨true, true⟩).step (.line "! nil") =
      (.say "(! nil)", mk .grammar ⟨true, true⟩) := by
    have hturn : Switches.turn ⟨true, true⟩ (.line "! nil") = .entry "! nil" := by decide
    simp only [step, hturn, enter, showTrees, htrees]
    rfl
  have hwhole :
    (mk .grammar ⟨false, true⟩).transcript [.line "/tree on", .line "/tree maybe", .line "! nil"] =
      [banner, .say "Parse tree: on", .warn "Usage: /tree [on|off]", .say "(! nil)", farewell] := by
    have hon : (mk .grammar ⟨false, true⟩).step (.line "/tree on") =
        (.say "Parse tree: on", mk .grammar ⟨true, true⟩) := by decide
    have hmaybe : (mk .grammar ⟨true, true⟩).step (.line "/tree maybe") =
        (.warn "Usage: /tree [on|off]", mk .grammar ⟨true, true⟩) := by decide
    rw [transcript, play_cons, hon, play_cons, hmaybe, play_cons, hentry]
    rfl
  refine ⟨hidle, hwhole, ?_⟩
  obtain ⟨-, -, herase⟩ := entries_independent (mk .grammar ⟨false, true⟩)
    [.line "/tree on", .line "/tree maybe", .line "! nil"]
  exact (herase 1 _ rfl hidle).trans (congrArg (·.eraseIdx 2) hwhole)

end Lox.Session
