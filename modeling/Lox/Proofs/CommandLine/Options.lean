import Lox.CommandLine
import Mathlib
/-!
# `CommandLine.Options` — options may stand anywhere

Arguments that do not ask for help come in a row: `--tree`, the choice of a front end in one of its
two spellings, and the operands. The value of a choice belongs to it whatever it looks like, so that
reading goes along the row and never takes a value for an option, or an option for a value
(`readArguments_argument`). What is left behind the row are its last choice, whether `--tree` is in
it, and its operands in their order (`readArguments_words`). A row that is rearranged without
changing these asks for the same (`options_commute`).
-/
namespace Lox.CommandLine

/-! ## Rows of arguments -/

/-- The word is neither an option nor a request for help. -/
structure IsOperand (word : String) : Prop where
  ne_tree : word ≠ "--tree"
  ne_choice : word ≠ "--parser"
  not_joined : ∀ value, word ≠ "--parser=" ++ value
  not_help : word ≠ "-h" ∧ word ≠ "--help"

/-- How a choice is written: its value behind an equals sign, or as a word of its own. -/
inductive Spelling where
  | joined
  | separate
  deriving DecidableEq

/-- An argument, with the value that belongs to it. -/
inductive Argument where
  | tree
  | choice (spelling : Spelling) (value : String)
  | operand (word : String) (h : IsOperand word)

namespace Argument

/-- The words that an argument is written as. -/
def words : Argument → List String
  | tree => ["--tree"]
  | choice .joined value => ["--parser=" ++ value]
  | choice .separate value => ["--parser", value]
  | operand word _ => [word]

/-- Is the argument `--tree`? -/
def isTree : Argument → Bool
  | tree => true
  | _ => false

/-- The value of a choice. -/
def value? : Argument → Option String
  | choice _ value => some value
  | _ => none

/-- The word of an operand. -/
def word? : Argument → Option String
  | operand word _ => some word
  | _ => none

end Argument

/-- The words of a row of arguments. -/
def words (row : List Argument) : List String := row.flatMap Argument.words

/-- What a row of arguments makes of settings: the last choice counts, `--tree` counts wherever it
stands, and the operands are kept in order. -/
def Settings.after (s : Settings) (row : List Argument) : Settings where
  frontEnd := (row.filterMap Argument.value?).getLast?.getD s.frontEnd
  tree := s.tree || row.any Argument.isTree
  operands := (row.filterMap Argument.word?).reverse ++ s.operands

namespace Settings

theorem after_nil (s : Settings) : s.after [] = s := by simp [after]

theorem after_tree (s : Settings) : s.after [.tree] = { s with tree := true } := by
  simp [after, Argument.isTree, Argument.value?, List.filterMap_cons, Argument.word?]

theorem after_choice (s : Settings) (spelling : Spelling) (value : String) :
    s.after [.choice spelling value] = { s with frontEnd := value } := by
  simp [after, Argument.isTree, Argument.value?, List.filterMap_cons, Argument.word?]

theorem after_operand (s : Settings) (word : String) (h : IsOperand word) :
    s.after [.operand word h] = { s with operands := word :: s.operands } := by
  simp [after, Argument.isTree, Argument.value?, List.filterMap_cons, Argument.word?]

theorem after_append (s : Settings) (row row' : List Argument) :
    s.after (row ++ row') = (s.after row).after row' := by
  have hlast : ∀ l l' : List String, (l ++ l').getLast?.getD s.frontEnd =
      l'.getLast?.getD (l.getLast?.getD s.frontEnd) := by
    intro l l'
    rw [List.getLast?_append]
    cases l'.getLast? <;> rfl
  simp only [after, List.filterMap_append, hlast, List.any_append, Bool.or_assoc,
    List.reverse_append, List.append_assoc]

theorem after_cons (s : Settings) (a : Argument) (row : List Argument) :
    s.after (a :: row) = (s.after [a]).after row :=
  s.after_append [a] row

/-- Where `--tree` was met makes no difference. -/
theorem after_of_tree (s : Settings) (row : List Argument) :
    ({ s with tree := true } : Settings).after row = { s.after row with tree := true } := by
  simp [after]

/-- A choice has no effect once there is another one. -/
theorem after_of_choice (s : Settings) (row : List Argument) (value value' : String) :
    { ({ s with frontEnd := value } : Settings).after row with frontEnd := value' } =
      { s.after row with frontEnd := value' } := rfl

end Settings

/-! ## Reading a row -/

theorem joinedValue?_eq_some {a value : String} :
    joinedValue? a = some value ↔ a = "--parser=" ++ value := by
  simp only [joinedValue?]
  constructor
  · intro h
    split at h
    · rename_i hprefix
      obtain ⟨rest, hrest⟩ := List.isPrefixOf_iff_prefix.mp hprefix
      rw [← hrest, List.drop_left] at h
      apply String.toList_inj.mp
      rw [← hrest, ← Option.some.inj h]
      simp
    · cases h
  · rintro rfl
    simp

/-- A word that is not a choice by itself is read by itself. -/
theorem readArguments_cons {a : String} (h : a ≠ "--parser") (s : Settings) (rest : List String) :
    readArguments s (a :: rest) = (readArguments.readOne s a).bind (readArguments · rest) := by
  cases rest with
  | nil =>
      rw [readArguments, if_neg h]
      cases readArguments.readOne s a with
      | ok s => rfl
      | error stop => rfl
  | cons b rest =>
      rw [readArguments, if_neg h]
      rfl

/-- One argument is read with its value, and changes the settings as it alone would. -/
theorem readArguments_argument (s : Settings) (a : Argument) (rest : List String) :
    readArguments s (a.words ++ rest) = readArguments (s.after [a]) rest := by
  cases a with
  | tree =>
      show readArguments s ("--tree" :: rest) = _
      rw [readArguments_cons (by decide), readArguments.readOne, if_pos rfl, s.after_tree]
      rfl
  | choice spelling value =>
      rw [s.after_choice]
      cases spelling with
      | joined =>
          -- The joined word is no other option, whatever its value is.
          have hword : "--parser=" ++ value ≠ "--parser" ∧ "--parser=" ++ value ≠ "--tree" := by
            constructor <;> intro h <;> simpa using congrArg String.toList h
          show readArguments s (("--parser=" ++ value) :: rest) = _
          rw [readArguments_cons hword.1, readArguments.readOne, if_neg hword.2,
            joinedValue?_eq_some.mpr rfl]
          rfl
      | separate =>
          show readArguments s ("--parser" :: value :: rest) = _
          rw [readArguments, if_pos rfl]
  | operand word h =>
      have hjoined : joinedValue? word = none := by
        rw [Option.eq_none_iff_forall_ne_some]
        intro value hvalue
        exact h.not_joined value (joinedValue?_eq_some.mp hvalue)
      show readArguments s (word :: rest) = _
      rw [readArguments_cons h.ne_choice, readArguments.readOne, if_neg h.ne_tree, hjoined,
        s.after_operand]
      simp [Except.bind, h.not_help]

/-- Reading a row comes to its end, with what the row makes of the settings. -/
theorem readArguments_words (row : List Argument) (s : Settings) :
    readArguments s (words row) = .ok (s.after row) := by
  induction row generalizing s with
  | nil =>
      rw [Settings.after_nil]
      rfl
  | cons a row ih =>
      show readArguments s (a.words ++ words row) = _
      rw [readArguments_argument, ih, ← Settings.after_cons]

/-! ## Rearranging a row -/

/-- A change to a stretch of a row: a choice is written in the other way, `--tree` goes past any
argument, a choice goes past an operand, and what has no effect beside what stays is left out. -/
inductive Rewrites : List Argument → List Argument → Prop where
  | respell (spelling spelling' : Spelling) (value : String) :
      Rewrites [.choice spelling value] [.choice spelling' value]
  | exchangeTree (a : Argument) : Rewrites [.tree, a] [a, .tree]
  | exchangeChoice (spelling : Spelling) (value word : String) (h : IsOperand word) :
      Rewrites [.choice spelling value, .operand word h] [.operand word h, .choice spelling value]
  | dropFirstTree (between : List Argument) :
      Rewrites (.tree :: between ++ [.tree]) (between ++ [.tree])
  | dropLastTree (between : List Argument) : Rewrites (.tree :: between ++ [.tree]) (.tree :: between)
  | dropChoice (spelling spelling' : Spelling) (value value' : String) (between : List Argument) :
      Rewrites (.choice spelling value :: between ++ [.choice spelling' value'])
        (between ++ [.choice spelling' value'])

/-- One row comes from the other by changes to its stretches, made in either direction. -/
inductive Rearranged : List Argument → List Argument → Prop where
  | change (before : List Argument) {a b : List Argument} (behind : List Argument) :
      Rewrites a b → Rearranged (before ++ a ++ behind) (before ++ b ++ behind)
  | refl (row : List Argument) : Rearranged row row
  | symm {a b : List Argument} : Rearranged a b → Rearranged b a
  | trans {a b c : List Argument} : Rearranged a b → Rearranged b c → Rearranged a c

theorem Settings.after_rewrites {a b : List Argument} (h : Rewrites a b) (s : Settings) :
    s.after a = s.after b := by
  cases h with
  | respell spelling spelling' value => rw [after_choice, after_choice]
  | exchangeTree a => rw [after_cons, after_cons s a, after_tree, after_tree, after_of_tree]
  | exchangeChoice spelling value word h =>
      rw [after_cons, after_cons s (.operand word h), after_choice, after_choice, after_operand,
        after_operand]
  | dropFirstTree between =>
      rw [List.cons_append, after_cons, after_tree, after_of_tree, after_append, after_tree]
  | dropLastTree between => rw [after_append, after_tree, after_cons, after_tree, after_of_tree]
  | dropChoice spelling spelling' value value' between =>
      rw [after_append, after_append, after_choice, after_choice, after_cons s, after_choice,
        after_of_choice]

theorem Settings.after_rearranged {a b : List Argument} (h : Rearranged a b) (s : Settings) :
    s.after a = s.after b := by
  induction h with
  | change before behind h =>
      rw [after_append, after_append, after_rewrites h, after_append, after_append]
  | refl row => rfl
  | symm _ ih => exact ih.symm
  | trans _ _ ih ih' => exact ih.trans ih'

/-- Options commute with what stands beside them and have one meaning: a row of arguments does
what its last choice, its operands and the presence of `--tree` ask for, so that a rearranged
row ends in the same report. -/
theorem options_commute (w : World) {a b : List Argument} (h : Rearranged a b) :
    perform w (words a) = (Settings.initial.after a).request.perform w ∧
    perform w (words a) = perform w (words b) := by
  have hperform : ∀ row, perform w (words row) = (Settings.initial.after row).request.perform w := by
    intro row
    rw [perform, Request.ofArguments, readArguments_words]
  rw [hperform, hperform, Settings.after_rearranged h]
  exact ⟨rfl, rfl⟩

/-- A choice whose value looks like a request for help is overridden by a later one, which is
written in the other way, and the first of two `--tree` is left out. -/
theorem options_commute_overridden :
    perform ⟨fun _ => .error .missing, [], [], false⟩
      ["--tree", "--parser", "--help", "a=b", "--parser=lark", "--tree"] =
    perform ⟨fun _ => .error .missing, [], [], false⟩ ["a=b", "--parser", "lark", "--tree"] := by
  have hword : IsOperand "a=b" := by
    refine ⟨by decide, by decide, fun value h => ?_, by decide⟩
    simpa using congrArg String.toList h
  have hrow : Rearranged
      [.tree, .choice .separate "--help", .operand "a=b" hword, .choice .joined "lark", .tree]
      [.operand "a=b" hword, .choice .separate "lark", .tree] :=
    .trans (.change [] [] (.dropFirstTree [.choice .separate "--help", .operand "a=b" hword,
      .choice .joined "lark"]))
      (.trans (.change [] [.tree] (.dropChoice .separate .joined "--help" "lark"
        [.operand "a=b" hword]))
        (.change [.operand "a=b" hword] [.tree] (.respell .joined .separate "lark")))
  exact (options_commute _ hrow).2

end Lox.CommandLine
