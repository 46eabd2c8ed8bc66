import Lox.Proofs.Descent.Linked
import Lox.Proofs.Scan.Munch
/-!
# `Descent.Spacing` — layout does not matter

The lexemes of a text may be written with other blanks and comments between them: as long as a blank
or the end of the text follows each of them, none merges with what comes behind it, and the same
tokens are read. What differs is where they are, and parsers do not look at that; two runs on the
two texts go side by side.
-/
namespace Lox

/-! ## Trivia -/

/-- The characters that only separate. -/
def blanks : List Char := [' ', '\t', '\r', '\n']

theorem isLayoutBlank_of_mem {c : Char} (h : c ∈ blanks) : isLayoutBlank c = true := by
  simp only [blanks, List.mem_cons, List.not_mem_nil, or_false] at h
  obtain rfl | rfl | rfl | rfl := h
  all_goals rfl

/-- Blanks and comments that end with their line. -/
inductive Trivia : List Char → Prop where
  | nil : Trivia []
  | blank {c : Char} {gap : List Char} : c ∈ blanks → Trivia gap → Trivia (c :: gap)
  | comment {line gap : List Char} : '\n' ∉ line → Trivia gap →
      Trivia ('/' :: '/' :: (line ++ '\n' :: gap))

/-- Trivia before a text are skipped. -/
theorem Trivia.itemsFrom_append {gap : List Char} (h : Trivia gap) (cs : List Char) (p : Place) :
    itemsFrom (gap ++ cs) p = itemsFrom cs (p.after gap) := by
  induction h generalizing p with
  | nil => rfl
  | @blank c gap hc _ ih =>
      rw [List.cons_append, itemsFrom_blank (isLayoutBlank_of_mem hc), ih]
      rfl
  | @comment line gap hline _ ih =>
      -- The comment ends before its line feed, which is a blank.
      have htext : '/' :: '/' :: (line ++ '\n' :: gap) ++ cs =
          '/' :: '/' :: (line ++ '\n' :: (gap ++ cs)) := by simp
      have hpos : ∀ c ∈ line, (c != '\n') = true := by
        intro c hc
        rw [bne_iff_ne]
        rintro rfl
        exact hline hc
      rw [htext, itemsFrom_comment, List.takeWhile_append_of_pos hpos,
        List.dropWhile_append_of_pos hpos,
        List.takeWhile_cons_of_neg (by decide), List.dropWhile_cons_of_neg (by decide),
        itemsFrom_blank (isLayoutBlank_of_mem (by decide)), ih,
        List.append_nil, ← Place.after_concat, ← Place.after_append]
      simp

/-! ## Lexemes with gaps behind them -/

/-- The lexemes, each one with its gap behind it. -/
def weave : List String → List (List Char) → List Char
  | lexeme :: lexemes, gap :: gaps => lexeme.toList ++ (gap ++ weave lexemes gaps)
  | _, _ => []

/-- Gaps that keep lexemes apart: a blank begins each of them, and only the last one may be
empty. -/
structure Spacing (gaps : List (List Char)) : Prop where
  trivia : ∀ gap ∈ gaps, Trivia gap
  loose : ∀ gap ∈ gaps, ∀ c, gap.head? = some c → c ∈ blanks
  apart : ∀ gap ∈ gaps.dropLast, gap ≠ []

theorem Spacing.tail {gap : List Char} {gaps : List (List Char)} (h : Spacing (gap :: gaps)) :
    Spacing gaps := by
  refine ⟨fun g hg => h.trivia g (List.mem_cons_of_mem _ hg), fun g hg =>
    h.loose g (List.mem_cons_of_mem _ hg), ?_⟩
  intro g hg
  cases gaps with
  | nil => cases hg
  | cons gap' gaps => exact h.apart g (List.mem_cons_of_mem _ hg)

theorem Spacing.loose_append {gap : List Char} {gaps : List (List Char)} (h : Spacing (gap :: gaps))
    (lexemes : List String) : Loose (gap ++ weave lexemes gaps) := by
  cases gap with
  | cons c gap => exact loose_cons (isLayoutBlank_of_mem (h.loose _ List.mem_cons_self c rfl))
  | nil =>
      cases gaps with
      | nil =>
          have hnil : weave lexemes [] = [] := by cases lexemes <;> rfl
          rw [hnil]
          exact loose_nil
      | cons gap' gaps => exact absurd rfl (h.apart [] List.mem_cons_self)

/-- The tokens are the same, wherever they are. -/
def SameToken (t u : Token) : Prop := t.meaning = u.meaning ∧ t.lexeme = u.lexeme

/-- The text of the token is a lexeme, and stands for what the token does. -/
def Token.Spelled (t : Token) : Prop :=
  LexemeText t.lexeme.toList ∧ (lexemeAt t.lexeme.toList).1 = .ok t.meaning

/-- The tokens of a text are spelled by their lexemes. -/
theorem spelled_of_mem_scan {s : String} {t : Token} (h : .ok t ∈ scan s) : t.Spelled := by
  obtain ⟨-, hfits⟩ := (tokenisation_scan s).fits (.ok t) h
  obtain ⟨hlongest, hscan⟩ := hfits.describes
  refine ⟨hlongest.holds, ?_⟩
  -- What the lexeme alone is scanned to says what it stands for.
  have hword := scan_lexemeText hlongest.holds
  rw [String.ofList_toList] at hword
  rw [hword] at hscan
  cases hresult : (lexemeAt t.lexeme.toList).1 with
  | ok m =>
      rw [hresult] at hscan
      exact congrArg (Except.ok ·.meaning) (Except.ok.inj (List.cons.inj hscan).1)
  | error cause =>
      rw [hresult] at hscan
      cases hscan

/-- Lexemes that are kept apart are read as the same tokens. -/
theorem itemsFrom_weave {ts : List Token} {gaps : List (List Char)} (hts : ∀ t ∈ ts, t.Spelled)
    (hgaps : Spacing gaps) (hlen : gaps.length = ts.length) (p : Place) :
    ∃ us : List Token, itemsFrom (weave (ts.map Token.lexeme) gaps) p = us.map .ok ∧
    List.Forall₂ SameToken ts us := by
  induction ts generalizing gaps p with
  | nil => exact ⟨[], itemsFrom_nil p, .nil⟩
  | cons t ts ih =>
      cases gaps with
      | nil => cases hlen
      | cons gap gaps =>
          obtain ⟨hlexeme, hmeaning⟩ := hts t List.mem_cons_self
          obtain ⟨us, hus, hsame⟩ := ih (fun u hu => hts u (List.mem_cons_of_mem _ hu)) hgaps.tail
            (Nat.succ.inj hlen) ((p.after t.lexeme.toList).after gap)
          refine ⟨⟨t.meaning, p, t.lexeme⟩ :: us, ?_, .cons ⟨rfl, rfl⟩ hsame⟩
          show itemsFrom (t.lexeme.toList ++ (gap ++ weave (ts.map Token.lexeme) gaps)) p = _
          rw [itemsFrom_lexemeText hlexeme (hgaps.loose_append _), hmeaning,
            (hgaps.trivia gap List.mem_cons_self).itemsFrom_append, hus]
          show Except.ok ⟨t.meaning, p, String.ofList t.lexeme.toList⟩ :: us.map Except.ok = _
          rw [String.ofList_toList, List.map_cons]

/-- Tokens of a text, written with other trivia before them and between them, are read again. -/
theorem scan_weave {s s' : String} {ts : List Token} {first : List Char} {gaps : List (List Char)}
    (hscan : scan s = ts.map .ok) (hfirst : Trivia first) (hgaps : Spacing gaps)
    (hlen : gaps.length = ts.length) (htext : s'.toList = first ++ weave (ts.map Token.lexeme) gaps) :
    ∃ us : List Token, scan s' = us.map .ok ∧ List.Forall₂ SameToken ts us := by
  have hts : ∀ t ∈ ts, t.Spelled := by
    intro t ht
    apply spelled_of_mem_scan (s := s)
    rw [hscan]
    exact List.mem_map_of_mem ht
  obtain ⟨us, hus, hsame⟩ := itemsFrom_weave hts hgaps hlen (Place.origin.after first)
  refine ⟨us, ?_, hsame⟩
  rw [scan_eq, htext, hfirst.itemsFrom_append]
  exact hus

/-! ## Parsing the two texts -/

namespace Descent

variable {α : Type} {s s' : String} {ts us : List Token}

/-- The tokens are the same, and stand at the same index of the two lists or are both the end of
input. -/
structure Counterpart (ts us : List Token) (t u : Token) : Prop where
  same : SameToken t u
  index : (∃ i : Nat, ts[i]? = some t ∧ us[i]? = some u) ∨ (t.isEnd = true ∧ u.isEnd = true)

theorem counterpart_of_same (h : List.Forall₂ SameToken ts us) :
    List.Forall₂ (Counterpart ts us) ts us := by
  obtain ⟨hlen, hget⟩ := List.forall₂_iff_get.mp h
  refine List.forall₂_iff_get.mpr ⟨hlen, fun i hi hi' => ⟨hget i hi hi', .inl ⟨i, ?_, ?_⟩⟩⟩
  · exact List.getElem?_eq_getElem hi
  · exact List.getElem?_eq_getElem hi'

/-- The places are behind counterparts, or both are where the texts begin. -/
def CounterpartPlace (ts us : List Token) (p q : Place) : Prop :=
  (p = .origin ∧ q = .origin) ∨ ∃ t u, Counterpart ts us t u ∧ p = t.behind ∧ q = u.behind

/-- Reading both texts gives the same result, or errors of the same class and text at
counterparts. -/
inductive SameOutcome (ts us : List Token) : Except Error α → Except Error α → Prop where
  | ok (a : α) : SameOutcome ts us (.ok a) (.ok a)
  | error {e e' : Error} {t u : Token} : e.tag = e'.tag → e.text = e'.text → e.token? = some t →
      e'.token? = some u →
      Counterpart ts us t u → SameOutcome ts us (.error e) (.error e')
  | tooDeep {p q : Place} : CounterpartPlace ts us p q →
      SameOutcome ts us (.error (.tooDeep p)) (.error (.tooDeep q))

/-- Errors that are alike say the same, of counterparts. -/
theorem SameOutcome.of_alike {e e' : Error}
    (h : e.Alike (Counterpart ts us) (fun _ _ => False) (CounterpartPlace ts us) e') :
    SameOutcome ts us (.error e : Except Error α) (.error e') := by
  cases h with
  | lexical h => exact h.elim
  | @missing t u k note h =>
      have hkind := congrArg Meaning.kind h.same.1
      have hend : t.isEnd = u.isEnd := congrArg (· == Kind.endOfInput) hkind
      refine .error ?_ ?_ rfl rfl h
      · simp only [Error.tag, hend]
      · simp only [Error.text, Token.kind, hkind]
  | noOperand h =>
      have hkind := congrArg Meaning.kind h.same.1
      refine .error ?_ ?_ rfl rfl h
      · simp only [Error.tag, Token.kind, hkind]
      · simp only [Error.text, Token.kind, hkind, h.same.2]
  | trailing h =>
      refine .error rfl ?_ rfl rfl h
      simp only [Error.text, h.same.2]
  | tooDeep h => exact .tooDeep h

/-- Texts with the same tokens have streams that are alike. -/
theorem alike_ofText (hs : scan s = ts.map .ok) (hs' : scan s' = us.map .ok)
    (h : List.Forall₂ SameToken ts us) :
    Stream.Alike (Counterpart ts us) (fun _ _ => False) (CounterpartPlace ts us) (.ofText s)
      (.ofText s') := by
  obtain ⟨hahead, hfault⟩ := ofText_of_scan hs
  obtain ⟨hahead', hfault'⟩ := ofText_of_scan hs'
  refine ⟨.none, ?_, ?_, .inl ⟨rfl, rfl⟩, ⟨rfl, rfl⟩, .inr ⟨rfl, rfl⟩⟩
  · rw [hahead, hahead']
    exact counterpart_of_same h
  · rw [hfault, hfault']
    exact .none

/-- What keeps every lawful link has the same outcome on texts with the same tokens,
and leaves as many of them. -/
theorem sameOutcome_runOn {p : Nat → Parser α}
    (hp : ∀ {L : Link}, L.Lawful → ∀ rounds, L.Keeps Eq (p rounds) (p rounds))
    (hs : scan s = ts.map .ok) (hs' : scan s' = us.map .ok) (h : List.Forall₂ SameToken ts us) :
    SameOutcome ts us (runOn p (.ofText s)).1 (runOn p (.ofText s')).1 ∧
      (runOn p (.ofText s)).2.ahead.length = (runOn p (.ofText s')).2.ahead.length := by
  have halike := alike_ofText hs hs' h
  -- There are as many tokens in both texts, so both runs have the same number of rounds.
  have hsize : (Stream.ofText s).size = (Stream.ofText s').size :=
    congrArg (· + 1) halike.ahead.length_eq
  have hends := hp (lawful_alike (fun h => h.same) fun h => .inr ⟨_, _, h, rfl, rfl⟩)
    ((Stream.ofText s).size + 1) _ _ halike
  unfold runOn
  rw [← hsize]
  generalize (p ((Stream.ofText s).size + 1)).run (.ofText s) = r at hends
  generalize (p ((Stream.ofText s).size + 1)).run (.ofText s') = r' at hends
  cases hends with
  | ok hab hstream =>
      subst hab
      exact ⟨.ok _, hstream.ahead.length_eq⟩
  | error he => exact ⟨.of_alike he.1, he.2.ahead.length_eq⟩

/-- Layout does not matter: the lexemes of a text without faults, written with any trivia that keep
them apart, are read as the same tokens. Both texts parse to the same trees or fail with the same
error at the same token, and reading comes equally far in them, also where they nest too deeply. -/
theorem layout_irrelevant {s s' : String} {ts : List Token} {first : List Char}
    {gaps : List (List Char)} (hscan : scan s = ts.map .ok) (hfirst : Trivia first)
    (hgaps : Spacing gaps) (hlen : gaps.length = ts.length)
    (htext : s'.toList = first ++ weave (ts.map Token.lexeme) gaps) :
    ∃ us : List Token, scan s' = us.map .ok ∧ List.Forall₂ SameToken ts us ∧
      SameOutcome ts us (parseProgram s) (parseProgram s') ∧
      SameOutcome ts us (parseExpr s) (parseExpr s') ∧
      (runOn (program · parseRoom) (.ofText s)).2.ahead.length =
        (runOn (program · parseRoom) (.ofText s')).2.ahead.length ∧
      (runOn (wholeExpression · parseRoom) (.ofText s)).2.ahead.length =
        (runOn (wholeExpression · parseRoom) (.ofText s')).2.ahead.length := by
  obtain ⟨us, hus, hsame⟩ := scan_weave hscan hfirst hgaps hlen htext
  have hprogram := sameOutcome_runOn (fun hL rounds => hL.program rounds parseRoom) hscan hus hsame
  have hexpr := sameOutcome_runOn (fun hL rounds => hL.wholeExpression rounds parseRoom) hscan hus hsame
  exact ⟨us, hus, hsame, hprogram.1, hexpr.1, hprogram.2, hexpr.2⟩

/-- Slashes and a line feed in a string, and comments in the gaps around it. -/
theorem layout_irrelevant_string : ∃ ts us : List Token, scan "\"//\n\"==a" = ts.map .ok ∧
    scan "// first\n\"//\n\"\t==\r// second\na" = us.map .ok ∧ List.Forall₂ SameToken ts us ∧
    SameOutcome ts us (parseExpr "\"//\n\"==a") (parseExpr "// first\n\"//\n\"\t==\r// second\na") := by
  have hscan :
    scan "\"//\n\"==a" = [⟨.string "//\n", ⟨0, 1, 1⟩, "\"//\n\""⟩, ⟨.mark .equal, ⟨5, 2, 2⟩, "=="⟩,
      ⟨.identifier "a", ⟨7, 2, 4⟩, "a"⟩].map .ok := by cbv
  have hline (text : String) (h : '\n' ∉ text.toList) :
      Trivia ('/' :: '/' :: (text.toList ++ ['\n'])) := .comment h .nil
  have hfirst : Trivia "// first\n".toList := hline " first" (by decide)
  have hgaps : Spacing ["\t".toList, "\r// second\n".toList, []] := by
    refine ⟨?_, by simp [blanks], by simp⟩
    intro gap hgap
    simp only [List.mem_cons, List.not_mem_nil, or_false] at hgap
    obtain rfl | rfl | rfl := hgap
    · exact .blank (by decide) .nil
    · exact .blank (by decide) (hline " second" (by decide))
    · exact .nil
  have htext : "// first\n\"//\n\"\t==\r// second\na".toList = _ := rfl
  obtain ⟨us, hus, hsame, -, hexpr, -⟩ := layout_irrelevant hscan hfirst hgaps rfl htext
  exact ⟨_, us, hscan, hus, hsame, hexpr⟩

end Descent
end Lox
