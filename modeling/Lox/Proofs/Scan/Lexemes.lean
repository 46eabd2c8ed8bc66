import Lox.Proofs.Scan.Literal
/-!
# `Scan.Lexemes` — the lexeme at the head of a text is the longest one

The texts that count as lexemes are given by four rules that say nothing about how a text is
scanned. Which rule a lexeme comes under is settled by its first character, and what scanning
takes at the head of a text is the longest lexeme that the text begins with
(`lexemeAt_of_longest`). Where it takes none, the text begins with a quote that is not closed or
with a character that begins no lexeme at all.
-/
namespace Lox

/-! ## Lexemes -/

/-- Digits, and maybe a point with digits behind it. -/
inductive NumberText : List Char → Prop where
  | whole {ds : List Char} : ds ≠ [] → (∀ d ∈ ds, d.isDigit = true) → NumberText ds
  | decimal {ds es : List Char} : ds ≠ [] → (∀ d ∈ ds, d.isDigit = true) → es ≠ [] →
      (∀ e ∈ es, e.isDigit = true) →
      NumberText (ds ++ '.' :: es)

/-- What a name is made of. -/
inductive NameText : List Char → Prop where
  | intro {c : Char} {cs : List Char} : isNameStart c = true → (∀ d ∈ cs, isNameChar d = true) →
      NameText (c :: cs)

/-- The signs as they are written. -/
def SignText (w : List Char) : Prop := ∃ m ∈ Mark.signs, w = m.spelling.toList

/-- Two quotes around a text without quotes. -/
def StringText (w : List Char) : Prop := ∃ body, '"' ∉ body ∧ w = '"' :: (body ++ ['"'])

/-- The texts that are lexemes. -/
inductive LexemeText (w : List Char) : Prop where
  | string : StringText w → LexemeText w
  | number : NumberText w → LexemeText w
  | name : NameText w → LexemeText w
  | sign : SignText w → LexemeText w

/-! ## First characters -/

theorem NumberText.head {w : List Char} (h : NumberText w) :
    ∃ c cs, w = c :: cs ∧ c.isDigit = true := by
  cases h with
  | whole hne hds =>
      obtain ⟨c, cs, rfl⟩ := List.exists_cons_of_ne_nil hne
      exact ⟨c, cs, rfl, hds c List.mem_cons_self⟩
  | @decimal _ es hne hds _ _ =>
      obtain ⟨c, cs, rfl⟩ := List.exists_cons_of_ne_nil hne
      exact ⟨c, cs ++ '.' :: es, rfl, hds c List.mem_cons_self⟩

/-- A sign begins with a character that begins nothing else. -/
theorem SignText.head {w : List Char} (h : SignText w) :
    ∃ c cs, w = c :: cs ∧ c ≠ '"' ∧ ¬ c.isDigit = true ∧ ¬ isNameStart c = true := by
  obtain ⟨m, hm, rfl⟩ := h
  have hheads : ∀ m ∈ Mark.signs, m.spelling.toList.head?.any
      (fun c => c != '"' && !c.isDigit && !isNameStart c) = true := by decide
  obtain ⟨c, cs, hspelling⟩ := List.exists_cons_of_length_pos (Mark.spelling_length_pos hm)
  have hhead := hheads m hm
  rw [hspelling] at hhead ⊢
  refine ⟨c, cs, rfl, ?_⟩
  simpa [and_assoc] using hhead

theorem LexemeText.ne_nil {w : List Char} (h : LexemeText w) : w ≠ [] := by
  cases h with
  | string h =>
      obtain ⟨body, -, rfl⟩ := h
      exact List.cons_ne_nil _ _
  | number h =>
      obtain ⟨c, cs, rfl, -⟩ := h.head
      exact List.cons_ne_nil _ _
  | name h =>
      cases h
      exact List.cons_ne_nil _ _
  | sign h =>
      obtain ⟨c, cs, rfl, -⟩ := h.head
      exact List.cons_ne_nil _ _

section

variable {c : Char} {cs : List Char} (h : LexemeText (c :: cs))

include h

theorem LexemeText.stringText (hc : c = '"') : StringText (c :: cs) := by
  subst hc
  cases h with
  | string h => exact h
  | number h =>
      obtain ⟨d, ds, heq, hd⟩ := h.head
      cases heq
      exact absurd hd (by decide)
  | name h =>
      cases h with
      | intro hs _ => exact absurd hs (by decide)
  | sign h =>
      obtain ⟨d, ds, heq, hquote, -⟩ := h.head
      cases heq
      exact absurd rfl hquote

theorem LexemeText.numberText (hc : c.isDigit = true) : NumberText (c :: cs) := by
  cases h with
  | string h =>
      obtain ⟨body, -, heq⟩ := h
      cases heq
      exact absurd hc (by decide)
  | number h => exact h
  | name h =>
      cases h with
      | intro hs _ => exact absurd hc (not_isDigit_of_isNameStart hs)
  | sign h =>
      obtain ⟨d, ds, heq, -, hdigit, -⟩ := h.head
      cases heq
      exact absurd hc hdigit

theorem LexemeText.nameText (hc : isNameStart c = true) : NameText (c :: cs) := by
  cases h with
  | string h =>
      obtain ⟨body, -, heq⟩ := h
      cases heq
      exact absurd hc (by decide)
  | number h =>
      obtain ⟨d, ds, heq, hd⟩ := h.head
      cases heq
      exact absurd hd (not_isDigit_of_isNameStart hc)
  | name h => exact h
  | sign h =>
      obtain ⟨d, ds, heq, -, -, hname⟩ := h.head
      cases heq
      exact absurd hc hname

theorem LexemeText.signText (hquote : c ≠ '"') (hdigit : ¬ c.isDigit = true)
    (hname : ¬ isNameStart c = true) :
    SignText (c :: cs) := by
  cases h with
  | string h =>
      obtain ⟨body, -, heq⟩ := h
      cases heq
      exact absurd rfl hquote
  | number h =>
      obtain ⟨d, ds, heq, hd⟩ := h.head
      cases heq
      exact absurd hd hdigit
  | name h =>
      cases h with
      | intro hs _ => exact absurd hs hname
  | sign h => exact h

end

/-! ## Longest -/

/-- The longest piece of a sort that the text begins with. -/
structure Longest (sort : List Char → Prop) (cs w : List Char) : Prop where
  isPrefix : w <+: cs
  holds : sort w
  le : ∀ v, v <+: cs → sort v → v.length ≤ w.length

theorem Longest.self {sort : List Char → Prop} {w : List Char} (h : sort w) : Longest sort w w :=
  ⟨List.prefix_refl w, h, fun _ hv _ => hv.length_le⟩

theorem Longest.unique {sort : List Char → Prop} {cs v w : List Char} (hv : Longest sort cs v)
    (hw : Longest sort cs w) :
    v = w := by
  have hlen : v.length = w.length :=
    Nat.le_antisymm (hw.le v hv.isPrefix hv.holds) (hv.le w hw.isPrefix hw.holds)
  exact (List.prefix_of_prefix_length_le hv.isPrefix hw.isPrefix (Nat.le_of_eq hlen)).eq_of_length hlen

/-- The longest of all pieces is the longest of its own sort. -/
theorem Longest.restrict {sort other : List Char → Prop} {cs w : List Char} (h : Longest other cs w)
    (hw : sort w) (hsort : ∀ v, sort v → other v) : Longest sort cs w :=
  ⟨h.isPrefix, hw, fun v hv hsv => h.le v hv (hsort v hsv)⟩

/-- Where a text can begin with pieces of one sort only, the longest of them is the longest of
all. -/
theorem Longest.extend {sort other : List Char → Prop} {cs w : List Char} (h : Longest sort cs w)
    (hw : other w) (hother : ∀ v, v <+: cs → other v → sort v) : Longest other cs w :=
  ⟨h.isPrefix, hw, fun v hv hov => h.le v hv (hother v hv hov)⟩

/-- A piece that holds only characters of a kind is not longer than all of those
that a text begins with. -/
theorem length_le_takeWhile {p : Char → Bool} {cs v : List Char} (hv : v <+: cs)
    (hp : ∀ c ∈ v, p c = true) :
    v.length ≤ (cs.takeWhile p).length := by
  obtain ⟨rest, rfl⟩ := hv
  rw [List.takeWhile_append_of_pos hp, List.length_append]
  exact Nat.le_add_right _ _

theorem mem_takeWhile {p : Char → Bool} {cs : List Char} {c : Char} (h : c ∈ cs.takeWhile p) :
    p c = true :=
  List.all_eq_true.mp List.all_takeWhile c h

/-! ### Strings -/

theorem lexemeAt_string {body : List Char} (h : '"' ∉ body) (rest : List Char) :
    lexemeAt ('"' :: (body ++ '"' :: rest)) = (.ok (.string (String.ofList body)),
      body.length + 2) := by
  have hbody : (body ++ '"' :: rest).takeWhile (· != '"') = body := by
    rw [List.takeWhile_append_of_pos, List.takeWhile_cons_of_neg (by decide), List.append_nil]
    intro c hc
    rw [bne_iff_ne]
    rintro rfl
    exact h hc
  have hlen : contentsLength ('"' :: (body ++ '"' :: rest)) = body.length := congrArg List.length hbody
  have hterm : isTerminated ('"' :: (body ++ '"' :: rest)) = true := by simp [isTerminated]
  have htake : ('"' :: (body ++ '"' :: rest)).take (body.length + 2) = '"' :: (body ++ ['"']) := by
    rw [List.take_succ_cons, List.take_length_add_append]
    rfl
  rw [lexemeAt_quote, if_pos hterm, hlen, htake, List.tail_cons, List.dropLast_concat]

theorem longest_string {body : List Char} (h : '"' ∉ body) (rest : List Char) :
    Longest StringText ('"' :: (body ++ '"' :: rest)) ('"' :: (body ++ ['"'])) := by
  refine ⟨⟨rest, by simp⟩, ⟨body, h, rfl⟩, ?_⟩
  rintro _ ⟨tail, heq⟩ ⟨other, hother, rfl⟩
  -- The first quote behind the opening one is where both bodies end.
  have hsame : other ++ '"' :: tail = body ++ '"' :: rest := by simpa using heq
  have hlen : other.length ≤ body.length := by
    by_contra hlt
    have hget := congrArg (·[body.length]?) hsame
    simp only [List.getElem?_append_right (Nat.le_refl _), Nat.sub_self,
      List.getElem?_cons_zero] at hget
    rw [List.getElem?_append_left (by omega)] at hget
    exact hother (List.mem_of_getElem? hget)
  simpa using hlen

/-! ### Numbers -/

theorem numberLength_append {ds rest : List Char} (hds : ∀ d ∈ ds, d.isDigit = true)
    (hrest : rest.takeWhile Char.isDigit = []) :
    numberLength (ds ++ rest) = ds.length + numberLength rest := by
  have hdrop : rest.dropWhile Char.isDigit = rest := by
    have h := List.takeWhile_append_dropWhile (l := rest) (p := Char.isDigit)
    rwa [hrest, List.nil_append] at h
  rw [numberLength, numberLength, digitsLength, digitsLength, List.takeWhile_append_of_pos hds,
    List.dropWhile_append_of_pos hds, hrest, hdrop, List.append_nil, List.length_nil, Nat.zero_add]

/-- A text that does not begin with a digit goes on with a fraction, or with nothing of a number. -/
theorem numberLength_fraction (es : List Char) :
    numberLength ('.' :: es) = if digitsLength es = 0 then 0 else 1 + digitsLength es := by
  rw [numberLength, digitsLength, List.takeWhile_cons_of_neg (by decide),
    List.dropWhile_cons_of_neg (by decide)]
  exact Nat.zero_add _

theorem numberLength_of_ne_point {c : Char} (hdigit : ¬ c.isDigit = true) (hpoint : c ≠ '.')
    (cs : List Char) :
    numberLength (c :: cs) = 0 := by
  rw [numberLength, digitsLength, List.takeWhile_cons_of_neg hdigit, List.dropWhile_cons_of_neg hdigit]
  simp [hpoint]

/-- What is taken for a number is one. -/
theorem numberText_take {c : Char} (hc : c.isDigit = true) (cs : List Char) :
    ∃ w rest, c :: cs = w ++ rest ∧ NumberText w ∧ numberLength (c :: cs) = w.length := by
  have htext := List.takeWhile_append_dropWhile (l := c :: cs) (p := Char.isDigit)
  have hne : (c :: cs).takeWhile Char.isDigit ≠ [] := by
    rw [List.takeWhile_cons_of_pos hc]
    exact List.cons_ne_nil _ _
  have hds : ∀ d ∈ (c :: cs).takeWhile Char.isDigit, d.isDigit = true := fun d hd => mem_takeWhile hd
  have hhead := List.head?_dropWhile_not Char.isDigit (c :: cs)
  generalize (c :: cs).takeWhile Char.isDigit = ds at htext hne hds
  generalize (c :: cs).dropWhile Char.isDigit = rest at htext hhead
  cases rest with
  | nil =>
      have hlen : numberLength (ds ++ []) = _ := numberLength_append hds rfl
      rw [htext] at hlen
      exact ⟨ds, [], htext.symm, .whole hne hds, hlen⟩
  | cons d es =>
      have hd : ¬ d.isDigit = true := by simpa using hhead
      have hlen := numberLength_append hds (List.takeWhile_cons_of_neg hd (l := es))
      rw [htext] at hlen
      by_cases hpoint : d = '.'
      · subst hpoint
        rw [numberLength_fraction] at hlen
        by_cases hes : digitsLength es = 0
        · rw [if_pos hes] at hlen
          exact ⟨ds, '.' :: es, htext.symm, .whole hne hds, hlen⟩
        · rw [if_neg hes] at hlen
          refine ⟨ds ++ '.' :: es.takeWhile Char.isDigit, es.dropWhile Char.isDigit, ?_, ?_, ?_⟩
          · rw [List.append_assoc, List.cons_append, List.takeWhile_append_dropWhile, htext]
          · refine .decimal hne hds ?_ (fun e he => mem_takeWhile he)
            intro hnil
            exact hes (congrArg List.length hnil)
          · rw [hlen, List.length_append, List.length_cons, digitsLength, Nat.add_comm 1]
      · rw [numberLength_of_ne_point hd hpoint] at hlen
        exact ⟨ds, d :: es, htext.symm, .whole hne hds, hlen⟩

/-- No number that a text begins with is longer than what is taken. -/
theorem length_le_numberLength {cs v : List Char} (hv : v <+: cs) (h : NumberText v) :
    v.length ≤ numberLength cs := by
  cases h with
  | whole _ hds => exact Nat.le_trans (length_le_takeWhile hv hds) (Nat.le_add_right _ _)
  | @decimal ds es hne hds hes hdigits =>
      obtain ⟨rest, rfl⟩ := hv
      have hle : es.length ≤ digitsLength (es ++ rest) :=
        length_le_takeWhile (List.prefix_append es rest) hdigits
      have hpos := List.length_pos_iff.mpr hes
      rw [List.append_assoc, List.cons_append, numberLength_append hds
        (List.takeWhile_cons_of_neg (by decide)),
        numberLength_fraction, if_neg (by omega), List.length_append, List.length_cons]
      omega

theorem exists_longest_number {c : Char} (hc : c.isDigit = true) (cs : List Char) :
    ∃ w, Longest NumberText (c :: cs) w ∧ lexemeAt (c :: cs) = (numberMeaning w, w.length) := by
  obtain ⟨w, rest, htext, hw, hlen⟩ := numberText_take hc cs
  refine ⟨w, ⟨⟨rest, htext.symm⟩, hw, fun v hv h => ?_⟩, ?_⟩
  · rw [← hlen]
    exact length_le_numberLength hv h
  · rw [lexemeAt_digit hc, hlen, htext, List.take_left]

theorem lexemeAt_number {cs w : List Char} (h : Longest NumberText cs w) :
    lexemeAt cs = (numberMeaning w, w.length) := by
  obtain ⟨c, v, rfl, hc⟩ := h.holds.head
  obtain ⟨rest, rfl⟩ := h.isPrefix
  obtain ⟨u, hu, hlex⟩ := exists_longest_number hc (v ++ rest)
  rw [hu.unique h] at hlex
  exact hlex

/-! ### Names -/

theorem exists_longest_name {c : Char} (hc : isNameStart c = true) (cs : List Char) :
    ∃ w, Longest NameText (c :: cs) w ∧ lexemeAt (c :: cs) = (.ok (nameMeaning w), w.length) := by
  refine ⟨(c :: cs).takeWhile isNameChar, ⟨List.takeWhile_prefix _, ?_, ?_⟩, ?_⟩
  · rw [List.takeWhile_cons_of_pos (Cursor.isNameChar_of_isNameStart hc)]
    exact .intro hc fun d hd => mem_takeWhile hd
  · rintro v hv ⟨hd, hds⟩
    apply length_le_takeWhile hv
    intro e he
    rcases List.mem_cons.mp he with rfl | he
    · exact Cursor.isNameChar_of_isNameStart hd
    · exact hds e he
  · rw [lexemeAt_nameStart hc, nameLength, take_takeWhile]

theorem lexemeAt_name {cs w : List Char} (h : Longest NameText cs w) :
    lexemeAt cs = (.ok (nameMeaning w), w.length) := by
  obtain ⟨hc, -⟩ := h.holds
  obtain ⟨rest, rfl⟩ := h.isPrefix
  obtain ⟨u, hu, hlex⟩ := exists_longest_name hc _
  rw [hu.unique h] at hlex
  exact hlex

/-! ### Signs -/

/-- The sign at the head of a text is the longest: longer ones are tried first. -/
theorem longest_sign {cs : List Char} {m : Mark} (h : Mark.signAt? cs = some m) :
    Longest SignText cs m.spelling.toList := by
  have horder : Mark.signs.Pairwise fun a b => b.spelling.toList.length ≤
      a.spelling.toList.length := by decide
  have hmem : m ∈ Mark.signs := List.mem_of_find?_eq_some h
  obtain ⟨hfits, before, behind, hsigns, hbefore⟩ := List.find?_eq_some_iff_append.mp h
  refine ⟨List.isPrefixOf_iff_prefix.mp hfits, ⟨m, hmem, rfl⟩, ?_⟩
  rintro _ hv ⟨m', hm', rfl⟩
  rw [hsigns] at horder hm'
  rcases List.mem_append.mp hm' with hm' | hm'
  · have hnot := hbefore m' hm'
    rw [List.isPrefixOf_iff_prefix.mpr hv] at hnot
    cases hnot
  · rcases List.mem_cons.mp hm' with rfl | hm'
    · exact Nat.le_refl _
    · exact List.rel_of_pairwise_cons (List.pairwise_append.mp horder).2.1 hm'

/-- A text that begins with a sign has one at its head. -/
theorem exists_signAt? {cs v : List Char} (hv : v <+: cs) (h : SignText v) :
    ∃ m, Mark.signAt? cs = some m := by
  obtain ⟨m, hm, rfl⟩ := h
  exact Option.isSome_iff_exists.mp (List.find?_isSome.mpr ⟨m, hm, List.isPrefixOf_iff_prefix.mpr hv⟩)

theorem lexemeAt_sign {cs : List Char} {m : Mark} (hm : m ∈ Mark.signs)
    (h : Longest SignText cs m.spelling.toList) :
    lexemeAt cs = (.ok (.mark m), m.spelling.toList.length) := by
  have hinjective : ∀ a ∈ Mark.signs, ∀ b ∈ Mark.signs, a.spelling.toList = b.spelling.toList →
      a = b := by decide
  obtain ⟨m', hm'⟩ := exists_signAt? h.isPrefix h.holds
  obtain rfl : m' = m := hinjective m' (List.mem_of_find?_eq_some hm') m hm
    ((longest_sign hm').unique h)
  obtain ⟨c, v, hspelling, hquote, hdigit, hname⟩ := h.holds.head
  obtain ⟨rest, rfl⟩ := h.isPrefix
  rw [hspelling, List.cons_append, lexemeAt_other hquote hdigit
    hname, ← List.cons_append, ← hspelling, hm']

/-- The first character of a sign is a sign. -/
theorem SignText.singleton {c : Char} {cs : List Char} (h : SignText (c :: cs)) : SignText [c] := by
  have hheads : ∀ m ∈ Mark.signs, ∃ m' ∈ Mark.signs, m.spelling.toList.take 1 =
      m'.spelling.toList := by decide
  obtain ⟨m, hm, hspelling⟩ := h
  obtain ⟨m', hm', hhead⟩ := hheads m hm
  rw [← hspelling] at hhead
  exact ⟨m', hm', hhead⟩

/-! ## The head of a text -/

/-- What is taken at the head of a text is the longest lexeme there, and stands for
what it stands for alone. -/
theorem lexemeAt_of_longest {cs w : List Char} (h : Longest LexemeText cs w) :
    lexemeAt cs = ((lexemeAt w).1, w.length) := by
  cases h.holds with
  | string hw =>
      obtain ⟨body, hbody, rfl⟩ := hw
      obtain ⟨rest, rfl⟩ := h.isPrefix
      rw [List.cons_append, List.append_assoc, List.singleton_append, lexemeAt_string hbody,
        lexemeAt_string hbody]
      simp
  | number hw => rw [lexemeAt_number (h.restrict hw fun _ => .number), lexemeAt_number (.self hw)]
  | name hw => rw [lexemeAt_name (h.restrict hw fun _ => .name), lexemeAt_name (.self hw)]
  | sign hw =>
      obtain ⟨m, hm, rfl⟩ := hw
      rw [lexemeAt_sign hm (h.restrict ⟨m, hm, rfl⟩ fun _ => .sign),
        lexemeAt_sign hm (.self ⟨m, hm, rfl⟩)]

theorem lexemeAt_unclosed {body : List Char} (h : '"' ∉ body) :
    lexemeAt ('"' :: body) = (.error .unterminatedString, body.length + 1) := by
  have hbody : body.takeWhile (· != '"') = body := by
    rw [List.takeWhile_eq_self_iff]
    intro c hc
    rw [bne_iff_ne]
    rintro rfl
    exact h hc
  have hlen : contentsLength ('"' :: body) = body.length := congrArg List.length hbody
  have hterm : ¬ isTerminated ('"' :: body) = true := by simpa [isTerminated] using h
  rw [lexemeAt_quote, if_neg hterm, hlen]

/-- What a text begins with, and what that stands for: its longest lexeme, or a quote that is never
closed, or a character that begins no lexeme. -/
inductive Head (cs : List Char) : Except ScanError.Cause Meaning → List Char → Prop where
  | lexeme {w : List Char} : Longest LexemeText cs w → Head cs (lexemeAt w).1 w
  | unclosed {body : List Char} : cs = '"' :: body → '"' ∉ body →
      Head cs (.error .unterminatedString) ('"' :: body)
  | alien {c : Char} {rest : List Char} : cs = c :: rest → (∀ w, LexemeText w → w.head? ≠ some c) →
      Head cs (.error (.unexpected (some c))) [c]

theorem Longest.head {cs w : List Char} (h : Longest LexemeText cs w) :
    Head cs (lexemeAt cs).1 (cs.take (lexemeAt cs).2) := by
  rw [lexemeAt_of_longest h, ← List.prefix_iff_eq_take.mp h.isPrefix]
  exact .lexeme h

/-- Every text begins with what is taken at its head. -/
theorem head_lexemeAt {cs : List Char} (hne : cs ≠ []) :
    Head cs (lexemeAt cs).1 (cs.take (lexemeAt cs).2) := by
  obtain ⟨c, ds, rfl⟩ := List.exists_cons_of_ne_nil hne
  -- A lexeme at the head begins with `c`, which settles its sort.
  have hfirst : ∀ {v}, v <+: c :: ds → LexemeText v → ∃ u, v = c :: u := by
    intro v hv hlex
    obtain ⟨d, u, rfl⟩ := List.exists_cons_of_ne_nil hlex.ne_nil
    obtain ⟨rfl, -⟩ := List.cons_prefix_cons.mp hv
    exact ⟨u, rfl⟩
  by_cases hquote : c = '"'
  · subst hquote
    by_cases hclosed : '"' ∈ ds
    · obtain ⟨body, rest, rfl, hbody⟩ := List.eq_append_cons_of_mem hclosed
      refine ((longest_string hbody rest).extend (.string ⟨body, hbody, rfl⟩) ?_).head
      intro v hv hlex
      obtain ⟨u, rfl⟩ := hfirst hv hlex
      exact hlex.stringText rfl
    · rw [lexemeAt_unclosed hclosed, ← List.length_cons, List.take_length]
      exact .unclosed rfl hclosed
  by_cases hdigit : c.isDigit = true
  · obtain ⟨w, hw, -⟩ := exists_longest_number hdigit ds
    refine (hw.extend (.number hw.holds) ?_).head
    intro v hv hlex
    obtain ⟨u, rfl⟩ := hfirst hv hlex
    exact hlex.numberText hdigit
  by_cases hname : isNameStart c = true
  · obtain ⟨w, hw, -⟩ := exists_longest_name hname ds
    refine (hw.extend (.name hw.holds) ?_).head
    intro v hv hlex
    obtain ⟨u, rfl⟩ := hfirst hv hlex
    exact hlex.nameText hname
  cases hsign : Mark.signAt? (c :: ds) with
  | some m =>
      have hw := longest_sign hsign
      refine (hw.extend (.sign hw.holds) ?_).head
      intro v hv hlex
      obtain ⟨u, rfl⟩ := hfirst hv hlex
      exact hlex.signText hquote hdigit hname
  | none =>
      rw [lexemeAt_other hquote hdigit hname, hsign]
      refine .alien rfl ?_
      intro w hlex hhead
      obtain ⟨u, rfl⟩ := List.head?_eq_some_iff.mp hhead
      have hsingle := (hlex.signText hquote hdigit hname).singleton
      obtain ⟨m, hm⟩ : ∃ m, Mark.signAt? (c :: ds) = some m := exists_signAt? ⟨ds, rfl⟩ hsingle
      rw [hsign] at hm
      cases hm

/-! ## Lexemes before a blank -/

/-- The text is empty or begins with a blank. -/
def Loose (rest : List Char) : Prop := ∀ c, rest.head? = some c → isLayoutBlank c = true

theorem loose_nil : Loose [] := by
  intro c hc
  cases hc

theorem loose_cons {c : Char} {cs : List Char} (h : isLayoutBlank c = true) : Loose (c :: cs) := by
  rintro _ ⟨⟩
  exact h

/-- A blank stands in no number, name or sign. -/
theorem not_mem_of_isLayoutBlank {c : Char} (h : isLayoutBlank c = true) :
    ¬ c.isDigit = true ∧ c ≠ '.' ∧ ¬ isNameStart c = true ∧ ¬ isNameChar c = true ∧
      ∀ m ∈ Mark.signs, m.spelling.toList.contains c = false := by
  simp only [isLayoutBlank, Bool.or_eq_true, beq_iff_eq] at h
  obtain ((rfl | rfl) | rfl) | rfl := h
  all_goals decide

/-- Only a string holds blanks. -/
theorem LexemeText.stringText_of_mem {w : List Char} (h : LexemeText w) {c : Char}
    (hc : isLayoutBlank c = true) (hmem : c ∈ w) : StringText w := by
  obtain ⟨hdigit, hpoint, hstart, hname, hsign⟩ := not_mem_of_isLayoutBlank hc
  cases h with
  | string h => exact h
  | number h =>
      cases h with
      | whole _ hds => exact absurd (hds c hmem) hdigit
      | decimal _ hds _ hes =>
          rcases List.mem_append.mp hmem with hmem | hmem
          · exact absurd (hds c hmem) hdigit
          rcases List.mem_cons.mp hmem with rfl | hmem
          · exact absurd rfl hpoint
          · exact absurd (hes c hmem) hdigit
  | name h =>
      cases h with
      | intro hd hds =>
          rcases List.mem_cons.mp hmem with rfl | hmem
          · exact absurd hd hstart
          · exact absurd (hds c hmem) hname
  | sign h =>
      obtain ⟨m, hm, rfl⟩ := h
      have hnot := hsign m hm
      rw [List.contains_iff_mem.mpr hmem] at hnot
      cases hnot

/-- A lexeme does not go on behind a blank. -/
theorem LexemeText.longest_append {w rest : List Char} (h : LexemeText w) (hrest : Loose rest) :
    Longest LexemeText (w ++ rest) w := by
  refine ⟨List.prefix_append w rest, h, ?_⟩
  intro v hv hlex
  by_contra hlt
  -- A longer lexeme would hold the blank behind `w`, hence be a string, and so would be `w`.
  obtain ⟨u, rfl⟩ : w <+: v := List.prefix_of_prefix_length_le (List.prefix_append w rest) hv (by omega)
  have hu : u <+: rest := (List.prefix_append_right_inj w).mp hv
  obtain ⟨c, us, rfl⟩ : ∃ c us, u = c :: us := by
    cases u with
    | nil => simp at hlt
    | cons c us => exact ⟨c, us, rfl⟩
  obtain ⟨more, rfl⟩ := hu
  have hstring := hlex.stringText_of_mem (hrest c rfl) (by simp)
  obtain ⟨d, ds, rfl⟩ := List.exists_cons_of_ne_nil h.ne_nil
  have hquote : d = '"' := by
    obtain ⟨body, -, heq⟩ := hstring
    exact (List.cons.inj heq).1
  obtain ⟨body, hbody, hw⟩ := h.stringText hquote
  have hlongest := longest_string hbody (c :: us ++ more)
  have htext : d :: ds ++ (c :: us ++ more) = '"' :: (body ++ '"' :: (c :: us ++ more)) := by
    rw [hw]
    simp
  rw [← htext, ← hw] at hlongest
  exact hlt (hlongest.le _ hv hstring)

/-- Neither is a lexeme taken for layout. -/
theorem LexemeText.layoutLength_append {w rest : List Char} (h : LexemeText w) (hrest : Loose rest) :
    layoutLength false (w ++ rest) = 0 := by
  obtain ⟨c, cs, rfl⟩ := List.exists_cons_of_ne_nil h.ne_nil
  refine layoutLength_eq_zero.mpr ⟨?_, ?_⟩
  · cases hblank : isLayoutBlank c with
    | false => rfl
    | true =>
        obtain ⟨body, -, heq⟩ := h.stringText_of_mem hblank List.mem_cons_self
        cases heq
        cases hblank
  · rw [← Bool.not_eq_true]
    intro hcomment
    obtain ⟨more, hmore⟩ := List.isPrefixOf_iff_prefix.mp hcomment
    obtain ⟨rfl, htail⟩ := List.cons.inj hmore
    -- The lexeme is a slash and no more, so the second slash would have to be the blank.
    have hslash : ∀ m ∈ Mark.signs, m.spelling.toList.head? = some '/' →
        m.spelling.toList = ['/'] := by decide
    obtain ⟨m, hm, hspelling⟩ := h.signText (by decide) (by decide) (by decide)
    have hsingle := hslash m hm (by rw [← hspelling]; rfl)
    rw [← hspelling] at hsingle
    cases hsingle
    have hrest' : rest = '/' :: more := htail.symm
    exact absurd (hrest '/' (by rw [hrest']; rfl)) (by decide)

/-- A lexeme that nothing or a blank follows is an item by itself. -/
theorem itemsFrom_lexemeText {w rest : List Char} (h : LexemeText w) (hrest : Loose rest) (p : Place) :
    itemsFrom (w ++ rest) p = itemOf p w (lexemeAt w).1 :: itemsFrom rest (p.after w) := by
  have hne : w ++ rest ≠ [] := by
    intro hnil
    exact h.ne_nil (List.append_eq_nil_iff.mp hnil).1
  rw [itemsFrom_lexeme hne (h.layoutLength_append hrest),
    lexemeAt_of_longest (h.longest_append hrest), List.take_left,
    List.drop_left]

/-- What a lexeme scans to alone. -/
theorem scan_lexemeText {w : List Char} (h : LexemeText w) :
    scan (String.ofList w) = [itemOf .origin w (lexemeAt w).1] := by
  have hitems := itemsFrom_lexemeText h loose_nil .origin
  rw [List.append_nil, itemsFrom_nil] at hitems
  rw [scan_eq, String.toList_ofList]
  exact hitems

end Lox
