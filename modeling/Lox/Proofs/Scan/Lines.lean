import Lox.Proofs.Scan.Lexemes
import Lox.Proofs.Scan.Position
/-!
# `Scan.Lines` — a text below another one

A line feed ends every lexeme but a string that is not closed, and every comment. So a text that is
put below another one is scanned as it is alone, and so is the other one, unless it leaves a string
open (`scan_below`). Only the places change: rows are counted on from the last row of the text
above, and columns stay. A string that is left open stays so until the next quote
(`closed_of_scan_below`).
-/
namespace Lox

/-! ## Moving down -/

/-- How far something is moved down: by how many characters, and by how many rows. -/
structure Displacement where
  chars : Nat
  rows : Nat

/-- How far a text moves down if it is put below another one. -/
def Displacement.below (above : List Char) : Displacement := ⟨above.length + 1, above.count '\n' + 1⟩

/-- The place, moved down. -/
def Place.moved (d : Displacement) (p : Place) : Place := ⟨p.offset + d.chars, p.row + d.rows, p.col⟩

/-- The token, moved down. -/
def Token.moved (d : Displacement) (t : Token) : Token := { t with place := t.place.moved d }

/-- The fault, moved down. -/
def ScanError.moved (d : Displacement) (e : ScanError) : ScanError :=
  { e with place := e.place.moved d }

/-- The item, moved down. -/
def movedItem (d : Displacement) : Item → Item
  | .ok t => .ok (t.moved d)
  | .error e => .error (e.moved d)

theorem Place.after_moved (d : Displacement) (p : Place) (cs : List Char) :
    (p.moved d).after cs = (p.after cs).moved d := by
  induction cs generalizing p with
  | nil => rfl
  | cons c cs ih =>
      have hstep : (p.moved d).step c = (p.step c).moved d := by
        unfold step moved
        split <;> simp [Nat.add_right_comm]
      rw [after_cons, after_cons, hstep, ih]

/-- Where the text below begins. -/
theorem Place.origin_moved (above : List Char) :
    (origin.after above).step '\n' = origin.moved (.below above) := by
  have hoffset := offset_after_origin above
  have hrow := row_after_origin above
  show Place.mk ((origin.after above).offset + 1) ((origin.after above).row + 1) 1 =
    ⟨0 + (above.length + 1), 1 + (above.count '\n' + 1), 1⟩
  rw [hoffset, hrow]
  simp [Nat.add_assoc]

theorem itemOf_moved (d : Displacement) (p : Place) (w : List Char)
    (result : Except ScanError.Cause Meaning) :
    itemOf (p.moved d) w result = movedItem d (itemOf p w result) := by
  cases result <;> rfl

/-- A text is scanned alike wherever it begins. -/
theorem itemsFrom_moved (d : Displacement) :
    ∀ cs p, itemsFrom cs (p.moved d) = (itemsFrom cs p).map (movedItem d) := by
  refine text_induction ?_ ?_ ?_ ?_
  · intro p
    simp
  · intro c cs p hc ih
    have hstep : (p.moved d).step c = (p.step c).moved d := Place.after_moved d p [c]
    rw [itemsFrom_blank hc, itemsFrom_blank hc, hstep, ih]
  · intro cs p ih
    rw [itemsFrom_comment, itemsFrom_comment, Place.after_moved, ih]
  · intro cs p hne hlayout ih
    rw [itemsFrom_lexeme hne hlayout, itemsFrom_lexeme hne hlayout, Place.after_moved, ih,
      itemOf_moved, List.map_cons]

/-! ## Lexemes before a line feed -/

/-- The longest lexeme of a text does not go on behind the text, if a blank follows there. -/
theorem Longest.append {cs w rest : List Char} (h : Longest LexemeText cs w) (hrest : Loose rest) :
    Longest LexemeText (cs ++ rest) w := by
  refine ⟨h.isPrefix.trans (List.prefix_append cs rest), h.holds, ?_⟩
  intro v hv hlex
  by_cases hle : v.length ≤ cs.length
  · exact h.le v (List.prefix_of_prefix_length_le hv (List.prefix_append cs rest) hle) hlex
  · -- A lexeme that goes on holds the blank, hence is a string, and so is `w`, which closes before it.
    obtain ⟨u, rfl⟩ : cs <+: v := List.prefix_of_prefix_length_le (List.prefix_append cs rest) hv
      (by omega)
    have hu : u <+: rest := (List.prefix_append_right_inj cs).mp hv
    obtain ⟨c, us, rfl⟩ : ∃ c us, u = c :: us := by
      cases u with
      | nil => simp at hle
      | cons c us => exact ⟨c, us, rfl⟩
    obtain ⟨more, rfl⟩ := hu
    obtain ⟨body, hbody, hv'⟩ := hlex.stringText_of_mem (hrest c rfl) (by simp)
    obtain ⟨d, ds, rfl⟩ := List.exists_cons_of_ne_nil h.holds.ne_nil
    obtain ⟨ws, rfl⟩ := h.isPrefix
    obtain rfl : d = '"' := (List.cons.inj hv').1
    obtain ⟨body', hbody', hw⟩ := h.holds.stringText rfl
    have hlongest := longest_string hbody' (ws ++ (c :: us ++ more))
    have htext : '"' :: ds ++ ws ++ (c :: us ++ more) =
        '"' :: (body' ++ '"' :: (ws ++ (c :: us ++ more))) := by
      rw [hw]
      simp
    rw [← htext, ← hw] at hlongest
    exact hlongest.le _ hv ⟨body, hbody, hv'⟩

/-- A character that begins no lexeme is a fault by itself, whatever follows. -/
theorem lexemeAt_alien {c : Char} (h : ∀ w, LexemeText w → w.head? ≠ some c) (cs : List Char) :
    lexemeAt (c :: cs) = (.error (.unexpected (some c)), 1) := by
  have hquote : c ≠ '"' := by
    rintro rfl
    exact h ['"', '"'] (.string ⟨[], by simp, rfl⟩) rfl
  have hdigit : ¬ c.isDigit = true := by
    intro hc
    exact h [c] (.number (.whole (by simp) (by simpa using hc))) rfl
  have hname : ¬ isNameStart c = true := by
    intro hc
    exact h [c] (.name (.intro hc (by simp))) rfl
  have hsign : Mark.signAt? (c :: cs) = none := by
    cases hm : Mark.signAt? (c :: cs) with
    | none => rfl
    | some m =>
        have hw := longest_sign hm
        obtain ⟨d, ds, hspelling⟩ := List.exists_cons_of_ne_nil (LexemeText.sign hw.holds).ne_nil
        have hprefix := hw.isPrefix
        rw [hspelling] at hprefix
        refine absurd ?_ (h _ (.sign hw.holds))
        rw [hspelling, (List.cons_prefix_cons.mp hprefix).1]
        rfl
  rw [lexemeAt_other hquote hdigit hname, hsign]

/-- What is taken at the head of a text is taken there if a blank follows the text, unless it is a
string that is not closed. -/
theorem lexemeAt_append {cs rest : List Char} (hne : cs ≠ [])
    (hclosed : (lexemeAt cs).1 ≠ .error .unterminatedString) (hrest : Loose rest) :
    lexemeAt (cs ++ rest) = lexemeAt cs ∧ (lexemeAt cs).2 ≤ cs.length := by
  have hhead := head_lexemeAt hne
  generalize (lexemeAt cs).1 = result at hhead hclosed
  generalize cs.take (lexemeAt cs).2 = w at hhead
  cases hhead with
  | lexeme h =>
      rw [lexemeAt_of_longest h, lexemeAt_of_longest (h.append hrest)]
      exact ⟨rfl, h.isPrefix.length_le⟩
  | unclosed hcs hbody => exact absurd rfl hclosed
  | alien hcs halien =>
      rw [hcs, List.cons_append, lexemeAt_alien halien, lexemeAt_alien halien]
      exact ⟨rfl, by simp⟩

/-- Nor does layout begin at a lexeme because a blank follows. -/
theorem layoutLength_append {cs rest : List Char} (hne : cs ≠ []) (hlayout : layoutLength false cs = 0)
    (hrest : Loose rest) : layoutLength false (cs ++ rest) = 0 := by
  obtain ⟨c, ds, rfl⟩ := List.exists_cons_of_ne_nil hne
  obtain ⟨hblank, hcomment⟩ := layoutLength_eq_zero.mp hlayout
  refine layoutLength_eq_zero.mpr ⟨hblank, ?_⟩
  cases ds with
  | cons d ds => simpa [List.isPrefixOf] using hcomment
  | nil =>
      cases rest with
      | nil => simp [List.isPrefixOf]
      | cons r rest =>
          have hslash : '/' ≠ r := by
            rintro rfl
            exact absurd (hrest '/' rfl) (by decide)
          simp [List.isPrefixOf, hslash]

/-! ## Texts -/

/-- Does the item say that a string is not closed? -/
def isUnclosed : Item → Bool
  | .ok _ => false
  | .error e => e.cause = .unterminatedString

/-- A comment ends where it did if a line feed and more text follow, or else at that line feed. -/
theorem itemsFrom_comment_line (cs ds : List Char) (p : Place) :
    itemsFrom ('/' :: '/' :: cs ++ '\n' :: ds) p =
    itemsFrom (cs.dropWhile (· != '\n') ++ '\n' :: ds)
      (p.after ('/' :: '/' :: cs.takeWhile (· != '\n'))) := by
  have htake : (cs ++ '\n' :: ds).takeWhile (· != '\n') = cs.takeWhile (· != '\n') := by
    rw [List.takeWhile_append]
    split
    · next hlen => simp [(List.takeWhile_prefix _).eq_of_length hlen]
    · rfl
  have hdrop : (cs ++ '\n' :: ds).dropWhile (· != '\n') = cs.dropWhile (· != '\n') ++ '\n' :: ds := by
    rw [List.dropWhile_append]
    split <;> simp_all
  rw [List.cons_append, List.cons_append, itemsFrom_comment, htake, hdrop]

/-- A lexeme that is no open string is taken alike if a line feed and more text follow. -/
theorem itemsFrom_lexeme_line {cs : List Char} (hne : cs ≠ []) (hlayout : layoutLength false cs = 0)
    (hclosed : (lexemeAt cs).1 ≠ .error .unterminatedString) (ds : List Char) (p : Place) :
    itemsFrom (cs ++ '\n' :: ds) p = itemOf p (cs.take (lexemeAt cs).2) (lexemeAt cs).1 ::
      itemsFrom (cs.drop (lexemeAt cs).2 ++ '\n' :: ds) (p.after (cs.take (lexemeAt cs).2)) := by
  have hloose : Loose ('\n' :: ds) := loose_cons rfl
  obtain ⟨hlexeme, hlen⟩ := lexemeAt_append hne hclosed hloose
  rw [itemsFrom_lexeme (by simp [hne]) (layoutLength_append hne hlayout hloose), hlexeme,
    List.take_append_of_le_length hlen, List.drop_append_of_le_length hlen]

/-- A text that leaves no string open is scanned alike if a line feed and more text follow, and so
is that. -/
theorem itemsFrom_line (ds : List Char) : ∀ cs p, (∀ item ∈ itemsFrom cs p, isUnclosed item = false) →
    itemsFrom (cs ++ '\n' :: ds) p = itemsFrom cs p ++ itemsFrom ds ((p.after cs).step '\n') := by
  refine text_induction ?_ ?_ ?_ ?_
  · intro p _
    rw [List.nil_append, itemsFrom_blank rfl, itemsFrom_nil]
    rfl
  · intro c cs p hc ih hclosed
    rw [itemsFrom_blank hc] at hclosed ⊢
    rw [List.cons_append, itemsFrom_blank hc, ih hclosed, Place.after_cons]
  · intro cs p ih hclosed
    rw [itemsFrom_comment] at hclosed ⊢
    rw [itemsFrom_comment_line, ih hclosed, ← Place.after_append, List.cons_append, List.cons_append,
      List.takeWhile_append_dropWhile]
  · intro cs p hne hlayout ih hclosed
    rw [itemsFrom_lexeme hne hlayout] at hclosed ⊢
    have hresult : (lexemeAt cs).1 ≠ .error .unterminatedString := by
      intro hresult
      have hitem := hclosed _ List.mem_cons_self
      rw [hresult] at hitem
      cases hitem
    rw [itemsFrom_lexeme_line hne hlayout hresult, ih fun item hitem =>
      hclosed item (List.mem_cons_of_mem _ hitem),
      ← Place.after_append, List.take_append_drop]
    rfl

theorem exists_of_lexemeAt_unterminated {cs : List Char}
    (h : (lexemeAt cs).1 = .error .unterminatedString) :
    ∃ body, cs = '"' :: body ∧ '"' ∉ body := by
  cases cs with
  | nil => cases h
  | cons c cs =>
      by_cases hquote : c = '"'
      · subst hquote
        rw [lexemeAt_quote] at h
        refine ⟨cs, rfl, fun hmem => ?_⟩
        have hterm : isTerminated ('"' :: cs) = true := by simpa [isTerminated] using hmem
        rw [if_pos hterm] at h
        cases h
      · unfold lexemeAt at h
        grind [numberMeaning]

/-- A text that leaves a string open still does so if a line feed and text without a quote
follow. -/
theorem unclosed_line {ds : List Char} (hds : '"' ∉ ds) :
    ∀ cs p, (∃ item ∈ itemsFrom cs p, isUnclosed item = true) →
    ∃ item ∈ itemsFrom (cs ++ '\n' :: ds) p, isUnclosed item = true := by
  refine text_induction ?_ ?_ ?_ ?_
  · intro p h
    simp at h
  · intro c cs p hc ih h
    rw [itemsFrom_blank hc] at h
    rw [List.cons_append, itemsFrom_blank hc]
    exact ih h
  · intro cs p ih h
    rw [itemsFrom_comment] at h
    rw [itemsFrom_comment_line]
    exact ih h
  · intro cs p hne hlayout ih h
    by_cases hresult : (lexemeAt cs).1 = .error .unterminatedString
    · -- The open string takes in all of the text that follows.
      obtain ⟨body, rfl, hbody⟩ := exists_of_lexemeAt_unterminated hresult
      have hopen : lexemeAt ('"' :: (body ++ '\n' :: ds)) = _ :=
        lexemeAt_unclosed (by simp [hbody, hds])
      rw [itemsFrom_lexeme (by simp) (layoutLength_append hne hlayout (loose_cons rfl)),
        List.cons_append, hopen]
      exact ⟨_, List.mem_cons_self, rfl⟩
    · rw [itemsFrom_lexeme hne hlayout] at h
      rw [itemsFrom_lexeme_line hne hlayout hresult]
      obtain ⟨item, hitem, hopen⟩ := h
      obtain rfl | hitem := List.mem_cons.mp hitem
      · exact ⟨_, List.mem_cons_self, hopen⟩
      · obtain ⟨item, hitem, hopen⟩ := ih ⟨item, hitem, hopen⟩
        exact ⟨item, List.mem_cons_of_mem _ hitem, hopen⟩

/-- A text below another one that leaves no string open is scanned as it is alone, but further
down. -/
theorem scan_below {above : String} (h : ∀ item ∈ scan above, isUnclosed item = false) (s : String) :
    scan (above ++ "\n" ++ s) = scan above ++ (scan s).map (movedItem (.below above.toList)) := by
  have htext : (above ++ "\n" ++ s).toList = above.toList ++ '\n' :: s.toList := by simp
  rw [scan_eq, htext, itemsFrom_line s.toList above.toList .origin h, Place.origin_moved,
    itemsFrom_moved]
  rfl

/-- What stands below an open string and holds no quote does not close it. -/
theorem closed_of_scan_below {above s : String} (hs : '"' ∉ s.toList)
    (h : ∀ item ∈ scan (above ++ "\n" ++ s), isUnclosed item = false) :
    ∀ item ∈ scan above, isUnclosed item = false := by
  have htext : (above ++ "\n" ++ s).toList = above.toList ++ '\n' :: s.toList := by simp
  rw [scan_eq, htext] at h
  intro item hitem
  by_contra hopen
  obtain ⟨item', hitem', hopen'⟩ :=
    unclosed_line hs above.toList .origin ⟨item, hitem, by simpa using hopen⟩
  rw [h item' hitem'] at hopen'
  cases hopen'

end Lox
