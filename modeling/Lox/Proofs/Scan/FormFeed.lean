import Lox.Proofs.Scan.Items
import Lox.Proofs.Scan.Position
/-!
# `Scan.FormFeed` — form feeds as blanks

A form feed outside of strings and comments is a fault. `blankFormFeeds` writes a space for each of
those that scanning reports, at the offset where it is reported, and this file shows that doing so
takes exactly these faults out of the items of a text and changes no other item.

The argument needs that no lexeme depends on whether a space or a form feed stands behind it.
`Similar` texts differ only in such characters.
-/
namespace Lox

/-! ## Writing spaces -/

/-- Is the item the fault of a form feed? -/
def isFormFeed : Item → Bool
  | .ok _ => false
  | .error e => decide (e.cause = .unexpected (some '\x0c'))

/-- Where form feeds are reported. -/
def formFeedOffsets (items : List Item) : List Nat :=
  items.filterMap fun
    | .ok _ => none
    | .error e => if e.cause = .unexpected (some '\x0c') then some e.place.offset else none

/-- Writes spaces at the given offsets of a text that begins at an offset. -/
def blankAt (offsets : List Nat) : (offset : Nat) → List Char → List Char
  | _, [] => []
  | i, c :: cs => (if i ∈ offsets then ' ' else c) :: blankAt offsets (i + 1) cs

/-- The text with a space for every form feed that is reported. -/
def blankFormFeeds (s : String) : String :=
  String.ofList (blankAt (formFeedOffsets (scan s)) 0 s.toList)

theorem blankAt_append (offsets : List Nat) (i : Nat) (cs ds : List Char) :
    blankAt offsets i (cs ++ ds) = blankAt offsets i cs ++ blankAt offsets (i + cs.length) ds := by
  induction cs generalizing i with
  | nil => rfl
  | cons c cs ih =>
      rw [List.cons_append, blankAt, blankAt, ih, List.length_cons, List.cons_append, Nat.add_assoc,
        Nat.add_comm 1]

/-- Offsets behind a text do not matter to it. -/
theorem blankAt_of_le {offsets : List Nat} {i : Nat} {cs : List Char}
    (h : ∀ j ∈ offsets, i + cs.length ≤ j) :
    blankAt offsets i cs = cs := by
  induction cs generalizing i with
  | nil => rfl
  | cons c cs ih =>
      have hi : i ∉ offsets := by
        intro hi
        have := h i hi
        simp only [List.length_cons] at this
        omega
      rw [blankAt, if_neg hi, ih]
      intro j hj
      have := h j hj
      simp only [List.length_cons] at this
      omega

/-- Neither do offsets before it. -/
theorem blankAt_cons_of_lt {offsets : List Nat} {i j : Nat} (h : j < i) (cs : List Char) :
    blankAt (j :: offsets) i cs = blankAt offsets i cs := by
  induction cs generalizing i with
  | nil => rfl
  | cons c cs ih =>
      have hi : i ∈ j :: offsets ↔ i ∈ offsets := by
        rw [List.mem_cons]
        apply or_iff_right
        omega
      rw [blankAt, blankAt, ih (by omega)]
      simp only [hi]

theorem formFeedOffsets_append (items more : List Item) :
    formFeedOffsets (items ++ more) = formFeedOffsets items ++ formFeedOffsets more :=
  List.filterMap_append

theorem formFeedOffsets_singleton {item : Item} (h : isFormFeed item = false) :
    formFeedOffsets [item] = [] := by
  cases item with
  | ok t => rfl
  | error e =>
      have hcause : e.cause ≠ .unexpected (some '\x0c') := of_decide_eq_false h
      simp [formFeedOffsets, hcause]

theorem exists_of_mem_formFeedOffsets {items : List Item} {j : Nat} (h : j ∈ formFeedOffsets items) :
    ∃ e, (.error e : Item) ∈ items ∧ e.place.offset = j := by
  obtain ⟨item, hitem, hj⟩ := List.mem_filterMap.mp h
  cases item with
  | ok t => cases hj
  | error e =>
      refine ⟨e, hitem, ?_⟩
      by_cases hcause : e.cause = .unexpected (some '\x0c')
      · exact Option.some.inj ((if_pos hcause).symm.trans hj)
      · cases (if_neg hcause).symm.trans hj

/-- Nothing is reported before the text. -/
theorem le_of_mem_formFeedOffsets {j : Nat} :
    ∀ cs p, j ∈ formFeedOffsets (itemsFrom cs p) → p.offset ≤ j := by
  refine text_induction ?_ ?_ ?_ ?_
  · intro p h
    rw [itemsFrom_nil] at h
    cases h
  · intro c cs p hc ih h
    rw [itemsFrom_blank hc] at h
    have := ih h
    have hstep : (p.step c).offset = p.offset + 1 := p.offset_after [c]
    omega
  · intro cs p ih h
    rw [itemsFrom_comment] at h
    have := ih h
    rw [Place.offset_after] at this
    omega
  · intro cs p hne hlayout ih h
    rw [itemsFrom_lexeme hne hlayout, ← List.singleton_append, formFeedOffsets_append] at h
    rcases List.mem_append.mp h with h | h
    · obtain ⟨e, he, rfl⟩ := exists_of_mem_formFeedOffsets h
      have hitem := List.mem_singleton.mp he
      cases hm : (lexemeAt cs).1 with
      | ok m => rw [hm] at hitem; cases hitem
      | error cause =>
          rw [hm] at hitem
          cases hitem
          exact Nat.le_refl _
    · have := ih h
      rw [Place.offset_after] at this
      omega

/-! ## Piece by piece -/

/-- A text that begins at a place, with a space for every form feed that is reported. -/
def blanked (cs : List Char) (p : Place) : List Char :=
  blankAt (formFeedOffsets (itemsFrom cs p)) p.offset cs

/-- A piece of text in which no form feed is reported stays as it is. -/
theorem blanked_append {cs ds : List Char} {p : Place} {items : List Item}
    (h : itemsFrom (cs ++ ds) p = items ++ itemsFrom ds (p.after cs))
    (hitems : formFeedOffsets items = []) :
    blanked (cs ++ ds) p = cs ++ blanked ds (p.after cs) := by
  rw [blanked, h, formFeedOffsets_append, hitems, List.nil_append, blankAt_append,
    blankAt_of_le, blanked, Place.offset_after]
  intro j hj
  have := le_of_mem_formFeedOffsets _ _ hj
  rwa [Place.offset_after] at this

theorem blanked_blank {c : Char} (hc : isLayoutBlank c = true) (cs : List Char) (p : Place) :
    blanked (c :: cs) p = c :: blanked cs (p.step c) := by
  have h : itemsFrom ([c] ++ cs) p = [] ++ itemsFrom cs (p.after [c]) := itemsFrom_blank hc cs p
  exact blanked_append h rfl

theorem blanked_comment (cs : List Char) (p : Place) : blanked ('/' :: '/' :: cs) p =
    '/' :: '/' :: (cs.takeWhile (· != '\n') ++
      blanked (cs.dropWhile (· != '\n')) (p.after ('/' :: '/' :: cs.takeWhile (· != '\n')))) := by
  have htext : '/' :: '/' :: cs = ('/' :: '/' :: cs.takeWhile (· != '\n')) ++
      cs.dropWhile (· != '\n') := by
    rw [List.cons_append, List.cons_append, List.takeWhile_append_dropWhile]
  have h : itemsFrom (('/' :: '/' :: cs.takeWhile (· != '\n')) ++ cs.dropWhile (· != '\n')) p =
      [] ++ itemsFrom (cs.dropWhile (· != '\n'))
        (p.after ('/' :: '/' :: cs.takeWhile (· != '\n'))) := by
    rw [← htext]
    exact itemsFrom_comment cs p
  have hblanked := blanked_append h rfl
  rwa [← htext] at hblanked

theorem blanked_lexeme {cs : List Char} (hne : cs ≠ []) (hlayout : layoutLength false cs = 0)
    (p : Place) (hitem : isFormFeed (itemOf p (cs.take (lexemeAt cs).2) (lexemeAt cs).1) = false) :
    blanked cs p =
      cs.take (lexemeAt cs).2 ++ blanked (cs.drop (lexemeAt cs).2)
        (p.after (cs.take (lexemeAt cs).2)) := by
  have htext : cs.take (lexemeAt cs).2 ++ cs.drop (lexemeAt cs).2 = cs := List.take_append_drop ..
  have h : itemsFrom (cs.take (lexemeAt cs).2 ++ cs.drop (lexemeAt cs).2) p =
      [itemOf p (cs.take (lexemeAt cs).2) (lexemeAt cs).1] ++
        itemsFrom (cs.drop (lexemeAt cs).2) (p.after (cs.take (lexemeAt cs).2)) := by
    rw [htext]
    exact itemsFrom_lexeme hne hlayout p
  have hblanked := blanked_append h (formFeedOffsets_singleton hitem)
  rwa [htext] at hblanked

/-- The fault of a character consists of that character. -/
theorem lexemeAt_unexpected {cs : List Char} {c : Char}
    (h : (lexemeAt cs).1 = .error (.unexpected (some c))) :
    ∃ ds, cs = c :: ds ∧ (lexemeAt cs).2 = 1 := by
  cases cs with
  | nil => cases h
  | cons d ds =>
      by_cases hquote : d = '"'
      · subst hquote
        rw [lexemeAt_quote] at h
        split at h <;> cases h
      by_cases hdigit : d.isDigit = true
      · rw [lexemeAt_digit hdigit] at h
        simp only [numberMeaning] at h
        split at h
        · split at h <;> cases h
        · cases h
      by_cases hname : isNameStart d = true
      · rw [lexemeAt_nameStart hname] at h
        cases h
      rw [lexemeAt_other hquote hdigit hname] at h ⊢
      split at h
      · cases h
      · cases h
        exact ⟨ds, rfl, rfl⟩

theorem blanked_formFeed (cs : List Char) (p : Place) :
    blanked ('\x0c' :: cs) p = ' ' :: blanked cs (p.step '\x0c') := by
  have h : itemsFrom ('\x0c' :: cs) p =
      .error ⟨.unexpected (some '\x0c'), p, "\x0c"⟩ :: itemsFrom cs (p.step '\x0c') :=
    itemsFrom_lexeme (List.cons_ne_nil _ _) rfl p
  have hoffsets : formFeedOffsets (itemsFrom ('\x0c' :: cs) p) =
      p.offset :: formFeedOffsets (itemsFrom cs (p.step '\x0c')) := by
    rw [h]
    rfl
  rw [blanked, hoffsets, blankAt, if_pos List.mem_cons_self, blankAt_cons_of_lt (Nat.lt_succ_self _)]
  rfl

/-! ## Similar texts -/

/-- The texts differ only in that the second one may have a space where the first one has a form
feed. -/
inductive Similar : List Char → List Char → Prop where
  | nil : Similar [] []
  | cons (c : Char) {cs ds} : Similar cs ds → Similar (c :: cs) (c :: ds)
  | feed {cs ds} : Similar cs ds → Similar ('\x0c' :: cs) (' ' :: ds)

theorem Similar.append (cs : List Char) {ds es : List Char} (h : Similar ds es) :
    Similar (cs ++ ds) (cs ++ es) := by
  induction cs with
  | nil => exact h
  | cons c cs ih => exact .cons c ih

theorem similar_blanked : ∀ cs p, Similar cs (blanked cs p) := by
  refine text_induction ?_ ?_ ?_ ?_
  · intro p
    exact .nil
  · intro c cs p hc ih
    rw [blanked_blank hc]
    exact .cons c ih
  · intro cs p ih
    rw [blanked_comment]
    have h := Similar.append (cs.takeWhile (· != '\n')) ih
    rw [List.takeWhile_append_dropWhile] at h
    exact .cons '/' (.cons '/' h)
  · intro cs p hne hlayout ih
    cases hitem : isFormFeed (itemOf p (cs.take (lexemeAt cs).2) (lexemeAt cs).1) with
    | false =>
        rw [blanked_lexeme hne hlayout p hitem]
        have h := Similar.append (cs.take (lexemeAt cs).2) ih
        rwa [List.take_append_drop] at h
    | true =>
        cases hm : (lexemeAt cs).1 with
        | ok m => rw [hm] at hitem; cases hitem
        | error cause =>
            rw [hm] at hitem
            have hcause : cause = .unexpected (some '\x0c') := of_decide_eq_true hitem
            rw [hcause] at hm
            obtain ⟨ds, rfl, hlen⟩ := lexemeAt_unexpected hm
            rw [hlen] at ih
            rw [blanked_formFeed]
            exact .feed ih

section

variable {cs ds : List Char}

theorem Similar.takeWhile_length {q : Char → Bool} (hq : q '\x0c' = q ' ') (h : Similar cs ds) :
    (cs.takeWhile q).length = (ds.takeWhile q).length := by
  induction h with
  | nil => rfl
  | cons c _ ih =>
      rw [List.takeWhile_cons, List.takeWhile_cons]
      cases q c with
      | true => exact congrArg Nat.succ ih
      | false => rfl
  | feed _ ih =>
      rw [List.takeWhile_cons, List.takeWhile_cons, hq]
      cases q ' ' with
      | true => exact congrArg Nat.succ ih
      | false => rfl

theorem Similar.dropWhile {q : Char → Bool} (hq : q '\x0c' = q ' ') (h : Similar cs ds) :
    Similar (cs.dropWhile q) (ds.dropWhile q) := by
  induction h with
  | nil => exact .nil
  | cons c hcs ih =>
      rw [List.dropWhile_cons, List.dropWhile_cons]
      cases q c with
      | true => exact ih
      | false => exact .cons c hcs
  | feed hcs ih =>
      rw [List.dropWhile_cons, List.dropWhile_cons, hq]
      cases q ' ' with
      | true => exact ih
      | false => exact .feed hcs

theorem Similar.contains {c : Char} (hfeed : c ≠ '\x0c') (hspace : c ≠ ' ') (h : Similar cs ds) :
    cs.contains c = ds.contains c := by
  induction h with
  | nil => rfl
  | cons d _ ih => rw [List.contains_cons, List.contains_cons, ih]
  | feed _ ih =>
      rw [List.contains_cons, List.contains_cons, ih, beq_eq_false_iff_ne.mpr hfeed,
        beq_eq_false_iff_ne.mpr hspace]

theorem Similar.isPrefixOf {w : List Char} (hw : ∀ c ∈ w, c ≠ '\x0c' ∧ c ≠ ' ') (h : Similar cs ds) :
    w.isPrefixOf cs = w.isPrefixOf ds := by
  induction w generalizing cs ds with
  | nil => rfl
  | cons c w ih =>
      have hw' : ∀ d ∈ w, d ≠ '\x0c' ∧ d ≠ ' ' := fun d hd => hw d (List.mem_cons_of_mem _ hd)
      cases h with
      | nil => rfl
      | cons d hcs => rw [List.isPrefixOf_cons_cons, List.isPrefixOf_cons_cons, ih hw' hcs]
      | feed hcs =>
          obtain ⟨hfeed, hspace⟩ := hw c List.mem_cons_self
          rw [List.isPrefixOf_cons_cons, List.isPrefixOf_cons_cons, beq_eq_false_iff_ne.mpr hfeed,
            beq_eq_false_iff_ne.mpr hspace, Bool.false_and, Bool.false_and]

theorem Similar.signAt? (h : Similar cs ds) : Mark.signAt? cs = Mark.signAt? ds := by
  have hspelling : ∀ m : Mark, ∀ c ∈ m.spelling.toList, c ≠ '\x0c' ∧ c ≠ ' ' := by
    intro m
    cases m <;> simp [Mark.spelling]
  unfold Mark.signAt?
  congr 1
  funext m
  exact h.isPrefixOf (hspelling m)

theorem Similar.digitsLength (h : Similar cs ds) : digitsLength cs = digitsLength ds :=
  h.takeWhile_length (by decide)

theorem Similar.numberLength (h : Similar cs ds) : numberLength cs = numberLength ds := by
  have hrest : Similar (cs.dropWhile Char.isDigit) (ds.dropWhile Char.isDigit) :=
    h.dropWhile (by decide)
  rw [Lox.numberLength, Lox.numberLength, h.digitsLength]
  congr 1
  generalize cs.dropWhile Char.isDigit = xs at hrest
  generalize ds.dropWhile Char.isDigit = ys at hrest
  cases hrest with
  | nil => rfl
  | cons c hxs =>
      by_cases hc : c = '.'
      · subst hc
        simp only [hxs.digitsLength]
      · simp [hc]
  | feed _ => rfl

/-- Similar texts begin with the same lexeme, if the texts of the two lexemes are the same. -/
theorem Similar.lexemeAt {c : Char} (h : Similar cs ds)
    (htake : (c :: ds).take (lexemeAt (c :: cs)).2 = (c :: cs).take (lexemeAt (c :: cs)).2) :
    lexemeAt (c :: ds) = lexemeAt (c :: cs) := by
  have hall : Similar (c :: cs) (c :: ds) := .cons c h
  by_cases hquote : c = '"'
  · subst hquote
    have hterm : isTerminated ('"' :: cs) = isTerminated ('"' :: ds) :=
      h.contains (by decide) (by decide)
    have hlen : contentsLength ('"' :: cs) = contentsLength ('"' :: ds) :=
      h.takeWhile_length (by decide)
    rw [lexemeAt_quote] at htake ⊢
    rw [lexemeAt_quote, ← hterm, ← hlen]
    split
    · rename_i hpos
      rw [if_pos hpos] at htake
      rw [htake]
    · rfl
  by_cases hdigit : c.isDigit = true
  · rw [lexemeAt_digit hdigit] at htake ⊢
    rw [lexemeAt_digit hdigit, ← hall.numberLength, htake]
  by_cases hname : isNameStart c = true
  · have hlen : nameLength (c :: cs) = nameLength (c :: ds) := hall.takeWhile_length (by decide)
    rw [lexemeAt_nameStart hname] at htake ⊢
    rw [lexemeAt_nameStart hname, ← hlen, htake]
  rw [lexemeAt_other hquote hdigit hname, lexemeAt_other hquote hdigit hname, hall.signAt?]

theorem Similar.layoutLength {c : Char} (h : Similar cs ds)
    (hlayout : layoutLength false (c :: cs) = 0) :
    layoutLength false (c :: ds) = 0 := by
  obtain ⟨hblank, hcomment⟩ := layoutLength_eq_zero.mp hlayout
  refine layoutLength_eq_zero.mpr ⟨hblank, ?_⟩
  rw [← Similar.isPrefixOf (by simp) (Similar.cons c h)]
  exact hcomment

theorem Similar.eq_of_not_mem (h : Similar cs ds) (hcs : '\x0c' ∉ cs) : ds = cs := by
  induction h with
  | nil => rfl
  | cons c _ ih => rw [ih fun hmem => hcs (List.mem_cons_of_mem _ hmem)]
  | feed _ _ => exact absurd List.mem_cons_self hcs

end

/-! ## The items of the text with spaces -/

/-- A lexeme that is not a form feed is the same item whatever spaces are written behind it. -/
theorem itemsFrom_lexeme_append {c : Char} {cs ds : List Char}
    (hlayout : layoutLength false (c :: cs) = 0) (p : Place)
    (h : Similar ((c :: cs).drop (lexemeAt (c :: cs)).2) ds) :
    itemsFrom ((c :: cs).take (lexemeAt (c :: cs)).2 ++ ds) p =
      itemOf p ((c :: cs).take (lexemeAt (c :: cs)).2) (lexemeAt (c :: cs)).1 ::
        itemsFrom ds (p.after ((c :: cs).take (lexemeAt (c :: cs)).2)) := by
  have hpos := lexemeAt_pos (c :: cs)
  generalize hn : (lexemeAt (c :: cs)).2 = n at hpos h ⊢
  -- Behind the lexeme comes `ds`; a lexeme at the end of the text has nothing behind it.
  have hparts : ((c :: cs).take n ++ ds).take n = (c :: cs).take n ∧
      ((c :: cs).take n ++ ds).drop n = ds := by
    by_cases hle : n ≤ (c :: cs).length
    · have hlen : ((c :: cs).take n).length = n := List.length_take_of_le hle
      exact ⟨List.take_left' hlen, List.drop_left' hlen⟩
    · have hnil : (c :: cs).drop n = [] := List.drop_eq_nil_of_le (by omega)
      rw [hnil] at h
      cases h
      rw [List.append_nil, List.take_of_length_le (List.length_take_le ..),
        List.drop_of_length_le (List.length_take_le ..)]
      exact ⟨rfl, rfl⟩
  obtain ⟨m, rfl⟩ : ∃ m, n = m + 1 := ⟨n - 1, by omega⟩
  rw [List.drop_succ_cons] at h
  have hsimilar : Similar cs (cs.take m ++ ds) := by
    have hcs := Similar.append (cs.take m) h
    rwa [List.take_append_drop] at hcs
  rw [List.take_succ_cons, List.cons_append] at hparts ⊢
  have hlexeme : lexemeAt (c :: (cs.take m ++ ds)) = lexemeAt (c :: cs) := by
    apply hsimilar.lexemeAt
    rw [hn, hparts.1, List.take_succ_cons]
  rw [itemsFrom_lexeme (List.cons_ne_nil _ _) (hsimilar.layoutLength hlayout), hlexeme, hn,
    hparts.1, hparts.2]

/-- A comment is left out whatever spaces are written behind it: the line feed that ends it
stays. -/
theorem itemsFrom_comment_append {cs ds : List Char} (h : Similar (cs.dropWhile (· != '\n')) ds)
    (p : Place) :
    itemsFrom ('/' :: '/' :: (cs.takeWhile (· != '\n') ++ ds)) p =
      itemsFrom ds (p.after ('/' :: '/' :: cs.takeWhile (· != '\n'))) := by
  have hend : ds.takeWhile (· != '\n') = [] := by
    apply List.length_eq_zero_iff.mp
    rw [← h.takeWhile_length (by decide)]
    have hhead := List.head?_dropWhile_not (· != '\n') cs
    cases hrest : cs.dropWhile (· != '\n') with
    | nil => rfl
    | cons d rest =>
        rw [hrest] at hhead
        rw [List.takeWhile_cons_of_neg (by simpa using hhead)]
        rfl
  have hbehind : ds.dropWhile (· != '\n') = ds := by
    have hds := List.takeWhile_append_dropWhile (l := ds) (p := (· != '\n'))
    rwa [hend, List.nil_append] at hds
  have hinside : ∀ c ∈ cs.takeWhile (· != '\n'), (c != '\n') = true := by
    have hall := List.all_takeWhile (l := cs) (p := (· != '\n'))
    exact List.all_eq_true.mp hall
  rw [itemsFrom_comment, List.takeWhile_append_of_pos hinside, List.dropWhile_append_of_pos hinside,
    hend, hbehind, List.append_nil]

/-- Only a form feed is reported as one, and it is a lexeme by itself. -/
theorem eq_formFeed_of_isFormFeed {cs text : List Char} {p : Place}
    (h : isFormFeed (itemOf p text (lexemeAt cs).1) = true) :
    ∃ ds, cs = '\x0c' :: ds ∧ (lexemeAt cs).2 = 1 := by
  cases hm : (lexemeAt cs).1 with
  | ok m => rw [hm] at h; cases h
  | error cause =>
      rw [hm] at h
      have hcause : cause = .unexpected (some '\x0c') := of_decide_eq_true h
      rw [hcause] at hm
      exact lexemeAt_unexpected hm

/-- Writing spaces for form feeds takes their faults out, and no other item. -/
theorem itemsFrom_blanked :
    ∀ cs p, itemsFrom (blanked cs p) p = (itemsFrom cs p).filter (!isFormFeed ·) := by
  refine text_induction ?_ ?_ ?_ ?_
  · intro p
    rw [itemsFrom_nil]
    exact itemsFrom_nil p
  · intro c cs p hc ih
    rw [blanked_blank hc, itemsFrom_blank hc, itemsFrom_blank hc, ih]
  · intro cs p ih
    rw [blanked_comment, itemsFrom_comment_append (similar_blanked _ _), itemsFrom_comment, ih]
  · intro cs p hne hlayout ih
    obtain ⟨c, cs, rfl⟩ := List.exists_cons_of_ne_nil hne
    rw [itemsFrom_lexeme hne hlayout, List.filter_cons]
    cases hitem :
      isFormFeed (itemOf p ((c :: cs).take (lexemeAt (c :: cs)).2) (lexemeAt (c :: cs)).1) with
    | false =>
        rw [blanked_lexeme hne hlayout p hitem, itemsFrom_lexeme_append hlayout p
          (similar_blanked _ _), ih]
        rfl
    | true =>
        obtain ⟨ds, htext, hlen⟩ := eq_formFeed_of_isFormFeed hitem
        cases htext
        rw [hlen] at ih ⊢
        rw [blanked_formFeed, itemsFrom_blank (by decide)]
        exact ih

/-! ## Whole texts -/

theorem scan_blankFormFeeds (s : String) :
    scan (blankFormFeeds s) = (scan s).filter (!isFormFeed ·) := by
  rw [scan_eq, blankFormFeeds, String.toList_ofList]
  exact itemsFrom_blanked s.toList .origin

/-- With spaces for form feeds no form feed is reported. -/
theorem not_isFormFeed_blankFormFeeds (s : String) :
    ∀ item ∈ scan (blankFormFeeds s), isFormFeed item = false := by
  intro item hitem
  rw [scan_blankFormFeeds] at hitem
  simpa using (List.mem_filter.mp hitem).2

/-- A text without form feeds stays as it is. -/
theorem blankFormFeeds_of_not_mem {s : String} (h : '\x0c' ∉ s.toList) : blankFormFeeds s = s := by
  have hsame := (similar_blanked s.toList .origin).eq_of_not_mem h
  show String.ofList (blanked s.toList .origin) = s
  rw [hsame, String.ofList_toList]

/-- A text without form feeds has no fault of one. -/
theorem not_isFormFeed_of_not_mem {s : String} (h : '\x0c' ∉ s.toList) :
    ∀ item ∈ scan s, isFormFeed item = false := by
  have hscan := scan_blankFormFeeds s
  rw [blankFormFeeds_of_not_mem h] at hscan
  intro item hitem
  have := List.filter_eq_self.mp hscan.symm item hitem
  simpa using this

end Lox
