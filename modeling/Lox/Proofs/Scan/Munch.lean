import Lox.Proofs.Scan.Calls
import Lox.Proofs.Scan.Lexemes
/-!
# `Scan.Munch` — scanning divides a text into lexemes and layout

The items of a text and the stretches between them make up the whole text: each item is the longest
lexeme where it stands, or says why there is none, and all that lies between two items is blanks and
comments. `Tiles` builds a text up in this way from the pieces that scanning takes off it;
`Tokenisation` says the same of the offsets at which the items begin and end.
-/
namespace Lox

/-! ## Layout -/

/-- Blanks and comments before a text. A comment reaches to the end of its line or of the text. -/
inductive Layout (rest : List Char) : List Char → Prop where
  | nil : Layout rest []
  | blank {c : Char} {gap : List Char} : isLayoutBlank c = true → Layout rest gap →
      Layout rest (c :: gap)
  | comment {line gap : List Char} : '\n' ∉ line → (∀ c, (gap ++ rest).head? = some c → c = '\n') →
      Layout rest gap →
      Layout rest ('/' :: '/' :: (line ++ gap))

/-! ## Pieces of a text -/

/-- The text behind `before` is made up of the items and the layout between them. -/
inductive Tiles : (before cs : List Char) → List Item → Prop where
  | done {before gap : List Char} : Layout [] gap → Tiles before gap []
  | item {before gap w rest : List Char} {result : Except ScanError.Cause Meaning} {items : List Item} :
      Layout (w ++ rest) gap → w ≠ [] → ¬ ['/', '/'] <+: w ++ rest → Head (w ++ rest) result w →
      Tiles (before ++ gap ++ w) rest items →
      Tiles before (gap ++ (w ++ rest)) (itemOf (Place.origin.after (before ++ gap)) w result :: items)

/-- A piece of layout may be put before a text that it can stand before. -/
theorem Tiles.prepend {before piece cs : List Char} {items : List Item}
    (h : Tiles (before ++ piece) cs items)
    (hpiece : ∀ gap rest, gap ++ rest = cs → Layout rest gap → Layout rest (piece ++ gap)) :
    Tiles before (piece ++ cs) items := by
  generalize hbefore : before ++ piece = whole at h
  cases h with
  | done hgap => exact .done (hpiece _ _ (List.append_nil _) hgap)
  | @item _ gap w rest result items hgap hne hcomment hhead hmore =>
      subst hbefore
      rw [List.append_assoc before piece gap] at hmore ⊢
      rw [← List.append_assoc]
      exact .item (hpiece gap (w ++ rest) rfl hgap) hne hcomment hhead hmore

/-- Scanning divides the text that is left. -/
theorem tiles_itemsFrom :
    ∀ cs p before, p = Place.origin.after before → Tiles before cs (itemsFrom cs p) := by
  refine text_induction ?_ ?_ ?_ ?_
  · intro p before hp
    rw [itemsFrom_nil]
    exact .done .nil
  · intro c cs p hc ih before hp
    rw [itemsFrom_blank hc]
    show Tiles before ([c] ++ cs) _
    refine Tiles.prepend (ih _ ?_) ?_
    · rw [hp, Place.after_concat]
    · intro gap rest _ hgap
      exact .blank hc hgap
  · intro cs p ih before hp
    rw [itemsFrom_comment]
    have htext : '/' :: '/' :: cs = ('/' :: '/' :: cs.takeWhile (· != '\n')) ++
        cs.dropWhile (· != '\n') := by
      rw [List.cons_append, List.cons_append, List.takeWhile_append_dropWhile]
    rw [htext]
    refine Tiles.prepend (ih _ ?_) ?_
    · rw [hp, Place.after_append]
    · intro gap rest hrest hgap
      refine .comment ?_ ?_ hgap
      · intro hmem
        exact absurd (mem_takeWhile hmem) (by decide)
      · intro c hc
        have hhead := List.head?_dropWhile_not (· != '\n') cs
        rw [← hrest, hc] at hhead
        simpa using hhead
  · intro cs p hne hlayout ih before hp
    obtain ⟨c, ds, rfl⟩ := List.exists_cons_of_ne_nil hne
    rw [itemsFrom_lexeme hne hlayout]
    have hhead := head_lexemeAt hne
    have hpos := lexemeAt_pos (c :: ds)
    generalize lexemeAt (c :: ds) = taken at *
    obtain ⟨result, n⟩ := taken
    dsimp only at *
    have htext : (c :: ds).take n ++ (c :: ds).drop n = c :: ds := List.take_append_drop n (c :: ds)
    have hcomment : ¬ ['/', '/'] <+: c :: ds := by
      rw [← List.isPrefixOf_iff_prefix, (layoutLength_eq_zero.mp hlayout).2]
      exact Bool.false_ne_true
    have hlexeme : (c :: ds).take n ≠ [] := by
      obtain ⟨k, rfl⟩ : ∃ k, n = k + 1 := ⟨n - 1, by omega⟩
      exact List.cons_ne_nil _ _
    have hmore := ih (before ++ [] ++ (c :: ds).take n)
      (by rw [List.append_nil, Place.after_append, ← hp])
    generalize (c :: ds).take n = w at *
    generalize (c :: ds).drop n = rest at *
    rw [← htext] at hhead hcomment ⊢
    have htiles : Tiles before _ _ := .item .nil hlexeme hcomment hhead hmore
    rw [List.append_nil, ← hp] at htiles
    exact htiles

/-! ## Offsets -/

/-- Where an item begins. -/
def itemStart (i : Item) : Nat := (itemPlace i).offset

/-- Where an item ends. -/
def itemStop (i : Item) : Nat := itemStart i + (itemLexeme i).length

/-- The stretches between the items, from an offset to the end of the text. -/
def gapsFrom (offset stop : Nat) : List Item → List (Nat × Nat)
  | [] => [(offset, stop)]
  | i :: items => (offset, itemStart i) :: gapsFrom (itemStop i) stop items

/-- What an item says about the text where it begins. -/
def Describes (source : List Char) : Item → Prop
  | .ok t => Longest LexemeText (source.drop t.place.offset) t.lexeme.toList ∧
      scan t.lexeme = [.ok { t with place := .origin }]
  | .error e =>
    match e.cause with
    | .unexpected x => ∃ c, x = some c ∧ e.lexeme.toList = [c] ∧ ∀ w, LexemeText w → w.head? ≠ some c
    | .unterminatedString => ∃ body, e.lexeme.toList = '"' :: body ∧ '"' ∉ body ∧
        e.place.offset + e.lexeme.length = source.length
    | .invalidNumber => Longest NumberText (source.drop e.place.offset) e.lexeme.toList ∧
        scan e.lexeme = [.error { e with place := .origin }]

/-- The item is a piece of the text, and says what stands there. -/
structure Fits (source : List Char) (i : Item) : Prop where
  nonempty : itemStart i < itemStop i
  inside : itemStop i ≤ source.length
  text : (itemLexeme i).toList = source.extract (itemStart i) (itemStop i)
  place : (itemPlace i).LiesIn source
  /-- No item begins where a comment does. -/
  noComment : ¬ ['/', '/'] <+: source.drop (itemStart i)
  describes : Describes source i

/-- From an offset on, the items are pieces of the text in its order, with nothing
but layout between them. -/
structure Tokenisation (source : List Char) (offset : Nat) (items : List Item) : Prop where
  fits : ∀ i ∈ items, offset ≤ itemStart i ∧ Fits source i
  ordered : items.Pairwise fun i j => itemStop i ≤ itemStart j
  gaps : ∀ gap ∈ gapsFrom offset source.length items, gap.1 ≤ gap.2 ∧ gap.2 ≤ source.length ∧
    Layout (source.drop gap.2) (source.extract gap.1 gap.2)

/-! ## From pieces to offsets -/

theorem itemStart_itemOf (before text : List Char) (result : Except ScanError.Cause Meaning) :
    itemStart (itemOf (Place.origin.after before) text result) = before.length := by
  rw [itemStart, itemPlace_itemOf, Place.offset_after_origin]

theorem itemStop_itemOf (before text : List Char) (result : Except ScanError.Cause Meaning) :
    itemStop (itemOf (Place.origin.after before) text result) = before.length + text.length := by
  rw [itemStop, itemStart_itemOf, itemLexeme_itemOf, String.length_ofList]

theorem extract_append (before piece rest : List Char) :
    (before ++ (piece ++ rest)).extract before.length (before.length + piece.length) = piece := by
  rw [List.extract_eq_take_drop, List.drop_left, Nat.add_sub_cancel_left, List.take_left]

/-- Only a number can be a lexeme and stand for nothing. -/
theorem LexemeText.invalidNumber {w : List Char} (h : LexemeText w) {cause : ScanError.Cause}
    (hfault : (lexemeAt w).1 = .error cause) : NumberText w ∧ cause = .invalidNumber := by
  cases h with
  | string h =>
      obtain ⟨body, hbody, rfl⟩ := h
      rw [lexemeAt_string hbody] at hfault
      cases hfault
  | number h =>
      refine ⟨h, ?_⟩
      rw [lexemeAt_number (.self h)] at hfault
      simp only [numberMeaning] at hfault
      split at hfault
      · split at hfault
        · cases hfault; rfl
        · cases hfault
      · cases hfault; rfl
  | name h =>
      rw [lexemeAt_name (.self h)] at hfault
      cases hfault
  | sign h =>
      obtain ⟨m, hm, rfl⟩ := h
      rw [lexemeAt_sign hm (.self ⟨m, hm, rfl⟩)] at hfault
      cases hfault

/-- What a text begins with is described by its item. -/
theorem describes_of_head {before w rest : List Char} {result : Except ScanError.Cause Meaning}
    (h : Head (w ++ rest) result w) :
    Describes (before ++ (w ++ rest)) (itemOf (Place.origin.after before) w result) := by
  have hdrop : (before ++ (w ++ rest)).drop (Place.origin.after before).offset = w ++ rest := by
    rw [Place.offset_after_origin, List.drop_left]
  cases h with
  | lexeme hlongest =>
      have hscan := scan_lexemeText hlongest.holds
      cases hresult : (lexemeAt w).1 with
      | ok m =>
          rw [hresult] at hscan
          refine ⟨?_, hscan⟩
          show Longest LexemeText _ (String.ofList w).toList
          rw [hdrop, String.toList_ofList]
          exact hlongest
      | error cause =>
          obtain ⟨hnumber, rfl⟩ := hlongest.holds.invalidNumber hresult
          rw [hresult] at hscan
          refine ⟨?_, hscan⟩
          show Longest NumberText _ (String.ofList w).toList
          rw [hdrop, String.toList_ofList]
          exact hlongest.restrict hnumber fun _ => .number
  | @unclosed body htext hbody =>
      have hrest : rest = [] := List.append_right_eq_self.mp htext
      refine ⟨body, String.toList_ofList, hbody, ?_⟩
      show (Place.origin.after before).offset + (String.ofList ('"' :: body)).length = _
      rw [Place.offset_after_origin, String.length_ofList, htext, List.length_append]
  | @alien c rest' htext hbegins =>
      exact ⟨c, rfl, String.toList_ofList, hbegins⟩

theorem fits_of_head {before w rest : List Char} {result : Except ScanError.Cause Meaning}
    (hne : w ≠ []) (hcomment : ¬ ['/', '/'] <+: w ++ rest) (h : Head (w ++ rest) result w) :
    Fits (before ++ (w ++ rest)) (itemOf (Place.origin.after before) w result) := by
  have hpos := List.length_pos_iff.mpr hne
  refine ⟨?_, ?_, ?_, ?_, ?_, describes_of_head h⟩
  · rw [itemStart_itemOf, itemStop_itemOf]
    omega
  · rw [itemStop_itemOf, List.length_append, List.length_append]
    omega
  · rw [itemStart_itemOf, itemStop_itemOf, extract_append, itemLexeme_itemOf, String.toList_ofList]
  · rw [itemPlace_itemOf]
    exact Place.liesIn_after _ _
  · rw [itemStart_itemOf, List.drop_left]
    exact hcomment

/-- What is built up from pieces is divided at the offsets where they meet. -/
theorem Tiles.tokenisation {before cs : List Char} {items : List Item} (h : Tiles before cs items) :
    Tokenisation (before ++ cs) before.length items := by
  induction h with
  | @done before gap hgap =>
      refine ⟨by simp, .nil, ?_⟩
      intro g hg
      obtain rfl := List.mem_singleton.mp hg
      refine ⟨?_, Nat.le_refl _, ?_⟩
      · rw [List.length_append]
        exact Nat.le_add_right _ _
      · have hextract := extract_append before gap []
        rw [List.append_nil, ← List.length_append] at hextract
        rw [List.drop_length, hextract]
        exact hgap
  | @item before gap w rest result items hgap hne hcomment hhead hmore ih =>
      have htext : before ++ gap ++ w ++ rest = before ++ gap ++ (w ++ rest) := List.append_assoc _ _ _
      rw [htext] at ih
      have hsource : before ++ (gap ++ (w ++ rest)) = before ++ gap ++ (w ++ rest) :=
        (List.append_assoc _ _ _).symm
      have hfits : Fits (before ++ gap ++ (w ++ rest)) _ := fits_of_head hne hcomment hhead
      have hstart := itemStart_itemOf (before ++ gap) w result
      have hstop := itemStop_itemOf (before ++ gap) w result
      rw [← List.length_append] at hstop
      rw [hsource]
      refine ⟨?_, ?_, ?_⟩
      · intro i hi
        rcases List.mem_cons.mp hi with rfl | hi
        · refine ⟨?_, hfits⟩
          rw [hstart, List.length_append]
          exact Nat.le_add_right _ _
        · obtain ⟨hle, hi⟩ := ih.fits i hi
          refine ⟨?_, hi⟩
          simp only [List.length_append] at hle
          omega
      · refine List.pairwise_cons.mpr ⟨fun i hi => ?_, ih.ordered⟩
        rw [hstop]
        exact (ih.fits i hi).1
      · intro g hg
        rcases List.mem_cons.mp hg with rfl | hg
        · dsimp only
          rw [hstart]
          refine ⟨?_, ?_, ?_⟩
          · rw [List.length_append]
            exact Nat.le_add_right _ _
          · exact (List.prefix_append _ _).length_le
          · rw [List.drop_left, List.append_assoc, List.length_append, extract_append]
            exact hgap
        · rw [hstop] at hg
          exact ih.gaps g hg

/-- A text is divided into its items. -/
theorem tokenisation_scan (s : String) : Tokenisation s.toList 0 (scan s) :=
  (tiles_itemsFrom s.toList .origin [] rfl).tokenisation

/-! ## Reading tokens only -/

theorem mapM_ok_cons (t : Token) (items : List Item) :
    (Except.ok t :: items : List Item).mapM id = (items.mapM id).map (t :: ·) := by
  rw [List.mapM_cons]
  show (do let ts ← items.mapM id; pure (t :: ts) : Except ScanError (List Token)) = _
  cases items.mapM id <;> rfl

/-- A text has tokens only if it has no fault, and then they are its items. -/
theorem mapM_eq_ok {items : List Item} {ts : List Token} :
    items.mapM id = .ok ts ↔ items = ts.map .ok := by
  induction items generalizing ts with
  | nil => cases ts <;> simp [pure, Except.pure]
  | cons item items ih =>
      cases item with
      | error e => cases ts <;> simp [bind, Except.bind]
      | ok t =>
          rw [mapM_ok_cons]
          cases ts with
          | nil => cases items.mapM id <;> simp [Except.map]
          | cons u ts =>
              rw [List.map_cons, List.cons.injEq, ← ih]
              cases items.mapM id <;> simp [Except.map]

/-- Otherwise the first fault is told. -/
theorem mapM_eq_error {items : List Item} {e : ScanError} :
    items.mapM id = .error e ↔ ∃ (ts : List Token) (rest : List Item), items = ts.map .ok ++
      .error e :: rest := by
  constructor
  · intro h
    induction items with
    | nil => cases h
    | cons item items ih =>
        cases item with
        | error f =>
            cases h
            exact ⟨[], items, rfl⟩
        | ok t =>
            rw [mapM_ok_cons] at h
            cases hitems : items.mapM id with
            | ok ts =>
                rw [hitems] at h
                cases h
            | error f =>
                rw [hitems] at h
                cases h
                obtain ⟨ts, rest, rfl⟩ := ih hitems
                exact ⟨t :: ts, rest, rfl⟩
  · rintro ⟨ts, rest, rfl⟩
    induction ts with
    | nil => rfl
    | cons t ts ih =>
        rw [List.map_cons, List.cons_append, mapM_ok_cons, ih]
        rfl

/-- Scanning divides every text into the longest lexemes, the faults and the layout between them,
and loses nothing. Pulling the items one by one comes to an end with all of them; reading tokens
only gives the items if all of them are tokens, and the first fault otherwise. -/
theorem scan_maximal_munch (s : String) :
    (∃ c, (Cursor.ofText s).Pulls (scan s) c) ∧ Tokenisation s.toList 0 (scan s) ∧
      (∀ ts, tokenize s = .ok ts ↔ scan s = ts.map .ok) ∧
      ∀ e, tokenize s = .error e ↔ ∃ (ts : List Token) (rest : List Item), scan s = ts.map .ok ++
        .error e :: rest := by
  exact ⟨⟨_, Cursor.pulls_drain _⟩, tokenisation_scan s, fun _ => mapM_eq_ok, fun _ => mapM_eq_error⟩

end Lox
