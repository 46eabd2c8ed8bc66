import Lox.Proofs.Scan.Items
/-!
# `Scan.Literal` — number literals always have a value

A number literal is digits, and maybe a point with digits behind it. The full rule for
reading numbers accepts every such text, so the only reason why a literal can be at fault is
that its value is infinite.
-/
namespace Lox

open Number

/-! ## The characters of a literal -/

/-- The character is a digit or the point. -/
def IsLiteralChar (c : Char) : Prop := c.isDigit = true ∨ c = '.'

theorem isDigit_iff {c : Char} : c.isDigit = true ↔ 48 ≤ c.toNat ∧ c.toNat ≤ 57 := by
  simp only [Char.isDigit, Bool.and_eq_true, decide_eq_true_eq, ge_iff_le, UInt32.le_iff_toNat_le]
  rfl

theorem IsLiteralChar.toNat {c : Char} (h : IsLiteralChar c) : 46 ≤ c.toNat ∧ c.toNat ≤ 57 := by
  rcases h with h | rfl
  · have := isDigit_iff.mp h
    omega
  · decide

theorem IsLiteralChar.not_isPadding {c : Char} (h : IsLiteralChar c) : ¬ isPadding c = true := by
  have hc := h.toNat
  simp only [isPadding, Text.isBlank, Bool.and_eq_true, Bool.or_eq_true, decide_eq_true_eq, beq_iff_eq]
  omega

theorem IsLiteralChar.asciiDigit {c : Char} (h : IsLiteralChar c) : asciiDigit c = c := by
  have hc := h.toNat
  rw [Number.asciiDigit, if_pos (by omega)]

theorem IsLiteralChar.ne_underscore {c : Char} (h : IsLiteralChar c) : c ≠ '_' := by
  rintro rfl
  have hc := h.toNat
  revert hc
  decide

/-! ## Reading -/

theorem unpad_literal {cs : List Char} (h : ∀ c ∈ cs, IsLiteralChar c) : unpad cs = cs := by
  have hdrop : ∀ ds : List Char, (∀ c ∈ ds, IsLiteralChar c) → ds.dropWhile isPadding = ds := by
    intro ds hds
    cases ds with
    | nil => rfl
    | cons d ds => exact List.dropWhile_cons_of_neg (hds d List.mem_cons_self).not_isPadding
  rw [unpad, hdrop cs h, hdrop cs.reverse (fun c hc => h c (List.mem_reverse.mp hc)),
    List.reverse_reverse]

theorem dropUnderscores_literal {cs : List Char} (h : ∀ c ∈ cs, IsLiteralChar c) (afterDigit : Bool) :
    dropUnderscores afterDigit cs = some cs := by
  induction cs generalizing afterDigit with
  | nil => rfl
  | cons c cs ih =>
      have hc : c ≠ '_' := (h c List.mem_cons_self).ne_underscore
      unfold dropUnderscores
      split
      · contradiction
      · rename_i heq; cases heq; exact absurd rfl hc
      · rename_i heq; cases heq; exact absurd rfl hc
      · rename_i heq
        cases heq
        rw [ih fun d hd => h d (List.mem_cons_of_mem _ hd)]
        rfl

/-- A text that starts with a digit is no word. -/
theorem namedValue?_digit {c : Char} (hc : c.isDigit = true) (cs : List Char) :
    namedValue? (c :: cs) = none := by
  have hn := isDigit_iff.mp hc
  have hlower : c.toLower = c := by
    unfold Char.toLower
    split
    · rename_i hupper
      simp only [ge_iff_le, UInt32.le_iff_toNat_le] at hupper
      have hval : c.val.toNat = c.toNat := rfl
      have hA : 'A'.val.toNat = 65 := rfl
      omega
    · rfl
  have hi : c ≠ 'i' := by rintro rfl; revert hn; decide
  have hnan : c ≠ 'n' := by rintro rfl; revert hn; decide
  have hinf : ∀ w : List Char, Text.lower (c :: cs) ≠ 'i' :: w := by
    intro w h
    rw [Text.lower, List.map_cons, hlower] at h
    exact hi (List.cons.inj h).1
  have hword : ∀ w : List Char, Text.lower (c :: cs) ≠ 'n' :: w := by
    intro w h
    rw [Text.lower, List.map_cons, hlower] at h
    exact hnan (List.cons.inj h).1
  unfold namedValue?
  have h1 : Text.lower (c :: cs) ≠ "inf".toList := hinf _
  have h2 : Text.lower (c :: cs) ≠ "infinity".toList := hinf _
  have h3 : Text.lower (c :: cs) ≠ "nan".toList := hword _
  simp only [h1, h2, h3, decide_false, Bool.or_false, Bool.false_eq_true, if_false]

theorem splitSign_digit {c : Char} (hc : c.isDigit = true) (cs : List Char) :
    splitSign (c :: cs) = (false, c :: cs) := by
  unfold splitSign
  split
  · rename_i heq; cases heq; exact absurd hc (by decide)
  · rename_i heq; cases heq; exact absurd hc (by decide)
  · rfl

/-- Digits, and maybe a point with digits behind it, are read as the numeral that they spell. -/
theorem read?_literal {c : Char} {ds es fs : List Char} (hc : c.isDigit = true)
    (hds : ∀ d ∈ ds, d.isDigit = true) (hfs : ∀ f ∈ fs, f.isDigit = true)
    (hes : (es = [] ∧ fs = []) ∨ es = '.' :: fs) :
    read? (c :: (ds ++ es)) = some (Numeral.value ⟨false, c :: ds, fs, 0⟩) := by
  have hliteral : ∀ d ∈ c :: (ds ++ es), IsLiteralChar d := by
    intro d hd
    rcases List.mem_cons.mp hd with rfl | hd
    · exact .inl hc
    rcases List.mem_append.mp hd with hd | hd
    · exact .inl (hds d hd)
    rcases hes with ⟨rfl, -⟩ | rfl
    · cases hd
    rcases List.mem_cons.mp hd with rfl | hd
    · exact .inr rfl
    · exact .inl (hfs d hd)
  have hmap : (c :: (ds ++ es)).map asciiDigit = c :: (ds ++ es) := by
    rw [List.map_congr_left (g := id) fun d hd => (hliteral d hd).asciiDigit, List.map_id]
  have hall : ∀ d ∈ c :: ds, d.isDigit = true := by
    intro d hd
    rcases List.mem_cons.mp hd with rfl | hd
    · exact hc
    · exact hds d hd
  unfold read?
  rw [unpad_literal hliteral, hmap, dropUnderscores_literal hliteral]
  simp only [splitSign_digit hc, namedValue?_digit hc]
  unfold numeral?
  rw [← List.cons_append, List.takeWhile_append_of_pos hall, List.dropWhile_append_of_pos hall]
  rcases hes with ⟨rfl, rfl⟩ | rfl
  · simp [splitFraction, exponent?]
  · have hpoint : Char.isDigit '.' = false := rfl
    have htake : fs.takeWhile Char.isDigit = fs := List.takeWhile_eq_self_iff.mpr hfs
    have hrest : fs.dropWhile Char.isDigit = [] := List.dropWhile_eq_nil_iff.mpr hfs
    simp [splitFraction, hpoint, htake, hrest, exponent?]

/-- The text of a number literal. -/
theorem numberLexeme_shape {c : Char} (hc : c.isDigit = true) (cs : List Char) : ∃ ds es,
    (c :: cs).take (numberLength (c :: cs)) = c :: (ds ++ es) ∧ (∀ d ∈ ds, d.isDigit = true) ∧
      (es = [] ∨ ∃ fs, es = '.' :: fs ∧ ∀ f ∈ fs, f.isDigit = true) := by
  have hdigits : ∀ (ds : List Char), ∀ d ∈ ds.takeWhile Char.isDigit, d.isDigit = true :=
    fun ds => List.all_eq_true.mp (List.all_takeWhile (l := ds))
  have htext : (c :: cs).takeWhile Char.isDigit ++ (c :: cs).dropWhile Char.isDigit = c :: cs :=
    List.takeWhile_append_dropWhile
  have hwhole : (c :: cs).takeWhile Char.isDigit = c :: cs.takeWhile Char.isDigit :=
    List.takeWhile_cons_of_pos hc
  refine ⟨cs.takeWhile Char.isDigit, ((c :: cs).dropWhile Char.isDigit).take
    (numberLength (c :: cs) - digitsLength (c :: cs)), ?_, hdigits cs, ?_⟩
  · have hle : ((c :: cs).takeWhile Char.isDigit).length ≤ numberLength (c :: cs) :=
      Nat.le_add_right _ _
    rw [← List.cons_append, ← hwhole]
    calc (c :: cs).take (numberLength (c :: cs))
        = ((c :: cs).takeWhile Char.isDigit ++ (c :: cs).dropWhile Char.isDigit).take
          (numberLength (c :: cs)) := by
          rw [htext]
      _ = ((c :: cs).takeWhile Char.isDigit).take (numberLength (c :: cs)) ++
            ((c :: cs).dropWhile Char.isDigit).take (numberLength (c :: cs) -
              digitsLength (c :: cs)) := List.take_append
      _ = _ := by rw [List.take_of_length_le hle]
  · rw [numberLength, Nat.add_sub_cancel_left]
    cases (c :: cs).dropWhile Char.isDigit with
    | nil => exact .inl rfl
    | cons d ds =>
        by_cases hd : d = '.'
        · subst hd
          by_cases hds : digitsLength ds = 0
          · left
            simp [hds]
          · right
            refine ⟨ds.takeWhile Char.isDigit, ?_, hdigits ds⟩
            simp only [if_neg hds]
            rw [Nat.add_comm, List.take_succ_cons, digitsLength, take_takeWhile]
        · left
          simp [hd]

/-! ## Faults -/

/-- A number literal is at fault only if its value is infinite. -/
theorem infinite_of_lexemeAt {cs : List Char} (h : (lexemeAt cs).1 = .error .invalidNumber) :
    ∃ v, read? (cs.take (lexemeAt cs).2) = some v ∧ isInfinite v = true := by
  cases cs with
  | nil => cases h
  | cons c cs =>
      by_cases hquote : c = '"'
      · subst hquote
        rw [lexemeAt_quote] at h
        split at h <;> cases h
      by_cases hdigit : c.isDigit = true
      · rw [lexemeAt_digit hdigit] at h ⊢
        obtain ⟨ds, es, htext, hds, hes⟩ := numberLexeme_shape hdigit cs
        obtain ⟨v, hv⟩ : ∃ v, read? (c :: (ds ++ es)) = some v := by
          rcases hes with rfl | ⟨fs, rfl, hfs⟩
          · exact ⟨_, read?_literal hdigit hds (List.forall_mem_nil _) (.inl ⟨rfl, rfl⟩)⟩
          · exact ⟨_, read?_literal hdigit hds hfs (.inr rfl)⟩
        rw [← htext] at hv
        refine ⟨v, hv, ?_⟩
        simp only [numberMeaning, hv] at h
        split at h
        · assumption
        · cases h
      by_cases hname : isNameStart c = true
      · rw [lexemeAt_nameStart hname] at h
        cases h
      rw [lexemeAt_other hquote hdigit hname] at h
      split at h <;> cases h

/-- The fault of a number in a text is that of an infinite literal. -/
theorem infinite_of_mem_itemsFrom {f : ScanError} (hf : f.cause = .invalidNumber) :
    ∀ cs p, .error f ∈ itemsFrom cs p → ∃ v, read? f.lexeme.toList = some v ∧ isInfinite v = true := by
  refine text_induction ?_ ?_ ?_ ?_
  · intro p h
    rw [itemsFrom_nil] at h
    cases h
  · intro c cs p hc ih h
    rw [itemsFrom_blank hc] at h
    exact ih h
  · intro cs p ih h
    rw [itemsFrom_comment] at h
    exact ih h
  · intro cs p hne hlayout ih h
    rw [itemsFrom_lexeme hne hlayout] at h
    rcases List.mem_cons.mp h with h | h
    · cases hm : (lexemeAt cs).1 with
      | ok m => rw [hm] at h; cases h
      | error cause =>
          rw [hm] at h
          obtain rfl := Except.error.inj h
          have hcause : cause = .invalidNumber := hf
          rw [hcause] at hm
          obtain ⟨v, hv, hinf⟩ := infinite_of_lexemeAt hm
          exact ⟨v, by rw [String.toList_ofList]; exact hv, hinf⟩
    · exact ih h

end Lox
