import Lox.Grammar.Phrase
import Lox.Proofs.Grammar.Match
import Lox.Proofs.Number.Doubles
import Lox.Proofs.Scan.Munch
/-!
# `Number.Limits` — what a number literal stands for

A number literal spells a fraction (`Spells`), and the fraction decides on all that is made of the
literal: below `limit` it stands for the nearest double, and from there on it is at fault
(`Spells.meaning`). That a literal could not be read at all does not happen. Scanning and the
grammar read literals on their own, and say the same of each.
-/
namespace Lox.Number

/-! ## Spelling -/

/-- The text of a literal, and the number it spells: digits stand for a whole number, and those
behind a point for as many parts of a power of ten. -/
inductive Spells : List Char → ℚ → Prop where
  | whole {ds : List Char} : ds ≠ [] → (∀ d ∈ ds, d.isDigit = true) → Spells ds (ofDigits ds)
  | decimal {ds es : List Char} : ds ≠ [] → (∀ d ∈ ds, d.isDigit = true) → es ≠ [] →
      (∀ e ∈ es, e.isDigit = true) →
      Spells (ds ++ '.' :: es) (ofDigits ds + ofDigits es / 10 ^ es.length)

/-- The value of a numeral without sign and exponent is its number, rounded. -/
theorem value_eq_ofRat (whole fraction : List Char) :
    Numeral.value ⟨false, whole, fraction, 0⟩ = ofRat
      (ofDigits whole + ofDigits fraction / 10 ^ fraction.length) := by
  have hpos : 0 < Nat.pow 10 fraction.length := Nat.pow_pos (by decide)
  have hvalue : ((ofDigits (whole ++ fraction) : Nat) : ℚ) / (Nat.pow 10 fraction.length : Nat) =
      ofDigits whole + ofDigits fraction / 10 ^ fraction.length := by
    rw [ofDigits_append, Nat.pow_eq]
    push_cast
    field_simp
  rw [Numeral.value_eq, nearest_eq_ofRat _ hpos, hvalue]

theorem exists_spells {w : List Char} (h : NumberText w) : ∃ x, Spells w x := by
  cases h with
  | whole hne hds => exact ⟨_, .whole hne hds⟩
  | decimal hne hds hes hdigits => exact ⟨_, .decimal hne hds hes hdigits⟩

namespace Spells

variable {w : List Char} {x : ℚ}

theorem numberText (h : Spells w x) : NumberText w := by
  cases h with
  | whole hne hds => exact .whole hne hds
  | decimal hne hds hes hdigits => exact .decimal hne hds hes hdigits

theorem nonneg (h : Spells w x) : 0 ≤ x := by
  cases h with
  | whole _ _ => exact Nat.cast_nonneg _
  | decimal _ _ _ _ => positivity

/-- A literal is read as the double that its number is rounded to. -/
theorem read? (h : Spells w x) : Number.read? w = some (ofRat x) := by
  cases h with
  | whole hne hds =>
      obtain ⟨c, ds, rfl⟩ := List.exists_cons_of_ne_nil hne
      have hread := read?_literal (hds c List.mem_cons_self)
        (fun d hd => hds d (List.mem_cons_of_mem c hd))
        (List.forall_mem_nil _) (.inl ⟨rfl, rfl⟩)
      rw [List.append_nil, value_eq_ofRat] at hread
      simpa [ofDigits] using hread
  | decimal hne hds hes hdigits =>
      obtain ⟨c, ds, rfl⟩ := List.exists_cons_of_ne_nil hne
      have hread := read?_literal (hds c List.mem_cons_self)
        (fun d hd => hds d (List.mem_cons_of_mem c hd)) hdigits
        (.inr rfl)
      rw [value_eq_ofRat] at hread
      exact hread

/-- What a literal stands for. -/
theorem meaning (h : Spells w x) :
    numberMeaning w = if limit ≤ x then .error .invalidNumber else .ok (.number (ofRat x)) := by
  simp only [numberMeaning, h.read?, isInfinite_ofRat h.nonneg]

/-! ### Zeros -/

/-- Zeros before a literal change nothing. -/
theorem leading_zeros (h : Spells w x) (n : Nat) : Spells (List.replicate n '0' ++ w) x := by
  have hzeros : ∀ ds : List Char, ofDigits (List.replicate n '0' ++ ds) = ofDigits ds := by
    intro ds
    rw [ofDigits_append, ofDigits_replicate, Nat.zero_mul, Nat.zero_add]
  have hdigits : ∀ ds : List Char, (∀ d ∈ ds, d.isDigit = true) →
      ∀ d ∈ List.replicate n '0' ++ ds, d.isDigit = true := by
    intro ds hds d hd
    rcases List.mem_append.mp hd with hd | hd
    · exact isDigit_of_mem_replicate hd
    · exact hds d hd
  cases h with
  | @whole _ hne hds =>
      rw [← hzeros]
      exact .whole (List.append_ne_nil_of_right_ne_nil _ hne) (hdigits _ hds)
  | @decimal ds es hne hds hes hfraction =>
      rw [← hzeros, ← List.append_assoc]
      exact .decimal (List.append_ne_nil_of_right_ne_nil _ hne) (hdigits _ hds) hes hfraction

/-- Zeros behind a fraction change nothing. -/
theorem trailing_zeros (h : Spells w x) (hpoint : '.' ∈ w) (n : Nat) :
    Spells (w ++ List.replicate n '0') x := by
  cases h with
  | whole _ hds => exact absurd (hds '.' hpoint) (by decide)
  | @decimal ds es hne hds hes hdigits =>
      have hvalue : ((ofDigits (es ++ List.replicate n '0') : Nat) : ℚ) / 10 ^
        (es ++ List.replicate n '0').length = ofDigits es / 10 ^ es.length := by
        rw [ofDigits_append, ofDigits_replicate, List.length_append, List.length_replicate, pow_add]
        push_cast
        field_simp
        ring
      rw [← hvalue, List.append_assoc, List.cons_append]
      refine .decimal hne hds (List.append_ne_nil_of_left_ne_nil hes _) fun d hd => ?_
      rcases List.mem_append.mp hd with hd | hd
      · exact hdigits d hd
      · exact isDigit_of_mem_replicate hd

/-- Nor does a fraction of zeros. -/
theorem zero_fraction (h : Spells w x) (hpoint : '.' ∉ w) (n : Nat) :
    Spells (w ++ '.' :: List.replicate (n + 1) '0') x := by
  cases h with
  | whole hne hds =>
      have hspells := decimal hne hds (List.cons_ne_nil '0' (List.replicate n '0'))
        (fun d hd => isDigit_of_mem_replicate (n := n + 1) hd)
      rw [← List.replicate_succ, ofDigits_replicate, Nat.cast_zero, zero_div, add_zero] at hspells
      exact hspells
  | decimal _ _ _ _ => exact absurd (List.mem_append_right _ List.mem_cons_self) hpoint

end Spells

/-! ## Literals in a text -/

/-- What stands for a number is a number literal. -/
theorem numberText_of_meaning {w : List Char} {v : Float} (h : LexemeText w)
    (hv : (lexemeAt w).1 = .ok (.number v)) :
    NumberText w := by
  cases h with
  | string h =>
      obtain ⟨body, hbody, rfl⟩ := h
      rw [lexemeAt_string hbody] at hv
      cases hv
  | number h => exact h
  | name h =>
      rw [lexemeAt_name (.self h), nameMeaning] at hv
      split at hv <;> cases hv
  | sign h =>
      obtain ⟨m, hm, rfl⟩ := h
      rw [lexemeAt_sign hm (.self ⟨m, hm, rfl⟩)] at hv
      cases hv

/-- A literal is where a digit is. -/
theorem exists_literal {cs : List Char} {d : Char} (h : d ∈ cs.head?) (hd : d.isDigit = true) :
    ∃ w x, Spells w x ∧ Longest NumberText cs w := by
  cases cs with
  | nil => cases h
  | cons c cs =>
      obtain rfl : c = d := Option.some.inj h
      obtain ⟨w, hw, -⟩ := exists_longest_number hd cs
      obtain ⟨x, hx⟩ := exists_spells hw.holds
      exact ⟨w, x, hx, hw⟩

/-- The item of a literal. -/
theorem Spells.item {w : List Char} {x : ℚ} (h : Spells w x) (p : Place) :
    itemOf p w (numberMeaning w) =
      if limit ≤ x then .error ⟨.invalidNumber, p, String.ofList w⟩
        else .ok ⟨.number (ofRat x), p, String.ofList w⟩ := by
  rw [h.meaning]
  split <;> rfl

theorem Spells.scan_eq {w : List Char} {x : ℚ} (h : Spells w x) : scan (String.ofList w) =
    [if limit ≤ x then .error ⟨.invalidNumber, .origin, String.ofList w⟩
      else .ok ⟨.number (ofRat x), .origin, String.ofList w⟩] := by
  rw [scan_lexemeText (.number h.numberText), lexemeAt_number (.self h.numberText), h.item]

/-- A number that is reported in a text is too large. -/
theorem limit_le_of_mem_scan {s : String} {f : ScanError} (h : .error f ∈ scan s)
    (hf : f.cause = .invalidNumber) :
    ∃ x, Spells f.lexeme.toList x ∧ limit ≤ x := by
  have hdescribes := ((tokenisation_scan s).fits _ h).2.describes
  simp only [Describes, hf] at hdescribes
  obtain ⟨hlongest, hscan⟩ := hdescribes
  obtain ⟨x, hx⟩ := exists_spells hlongest.holds
  refine ⟨x, hx, ?_⟩
  have hitem := hx.scan_eq
  rw [String.ofList_toList, hscan] at hitem
  by_contra hlt
  rw [if_neg hlt] at hitem
  cases hitem

/-- The limit is a whole number. -/
theorem cast_limit : ((2 ^ 1024 - 2 ^ 970 : Nat) : ℚ) = limit := by
  have hcast : ∀ {a b : Nat}, b ≤ a → ((2 ^ a - 2 ^ b : Nat) : ℚ) = 2 ^ a - 2 ^ b := by
    intro a b hle
    rw [Nat.cast_sub (Nat.pow_le_pow_right (by decide) hle), Nat.cast_pow, Nat.cast_pow, Nat.cast_ofNat]
  exact hcast (by decide)

/-- A number in a text is the double that its literal is rounded to. -/
theorem eq_ofRat_of_mem_scan {s : String} {t : Token} {v : Float} (h : .ok t ∈ scan s)
    (ht : t.meaning = .number v) :
    ∃ x, Spells t.lexeme.toList x ∧ x < limit ∧ v = ofRat x := by
  obtain ⟨hlongest, hscan⟩ : Describes _ (.ok t) := ((tokenisation_scan s).fits _ h).2.describes
  have hitem := scan_lexemeText hlongest.holds
  rw [String.ofList_toList, hscan] at hitem
  have hmeaning : (lexemeAt t.lexeme.toList).1 = .ok (.number v) := by
    cases hlex : (lexemeAt t.lexeme.toList).1 with
    | error cause =>
        rw [hlex] at hitem
        cases hitem
    | ok m =>
        rw [hlex] at hitem
        have hsame : t.meaning = m :=
          congrArg Token.meaning (Except.ok.inj (List.singleton_inj.mp hitem))
        rw [← hsame, ht]
  have hnumber := numberText_of_meaning hlongest.holds hmeaning
  obtain ⟨x, hx⟩ := exists_spells hnumber
  rw [lexemeAt_number (.self hnumber), hx.meaning] at hmeaning
  refine ⟨x, hx, ?_⟩
  split at hmeaning
  · cases hmeaning
  · rename_i hlt
    exact ⟨lt_of_not_ge hlt, (Meaning.number.inj (Except.ok.inj hmeaning)).symm⟩

/-! ## Both readings -/

/-- All that is made of a literal is decided by the number it spells. -/
structure DecidedBy (x : ℚ) (w : List Char) : Prop where
  /-- Scanning reports the literal, or takes it for the number that it is rounded to. -/
  scanned : ∀ c : Cursor, Longest NumberText c.rest w → c.scanToken.1 =
    if limit ≤ x then .error ⟨.invalidNumber, c.here, String.ofList w⟩
      else .ok ⟨.number (ofRat x), c.here, String.ofList w⟩
  /-- The text that was taken has a value in either case. -/
  read : ∀ c : Cursor, Longest NumberText c.rest w → read? c.scanToken.2.lexeme = some (ofRat x)
  /-- The grammar takes the same text for a number. -/
  matched : ∀ cs, Longest NumberText cs w → Grammar.match? cs = some (.terminal .number, w.length)
  /-- The grammar refuses the literal, or makes of it what scanning takes it for. -/
  built : ∀ p, Grammar.Terminal.number ⟨.number, String.ofList w, p⟩ =
    if limit ≤ x then .error (.invalidNumber (String.ofList w) p)
      else .ok (.literal (.number (ofRat x)))
  nearest : x < limit → IsNearest x (ofRat x) ∧ isNegative (ofRat x) = false
  mono : ∀ y, x ≤ y → y < limit → exactValue (ofRat x) ≤ exactValue (ofRat y)

theorem Spells.decidedBy {w : List Char} {x : ℚ} (h : Spells w x) : DecidedBy x w := by
  have hlexeme : ∀ {cs}, Longest NumberText cs w → cs.take w.length = w := fun hlongest =>
    (List.prefix_iff_eq_take.mp hlongest.isPrefix).symm
  refine ⟨?_, ?_, ?_, ?_, ?_, ?_⟩
  · intro c hlongest
    rw [scanToken_eq, lexemeAt_number hlongest, hlexeme hlongest]
    exact h.item c.here
  · intro c hlongest
    rw [scanToken_eq, lexemeAt_number hlongest, Cursor.lexeme_advance_begin, hlexeme hlongest]
    exact h.read?
  · intro cs hlongest
    obtain ⟨d, v, rfl, hd⟩ := h.numberText.head
    obtain ⟨rest, rfl⟩ := hlongest.isPrefix
    have hlength := congrArg Prod.snd (lexemeAt_number hlongest)
    rw [List.cons_append, lexemeAt_digit hd] at hlength
    rw [List.cons_append, Grammar.match?_digit hd]
    exact congrArg (fun n => some (Grammar.Role.terminal .number, n)) hlength
  · intro p
    simp only [Grammar.Terminal.number, String.toList_ofList, h.read?, isInfinite_ofRat h.nonneg]
  · intro hlt
    exact ⟨isNearest_ofRat h.nonneg hlt, isNegative_nearest _ _⟩
  · intro y hle hlt
    exact exactValue_ofRat_mono h.nonneg hle hlt

/-- Number literals at their limits: what is made of a literal is decided by the number it spells,
by scanning and by the grammar alike. From the limit on it is refused, and below it stands for the
nearest double. Zeros in front, and behind a point, make no difference. Where a digit is, there is a
literal, so that no text is taken for a number that has no value; and all numbers and all reports of
numbers in a text come from literals. -/
theorem literals_at_their_limits :
    (∀ w x, Spells w x → DecidedBy x w ∧ (∀ n, Spells (List.replicate n '0' ++ w) x) ∧
      ('.' ∈ w → ∀ n, Spells (w ++ List.replicate n '0') x) ∧
      ('.' ∉ w → ∀ n, Spells (w ++ '.' :: List.replicate (n + 1) '0') x)) ∧
    (∀ c : Cursor, ∀ d ∈ c.rest.head?, d.isDigit = true → ∃ w x, Spells w x ∧
      Longest NumberText c.rest w) ∧
    (∀ s f, .error f ∈ scan s → f.cause = .invalidNumber → ∃ x, Spells f.lexeme.toList x ∧ limit ≤ x) ∧
    (∀ s t v, .ok t ∈ scan s → t.meaning = .number v → ∃ x, Spells t.lexeme.toList x ∧ x < limit ∧
      v = ofRat x) := by
  refine ⟨?_, ?_, ?_, ?_⟩
  · intro w x h
    exact ⟨h.decidedBy, h.leading_zeros, h.trailing_zeros, h.zero_fraction⟩
  · intro c d hd hdigit
    exact exists_literal hd hdigit
  · intro s f hf hcause
    exact limit_le_of_mem_scan hf hcause
  · intro s t v ht hv
    exact eq_ofRat_of_mem_scan ht hv

/-- A row of digits spells the number that it stands for. -/
theorem spells_toDigits (n : Nat) : Spells (Nat.toDigits 10 n) n := by
  have hdigits : ∀ d ∈ Nat.toDigits 10 n, d.isDigit = true := fun d hd =>
    Nat.isDigit_of_mem_toDigits (by decide) (by decide) hd
  have hspells := Spells.whole Nat.toDigits_ne_nil hdigits
  rwa [ofDigits_toDigits] at hspells

/-- The digits of the limit itself are refused, and those of the number before it are not. What lies
halfway between two doubles is rounded to the even one. -/
theorem literals_at_their_limits_boundary :
    ((Cursor.ofChars (Nat.toDigits 10 (2 ^ 1024 - 2 ^ 970))).scanToken.1 =
      .error ⟨.invalidNumber, .origin, String.ofList (Nat.toDigits 10 (2 ^ 1024 - 2 ^ 970))⟩) ∧
    (∃ v, (Cursor.ofChars (Nat.toDigits 10 (2 ^ 1024 - 2 ^ 970 - 1))).scanToken.1 =
      .ok ⟨.number v, .origin, String.ofList (Nat.toDigits 10 (2 ^ 1024 - 2 ^ 970 - 1))⟩) ∧
    (Cursor.ofChars (Nat.toDigits 10 9007199254740993)).scanToken.1 =
      .ok ⟨.number 9007199254740992, .origin, String.ofList (Nat.toDigits 10 9007199254740993)⟩ := by
  have hscan : ∀ n : Nat, (Cursor.ofChars (Nat.toDigits 10 n)).scanToken.1 = _ := fun n =>
    (literals_at_their_limits.1 _ _ (spells_toDigits n)).1.scanned (Cursor.ofChars _)
      (.self (spells_toDigits n).numberText)
  have hlimit : limit = (2 ^ 1024 - 2 ^ 970 : Nat) := cast_limit.symm
  have hpos : 0 < 2 ^ 1024 - 2 ^ 970 := by decide +kernel
  have hhalf : ¬ limit ≤ (9007199254740993 : Nat) := by
    rw [hlimit, Nat.cast_le]
    decide +kernel
  have heven : ofRat (9007199254740993 : Nat) = 9007199254740992 := by
    apply Float.toBits_inj.mp
    decide +kernel
  refine ⟨?_, ⟨ofRat (2 ^ 1024 - 2 ^ 970 - 1 : Nat), ?_⟩, ?_⟩
  · rw [hscan, if_pos hlimit.le]
    rfl
  · rw [hscan, if_neg ?_]
    · rfl
    · rw [hlimit, Nat.cast_le]
      exact Nat.not_le.mpr (Nat.sub_lt hpos Nat.one_pos)
  · rw [hscan, if_neg hhalf, heven]
    rfl

end Lox.Number
