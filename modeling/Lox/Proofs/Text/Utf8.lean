import Lox.Text.Utf8
import Mathlib
/-!
# `Text.Utf8` — what the decoder accepts

The decoder undoes the library's encoding of characters: it accepts exactly the bytes that encode
some characters, and gives those characters back (`decode_eq_ok_iff`). Both halves go one character
at a time. What ties a sequence of bytes to a character is arithmetic on the numbers of the bytes,
so the tests on bytes are first put as bounds on numbers.
-/
namespace Lox.Text.Utf8

/-- The bytes that encode characters. -/
def encode (cs : List Char) : List UInt8 := cs.flatMap String.utf8EncodeChar

/-! ## The tests as bounds on numbers -/

/-- The bytes that a first byte may stand for, by how many follow it. -/
inductive Leads (b : Nat) : (wanted bits : Nat) → Prop
  | one : b < 0x80 → Leads b 0 b
  | two : 0xc2 ≤ b → b < 0xe0 → Leads b 1 (b - 0xc0)
  | three : 0xe0 ≤ b → b < 0xf0 → Leads b 2 (b - 0xe0)
  | four : 0xf0 ≤ b → b < 0xf5 → Leads b 3 (b - 0xf0)

/-- The byte `b` may follow `taken` bytes of a sequence: behind the first byte some continuation
bytes are ruled out. -/
def Fits (first taken b : Nat) : Prop :=
  (0x80 ≤ b ∧ b ≤ 0xbf) ∧ (taken = 1 → (first = 0xe0 → 0xa0 ≤ b) ∧ (first = 0xf0 → 0x90 ≤ b) ∧
    (first = 0xed → b ≤ 0x9f) ∧ (first = 0xf4 → b ≤ 0x8f))

theorem lead?_eq_some {b : UInt8} {wanted bits : Nat} :
    lead? b = some (wanted, bits) ↔ Leads b.toNat wanted bits := by
  unfold lead?
  constructor
  · intro h
    grind [Leads]
  · rintro (h | ⟨h, h'⟩ | ⟨h, h'⟩ | ⟨h, h'⟩) <;> grind

theorem continues_iff {b : UInt8} : continues b = true ↔ 0x80 ≤ b.toNat ∧ b.toNat ≤ 0xbf := by
  simp [continues, UInt8.le_iff_toNat_le]

theorem secondFits_iff {first b : UInt8} : secondFits first b = true ↔ Fits first.toNat 1 b.toNat := by
  unfold secondFits Fits
  simp only [← UInt8.toNat_inj, UInt8.le_iff_toNat_le, Bool.and_eq_true, decide_eq_true_eq,
    apply_ite UInt8.toNat, UInt8.toNat_ofNat]
  grind

/-- Taking one more byte of a sequence. -/
theorem follow_succ_eq_ok {first : UInt8} {taken bits wanted code : Nat} {bytes : List UInt8} :
    follow first taken bits (wanted + 1) bytes = .ok code ↔
      ∃ b bs, bytes = b :: bs ∧ Fits first.toNat taken b.toNat ∧
        follow first (taken + 1) (bits * 64 + (b.toNat - 0x80)) wanted bs = .ok code := by
  have hfits (b : UInt8) :
      (if taken = 1 then secondFits first b else continues b) = true ↔
      Fits first.toNat taken b.toNat := by
    by_cases h : taken = 1
    · rw [if_pos h, h]
      exact secondFits_iff
    · rw [if_neg h, continues_iff]
      exact ⟨fun hb => ⟨hb, fun h' => absurd h' h⟩, And.left⟩
  cases bytes with
  | nil => simp [follow]
  | cons b bs =>
      by_cases h : Fits first.toNat taken b.toNat
      · simp [follow, (hfits b).mpr h, h]
      · simp [follow, mt (hfits b).mp h, h]

/-! ## One character -/

/-- The numbers of the bytes that encode a character. -/
def byteNumbers (n : Nat) : List Nat :=
  if n < 0x80 then [n]
  else if n < 0x800 then [n / 64 + 0xc0, n % 64 + 0x80]
  else if n < 0x10000 then [n / 4096 + 0xe0, n / 64 % 64 + 0x80, n % 64 + 0x80]
  else [n / 262144 + 0xf0, n / 4096 % 64 + 0x80, n / 64 % 64 + 0x80, n % 64 + 0x80]

theorem map_toNat_utf8EncodeChar (c : Char) :
    (String.utf8EncodeChar c).map UInt8.toNat = byteNumbers c.toNat := by
  have hvalid : c.toNat.isValidChar := c.valid
  unfold Nat.isValidChar at hvalid
  unfold String.utf8EncodeChar byteNumbers
  simp only [Char.toNat] at hvalid ⊢
  generalize c.val.toNat = n at hvalid
  simp only [apply_ite (List.map UInt8.toNat), List.map_cons, List.map_nil, UInt8.toNat_ofNat']
  grind

theorem utf8EncodeChar_ofNat {n : Nat} (hvalid : n.isValidChar) {bytes : List UInt8}
    (h : bytes.map UInt8.toNat = byteNumbers n) : String.utf8EncodeChar (Char.ofNat n) = bytes := by
  have hnumber : (Char.ofNat n).toNat = n := (Char.toNat_ofNat n).trans (if_pos hvalid)
  refine List.map_injective_iff.mpr (fun _ _ => UInt8.toNat_inj.mp) ?_
  rw [map_toNat_utf8EncodeChar, hnumber, h]

/-- What the decoder takes for a character encodes it. -/
theorem encode_of_follow {b : UInt8} {rest : List UInt8} {wanted bits code : Nat}
    (hlead : Leads b.toNat wanted bits) (h : follow b 1 bits wanted rest = .ok code) :
    String.utf8EncodeChar (Char.ofNat code) = b :: rest.take wanted := by
  cases hlead with
  | one hb =>
      obtain rfl := Except.ok.inj h
      refine utf8EncodeChar_ofNat (.inl (by omega)) ?_
      simp [byteNumbers, hb]
  | two hlo hhi =>
      obtain ⟨b₁, bs, rfl, ⟨h₁, -⟩, h⟩ := follow_succ_eq_ok.mp h
      have hcode := Except.ok.inj h
      refine utf8EncodeChar_ofNat (.inl (by omega)) ?_
      show [b.toNat, b₁.toNat] = byteNumbers code
      rw [byteNumbers, if_neg (by omega), if_pos (by omega)]
      simp only [List.cons.injEq, and_true]
      omega
  | three hlo hhi =>
      obtain ⟨b₁, bs, rfl, ⟨h₁, hfirst⟩, h⟩ := follow_succ_eq_ok.mp h
      obtain ⟨b₂, bs, rfl, ⟨h₂, -⟩, h⟩ := follow_succ_eq_ok.mp h
      have hcode := Except.ok.inj h
      -- The second byte rules out a number that needs two bytes, and the surrogates.
      obtain ⟨hlong, -, hsurrogate, -⟩ := hfirst rfl
      have hvalid : code.isValidChar := by
        unfold Nat.isValidChar
        omega
      refine utf8EncodeChar_ofNat hvalid ?_
      show [b.toNat, b₁.toNat, b₂.toNat] = byteNumbers code
      rw [byteNumbers, if_neg (by omega), if_neg (by omega), if_pos (by omega)]
      simp only [List.cons.injEq, and_true]
      omega
  | four hlo hhi =>
      obtain ⟨b₁, bs, rfl, ⟨h₁, hfirst⟩, h⟩ := follow_succ_eq_ok.mp h
      obtain ⟨b₂, bs, rfl, ⟨h₂, -⟩, h⟩ := follow_succ_eq_ok.mp h
      obtain ⟨b₃, bs, rfl, ⟨h₃, -⟩, h⟩ := follow_succ_eq_ok.mp h
      have hcode := Except.ok.inj h
      -- The second byte rules out a number that needs three bytes, and those beyond the last
      -- character.
      obtain ⟨-, hlong, -, hbeyond⟩ := hfirst rfl
      have hvalid : code.isValidChar := by
        unfold Nat.isValidChar
        omega
      refine utf8EncodeChar_ofNat hvalid ?_
      show [b.toNat, b₁.toNat, b₂.toNat, b₃.toNat] = byteNumbers code
      rw [byteNumbers, if_neg (by omega), if_neg (by omega), if_neg (by omega)]
      simp only [List.cons.injEq, and_true]
      omega

/-- The decoder takes what encodes a character for that character. -/
theorem follow_encode (c : Char) (rest : List UInt8) :
    ∃ b bytes bits, String.utf8EncodeChar c = b :: bytes ∧
    Leads b.toNat bytes.length bits ∧ follow b 1 bits bytes.length (bytes ++ rest) = .ok c.toNat := by
  have hvalid : c.toNat.isValidChar := c.valid
  have hbytes := map_toNat_utf8EncodeChar c
  unfold Nat.isValidChar at hvalid
  unfold byteNumbers at hbytes
  generalize c.toNat = n at hvalid hbytes
  split at hbytes
  · obtain ⟨b, _, hc, hb, hnil⟩ := List.map_eq_cons_iff.mp hbytes
    obtain rfl := List.map_eq_nil_iff.mp hnil
    exact ⟨b, [], _, hc, .one (by omega), congrArg Except.ok hb⟩
  split at hbytes
  · obtain ⟨b, _, hc, hb, htail⟩ := List.map_eq_cons_iff.mp hbytes
    obtain ⟨b₁, _, rfl, hb₁, hnil⟩ := List.map_eq_cons_iff.mp htail
    obtain rfl := List.map_eq_nil_iff.mp hnil
    refine ⟨b, [b₁], _, hc, .two (by omega) (by omega), follow_succ_eq_ok.mpr ⟨b₁, _, rfl, ?_, ?_⟩⟩
    · unfold Fits
      omega
    · exact congrArg Except.ok (by omega)
  split at hbytes
  · obtain ⟨b, _, hc, hb, htail⟩ := List.map_eq_cons_iff.mp hbytes
    obtain ⟨b₁, _, rfl, hb₁, htail⟩ := List.map_eq_cons_iff.mp htail
    obtain ⟨b₂, _, rfl, hb₂, hnil⟩ := List.map_eq_cons_iff.mp htail
    obtain rfl := List.map_eq_nil_iff.mp hnil
    have hfits : Fits b.toNat 1 b₁.toNat ∧ Fits b.toNat 2 b₂.toNat := by
      unfold Fits
      omega
    refine ⟨b, [b₁, b₂], _, hc, .three (by omega) (by omega),
      follow_succ_eq_ok.mpr ⟨b₁, _, rfl, hfits.1, ?_⟩⟩
    exact follow_succ_eq_ok.mpr ⟨b₂, _, rfl, hfits.2, congrArg Except.ok (by omega)⟩
  · obtain ⟨b, _, hc, hb, htail⟩ := List.map_eq_cons_iff.mp hbytes
    obtain ⟨b₁, _, rfl, hb₁, htail⟩ := List.map_eq_cons_iff.mp htail
    obtain ⟨b₂, _, rfl, hb₂, htail⟩ := List.map_eq_cons_iff.mp htail
    obtain ⟨b₃, _, rfl, hb₃, hnil⟩ := List.map_eq_cons_iff.mp htail
    obtain rfl := List.map_eq_nil_iff.mp hnil
    have hfits : Fits b.toNat 1 b₁.toNat ∧ Fits b.toNat 2 b₂.toNat ∧ Fits b.toNat 3 b₃.toNat := by
      unfold Fits
      omega
    refine ⟨b, [b₁, b₂, b₃], _, hc, .four (by omega) (by omega),
      follow_succ_eq_ok.mpr ⟨b₁, _, rfl, hfits.1, follow_succ_eq_ok.mpr ⟨b₂, _, rfl, hfits.2.1, ?_⟩⟩⟩
    exact follow_succ_eq_ok.mpr ⟨b₃, _, rfl, hfits.2.2, congrArg Except.ok (by omega)⟩

/-! ## All characters -/

theorem decodeFrom_encode (cs done : List Char) (position : Nat) :
    decodeFrom done position (encode cs) = .ok (done.reverse ++ cs) := by
  induction cs generalizing done position with
  | nil => simp [encode, decodeFrom]
  | cons c cs ih =>
      obtain ⟨b, bytes, bits, hc, hlead, hfollow⟩ := follow_encode c (encode cs)
      have hencode : encode (c :: cs) = b :: (bytes ++ encode cs) := by
        rw [encode, List.flatMap_cons, hc]
        rfl
      rw [hencode, decodeFrom, lead?_eq_some.mpr hlead]
      simp only [hfollow, Char.ofNat_toNat, List.drop_left, ih, List.reverse_cons, List.append_assoc]
      rfl

theorem encode_of_decodeFrom {done cs : List Char} {position : Nat} {bytes : List UInt8}
    (h : decodeFrom done position bytes = .ok cs) :
    ∃ more, bytes = encode more ∧ cs = done.reverse ++ more := by
  fun_induction decodeFrom done position bytes with
  | case1 => exact ⟨[], rfl, by simpa using h.symm⟩
  | case2 => cases h
  | case3 done position b rest wanted bits hlead code hfollow ih =>
      obtain ⟨more, hrest, rfl⟩ := ih h
      have hchar := encode_of_follow (lead?_eq_some.mp hlead) hfollow
      refine ⟨Char.ofNat code :: more, ?_, by simp⟩
      calc b :: rest
        _ = (b :: rest.take wanted) ++ rest.drop wanted := by simp
        _ = String.utf8EncodeChar (Char.ofNat code) ++ encode more := by rw [hchar, hrest]
        _ = encode (Char.ofNat code :: more) := rfl
  | case4 => cases h

/-- Decoding is the inverse of encoding. -/
theorem decode_eq_ok_iff {bytes : List UInt8} {cs : List Char} :
    decode bytes = .ok cs ↔ bytes = encode cs := by
  constructor
  · intro h
    obtain ⟨more, hbytes, hcs⟩ := encode_of_decodeFrom h
    rw [hbytes, hcs]
    rfl
  · rintro rfl
    exact decodeFrom_encode cs [] 0

end Lox.Text.Utf8
