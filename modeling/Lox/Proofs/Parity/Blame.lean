import Lox.Proofs.Parity.Acceptance
import Lox.Proofs.Scan.Order
/-!
# `Parity.Blame` — the two front ends point at the same place

Both stop at the first terminal that cannot be right, and both can tell it at once. So on a text
without form feeds they blame the same place, but for two cases. At the end of input the grammar
names the last terminal, and descent the end. And descent stops at an infinite number when it comes
to it, while the grammar first reads the whole text and may find another error behind the number.
-/
namespace Lox

variable {α β : Type}

/-! ## Where an error is -/

/-- Where an error of the grammar is in a text: the end of input is at the end of the text. -/
def Grammar.Error.placeIn (s : String) : Grammar.Error → Option Place
  | .unexpectedEnd _ => some (Place.origin.after s.toList)
  | e => e.place?

/-- Descent stops at an infinite literal, and the grammar behind it. -/
def StopsEarlier (s : String) (e : Descent.Error) (e' : Grammar.Error) : Prop :=
  ∃ f v q, e = .lexical f ∧ f.cause = .invalidNumber ∧ Number.read? f.lexeme.toList = some v ∧
    Number.isInfinite v = true ∧ e'.placeIn s = some q ∧ f.place.Before q

/-- The grammar is not at the end of input, and both errors have the same row and column. -/
def SamePlace (e : Descent.Error) (e' : Grammar.Error) : Prop :=
  (∀ p, e' ≠ .unexpectedEnd p) ∧ ∃ p q, e.place? = some p ∧ e'.place? = some q ∧ p.row = q.row ∧
    p.col = q.col

/-- Both are at the end of input. -/
def BothAtEnd (e : Descent.Error) (e' : Grammar.Error) : Prop :=
  (∃ p, e' = .unexpectedEnd p) ∧ e.tag = .endOfFile

/-- Exactly one of the three holds. -/
def ExactlyOne (a b c : Prop) : Prop := (a ∧ ¬ b ∧ ¬ c) ∨ (¬ a ∧ b ∧ ¬ c) ∨ (¬ a ∧ ¬ b ∧ c)

/-- The grammar rejects what descent rejects, with an error at the same place as far as there can be
one. -/
structure PointsAlike (s : String) (made : Except Grammar.Error β) (read : Except Descent.Error β) :
    Prop where
  rejected : ∀ e, read = .error e → ¬e.IsTooDeep → ∃ e', made = .error e' ∧
    (e' ≠ .tooDeep → ExactlyOne (StopsEarlier s e e') (SamePlace e e') (BothAtEnd e e'))
  /-- A number that the grammar finds infinite is the one that descent stops at. -/
  number : ∀ text p, made = .error (.invalidNumber text p) →
    Descent.TooDeep read ∨ read = .error (.lexical ⟨.invalidNumber, p, text⟩)

/-- The three cases exclude each other. -/
theorem exactlyOne_of_or {s : String} {e : Descent.Error} {e' : Grammar.Error}
    (h : StopsEarlier s e e' ∨ SamePlace e e' ∨ BothAtEnd e e') :
    ExactlyOne (StopsEarlier s e e') (SamePlace e e') (BothAtEnd e e') := by
  have hearlier : StopsEarlier s e e' → ¬ SamePlace e e' := by
    rintro ⟨f, v, q, rfl, -, -, -, hq, hbefore⟩ ⟨hend, p, q', hp, hq', hrow, hcol⟩
    have hplace : e'.placeIn s = e'.place? := by
      cases e' with
      | unexpectedEnd p => exact absurd rfl (hend p)
      | unexpected t | unmatched c p | invalidNumber text p | tooDeep => rfl
    rw [hplace, hq'] at hq
    cases hq
    cases hp
    rcases hbefore with h | ⟨-, h⟩
    · omega
    · omega
  have hlexical : StopsEarlier s e e' → ¬ BothAtEnd e e' := by
    rintro ⟨f, v, q, rfl, -⟩ ⟨-, htag⟩
    cases htag
  have hend : SamePlace e e' → ¬ BothAtEnd e e' := by
    rintro ⟨hne, -⟩ ⟨⟨p, hp⟩, -⟩
    exact hne p hp
  rcases h with h | h | h
  · exact .inl ⟨h, hearlier h, hlexical h⟩
  · exact .inr (.inl ⟨fun h' => hearlier h' h, h, hend h⟩)
  · exact .inr (.inr ⟨fun h' => hlexical h' h, fun h' => hend h' h, h⟩)

theorem place?_of_token? {e : Descent.Error} {t : Token} (h : e.token? = some t) :
    e.place? = some t.place := by
  cases e with
  | lexical f | tooDeep p => cases h
  | missing k note u | noOperand u | trailing u => cases h; rfl

namespace Parity

open Descent Grammar

/-! ## Places of terminals -/

/-- Where the grammar sees something. -/
def Seen.place? : Seen → Option Place
  | terminal t => some t.place
  | blank => none
  | stuck _ p => some p

theorem place_of_seenAs {item : Item} {p : Place} (h : (seenAs item).place? = some p) :
    itemPlace item = p := by
  cases item with
  | ok t =>
      simp only [seenAs] at h
      split at h
      · cases h; rfl
      · cases h; rfl
  | error e =>
      simp only [seenAs] at h
      split at h
      · cases h; rfl
      · split at h
        · cases h
        · cases h; rfl
      · cases h; rfl

/-- Terminals, and the character at which the grammar is stuck, stand where items stand. -/
theorem place_of_terminalsOf (items : List Item) :
    (∀ t ∈ (terminalsOf items).list, ∃ item ∈ items, itemPlace item = t.place) ∧
      ∀ c p, (terminalsOf items).stuck = some (c, p) → ∃ item ∈ items, itemPlace item = p := by
  induction items with
  | nil => exact ⟨by simp [terminalsOf], by simp [terminalsOf]⟩
  | cons item items ih =>
      obtain ⟨hlist, hstuck⟩ := ih
      have hhere : ∀ {q}, (seenAs item).place? = some q → ∃ i ∈ item :: items, itemPlace i = q :=
        fun hq => ⟨item, List.mem_cons_self, place_of_seenAs hq⟩
      have hlater : ∀ {q}, (∃ i ∈ items, itemPlace i = q) → ∃ i ∈ item :: items, itemPlace i = q := by
        rintro q ⟨i, hi, hq⟩
        exact ⟨i, List.mem_cons_of_mem _ hi, hq⟩
      rw [terminalsOf]
      cases hseen : seenAs item with
      | blank => exact ⟨fun t ht => hlater (hlist t ht), fun c p h => hlater (hstuck c p h)⟩
      | stuck c p =>
          refine ⟨fun t ht => (by cases ht), fun c' p' h => ?_⟩
          cases h
          exact hhere (by rw [hseen]; rfl)
      | terminal t =>
          refine ⟨fun u hu => ?_, fun c p h => hlater (hstuck c p h)⟩
          rcases List.mem_cons.mp hu with rfl | hu
          · exact hhere (by rw [hseen]; rfl)
          · exact hlater (hlist u hu)

/-- Everything behind an item of a text, its end included, is at a later place. -/
theorem before_of_split {s : String} {items rest : List Item} {f : ScanError}
    (h : scan s = items ++ .error f :: rest) :
    (∀ t ∈ (terminalsOf rest).list, f.place.Before t.place) ∧
      (∀ c p, (terminalsOf rest).stuck = some (c, p) → f.place.Before p) ∧
      f.place.Before (Place.origin.after s.toList) := by
  obtain ⟨hbounds, hpairs⟩ := ordered_itemsFrom s.toList .origin
  rw [← scan_eq, h] at hbounds hpairs
  have hlater : ∀ item ∈ rest, f.place.Before (itemPlace item) := by
    have hrest := (List.pairwise_append.mp hpairs).2.1
    exact (List.pairwise_cons.mp hrest).1
  obtain ⟨hlist, hstuck⟩ := place_of_terminalsOf rest
  refine ⟨fun t ht => ?_, fun c p hp => ?_, ?_⟩
  · obtain ⟨item, hitem, hplace⟩ := hlist t ht
    rw [← hplace]
    exact hlater item hitem
  · obtain ⟨item, hitem, hplace⟩ := hstuck c p hp
    rw [← hplace]
    exact hlater item hitem
  · exact (hbounds (.error f) (List.mem_append_right _ List.mem_cons_self)).2

/-! ## Splits -/

/-- If the first of two ways to split a list does not fall into the first part of the other one, it
falls into the second part. -/
theorem split_of_ne {γ : Type} {us vs xs ys : List γ} {t : γ} (h : us ++ t :: vs = xs ++ ys)
    (hxs : ∀ zs, xs ≠ us ++ t :: zs) : ∃ zs, us = xs ++ zs ∧ zs ++ t :: vs = ys := by
  rcases List.append_eq_append_iff.mp h with ⟨zs, hsplit, hys⟩ | ⟨zs, hus, hys⟩
  · cases zs with
    | nil => exact ⟨[], by simpa using hsplit.symm, hys⟩
    | cons z zs =>
        cases hys
        exact absurd hsplit (hxs zs)
  · exact ⟨zs, hus, hys.symm⟩

/-! ## Infinite numbers -/

/-- The number of a token that spells what it stands for is finite. -/
theorem finite_of_genuine {t : Token} (ht : t.Genuine) (hnumber : t.terminal.isNumber = true) :
    t.terminal.Finite := by
  obtain ⟨m, place, lexeme⟩ := t
  cases m with
  | number v =>
      obtain ⟨hread, hfinite⟩ : Number.read? lexeme.toList = some v ∧ Number.isInfinite v = false := ht
      refine ⟨.literal (.number v), ?_⟩
      simp [Terminal.number, Token.terminal, hread, hfinite]
  | mark m | identifier name | string text | endOfInput => cases hnumber

theorem finite_of_mem_tokens {s : String} {t : Terminal}
    (ht : t ∈ ((Stream.upToFault (scan s)).1.map Token.terminal).filter Terminal.isNumber) :
    t.Finite := by
  obtain ⟨hmem, hnumber⟩ := List.mem_filter.mp ht
  obtain ⟨u, hu, rfl⟩ := List.mem_map.mp hmem
  exact finite_of_genuine (genuine_of_mem_ofText hu) hnumber

/-- The first number that is not finite is the same however it is found. -/
theorem eq_of_first_infinite {us vs xs ys : List Terminal} {t u : Terminal}
    (h : us ++ t :: vs = xs ++ u :: ys) (hus : ∀ x ∈ us, x.Finite) (ht : ¬ t.Finite)
    (hxs : ∀ x ∈ xs, x.Finite) (hu : ¬ u.Finite) : t = u := by
  have hne : ∀ zs, xs ≠ us ++ t :: zs := by
    intro zs hsplit
    exact ht (hxs t (by simp [hsplit]))
  obtain ⟨zs, hzs, hrest⟩ := split_of_ne h hne
  cases zs with
  | nil => exact (List.cons.inj hrest).1
  | cons z zs =>
      obtain rfl := (List.cons.inj hrest).1
      exact absurd (hus z (by simp [hzs])) hu

/-- If making a tree fails at a number, that number is the first fault of the text. -/
theorem Goal.fault_of_build (g : Goal α β) {s : String} {a : α} {r : Reader} {f : ScanError}
    {rest : List Item} {us vs : List Terminal} {t : Terminal} {e : Grammar.Error}
    (hrun : g.start.shiftAll (terminalsOf (scan s)).list = .ok r) (ha : g.complete? r = some a)
    (hlist : (terminalsOf (scan s)).list = (Stream.upToFault (scan s)).1.map Token.terminal ++
      ⟨.number, f.lexeme, f.place⟩ :: (terminalsOf rest).list)
    (hinfinite : ∃ v, Number.read? f.lexeme.toList = some v ∧ Number.isInfinite v = true)
    (hnumbers : g.numbers a = us ++ t :: vs) (hus : ∀ u ∈ us, u.Finite) (ht : t.number = .error e) :
    e = .invalidNumber f.lexeme f.place := by
  have hfault : Terminal.number ⟨.number, f.lexeme, f.place⟩ =
      .error (.invalidNumber f.lexeme f.place) :=
    number_of_infinite hinfinite
  have hnot : ∀ {u : Terminal} {e}, u.number = .error e → ¬ u.Finite := by
    rintro u e hu ⟨e', he'⟩
    cases hu.symm.trans he'
  have hsplit := hnumbers.symm.trans (g.numbers_eq hrun ha)
  rw [hlist, List.filter_append, List.filter_cons_of_pos rfl] at hsplit
  have hsame := eq_of_first_infinite hsplit hus (hnot ht) (fun x hx => finite_of_mem_tokens hx)
    (hnot hfault)
  rw [hsame, hfault] at ht
  exact (Except.error.inj ht).symm

/-! ## The grammar where descent fails -/

/-- If the reader shifts the tokens before an infinite number and the text is not derived, it fails
at that number or behind it. -/
theorem blames_behind_number {start : Reader} {complete? : Reader → Option α} {s : String}
    {f : ScanError} {rest : List Item} {r : Reader} {e : Grammar.Error}
    (hderived : Derived start complete? (terminalsOf (scan s)) (.error e))
    (hcause : f.cause = .invalidNumber)
    (hsplit : scan s = (Stream.upToFault (scan s)).1.map .ok ++ .error f :: rest)
    (hts : terminalsOf (scan s) = ⟨(Stream.upToFault (scan s)).1.map Token.terminal ++
      ⟨.number, f.lexeme, f.place⟩ :: (terminalsOf rest).list, (terminalsOf rest).stuck⟩)
    (hrun : start.shiftAll ((Stream.upToFault (scan s)).1.map Token.terminal) = .ok r) :
    StopsEarlier s (.lexical f) e ∨ SamePlace (.lexical f) e := by
  obtain ⟨v, hread, hinfinite⟩ := infinite_of_split hsplit hcause
  obtain ⟨hlater, hstuckLater, hend⟩ := before_of_split hsplit
  have hearlier : ∀ {q}, e.placeIn s = some q → f.place.Before q → StopsEarlier s (.lexical f) e :=
    fun hq hbefore => ⟨f, v, _, rfl, hcause, hread, hinfinite, hq, hbefore⟩
  cases hderived with
  | @refused us t vs q hlist hus ht =>
      -- The reader shifts all tokens, so it is refused the number or something behind it.
      have hne : ∀ zs, (Stream.upToFault (scan s)).1.map Token.terminal ≠ us ++ t :: zs := by
        intro zs hzs
        rw [hzs, shiftAll_append_refused hus ht] at hrun
        cases hrun
      obtain ⟨zs, -, hrest⟩ := split_of_ne (hlist.symm.trans (congrArg Terminals.list hts)) hne
      cases zs with
      | nil =>
          cases hrest
          exact .inr ⟨nofun, f.place, f.place, rfl, rfl, rfl, rfl⟩
      | cons z zs =>
          refine .inl (hearlier rfl (hlater t ?_))
          rw [← (List.cons.inj hrest).2]
          exact List.mem_append_right _ List.mem_cons_self
  | @unmatched _ c p _ hp =>
      rw [hts] at hp
      exact .inl (hearlier rfl (hstuckLater c p hp))
  | unfinished _ _ _ => exact .inl (hearlier rfl hend)

section

variable (g : Goal α β) {s : String} (hfeed : ∀ item ∈ scan s, isFormFeed item = false)

include hfeed

/-- Where descent is refused a token, the grammar rejects the text at the same place. -/
theorem Goal.make_of_refused {us ts : List Token} {t : Token} {r : Reader}
    (htokens : (Stream.upToFault (scan s)).1 = us ++ t :: ts)
    (hus : g.start.shiftAll (us.map Token.terminal) = .ok r) (ht : r.shift t.terminal = none) :
    ∃ e', g.make s = .error e' ∧ e'.place? = some t.place ∧ ∀ p, e' ≠ .unexpectedEnd p := by
  have hderived := derived_derive g.start g.complete? s
  have hthrough : ∀ vs, (terminalsOf (scan s)).list = us.map Token.terminal ++ t.terminal :: vs →
      ∃ e', g.make s = .error e' ∧ e'.place? = some t.place ∧ ∀ p, e' ≠ .unexpectedEnd p := by
    intro vs hlist
    exact ⟨_, g.make_of_error (hderived.eq_unexpected hlist hus ht), rfl, nofun⟩
  have hall : (Stream.upToFault (scan s)).1.map Token.terminal =
      us.map Token.terminal ++ t.terminal :: ts.map Token.terminal := by
    rw [htokens, List.map_append, List.map_cons]
  cases divided hfeed with
  | whole _ hts => exact hthrough _ (by rw [hts]; exact hall)
  | stuck _ _ hts => exact hthrough _ (by rw [hts]; exact hall)
  | infinite _ _ _ hts =>
      have hlist := congrArg Terminals.list hts
      simp only [hall, List.append_assoc, List.cons_append] at hlist
      exact hthrough _ hlist
  | @barred us' b vs c hsplit hb hts =>
      by_cases hin : ∃ zs, us' = us ++ t :: zs
      · -- The token comes before the one that the grammar does not know.
        obtain ⟨zs, rfl⟩ := hin
        refine hthrough (zs.map Token.terminal) ?_
        rw [hts, List.map_append, List.map_cons]
      · obtain ⟨zs, hzs, hrest⟩ := split_of_ne (htokens.symm.trans hsplit) (fun zs h => hin ⟨zs, h⟩)
        cases zs with
        | nil =>
            cases hrest
            rw [List.append_nil] at hzs
            subst hzs
            have hrun : g.start.shiftAll (terminalsOf (scan s)).list = .ok r := by rw [hts]; exact hus
            exact ⟨_, g.make_of_error (hderived.eq_unmatched hrun (by rw [hts])), rfl, nofun⟩
        | cons z zs =>
            cases hrest
            rw [hzs] at hus
            exact absurd hus (not_shiftAll_of_no_terminal hb)

/-- Where descent comes to the end of input, so does the grammar. -/
theorem Goal.make_of_unfinished {r : Reader} (hfault : (Stream.upToFault (scan s)).2 = none)
    (hrun : g.start.shiftAll ((Stream.upToFault (scan s)).1.map Token.terminal) = .ok r)
    (hr : g.complete? r = none) :
    ∃ p, g.make s = .error (.unexpectedEnd p) := by
  have hderived := derived_derive g.start g.complete? s
  cases divided hfeed with
  | whole _ hts =>
      rw [hts] at hderived
      obtain ⟨p, hp⟩ := hderived.eq_unexpectedEnd hrun rfl hr
      exact ⟨p, g.make_of_error hp⟩
  | barred hus hb _ =>
      rw [hus] at hrun
      exact absurd hrun (not_shiftAll_of_no_terminal hb)
  | stuck hf _ _ => cases hfault.symm.trans hf
  | infinite hf _ _ _ => cases hfault.symm.trans hf

/-- Where descent tells a fault, the grammar is stuck at the same place, or finds the same number
infinite, or finds an error behind that number. -/
theorem Goal.make_of_lexical {f : ScanError} {r : Reader}
    (hfault : (Stream.upToFault (scan s)).2 = some f)
    (hrun : g.start.shiftAll ((Stream.upToFault (scan s)).1.map Token.terminal) = .ok r)
    (hmake : ∀ t, g.make s ≠ .ok t) :
    ∃ e', g.make s = .error e' ∧
    (e' = .tooDeep ∨ StopsEarlier s (.lexical f) e' ∨ SamePlace (.lexical f) e') := by
  have hderived := derived_derive g.start g.complete? s
  cases divided hfeed with
  | whole hz _ => cases hz.symm.trans hfault
  | barred hus hb _ =>
      rw [hus] at hrun
      exact absurd hrun (not_shiftAll_of_no_terminal hb)
  | stuck hf _ hts =>
      cases hfault.symm.trans hf
      rw [hts] at hderived
      refine ⟨_, g.make_of_error (hderived.eq_unmatched hrun rfl), .inr (.inr ⟨nofun, ?_⟩)⟩
      exact ⟨f.place, f.place, rfl, rfl, rfl, rfl⟩
  | @infinite f' rest hf hcause hsplit hts =>
      cases hfault.symm.trans hf
      obtain ⟨e', hmade, hfailed⟩ | ⟨r', a, hrun', -, ha, hbuilt⟩ := g.make_cases s
      · exact ⟨e', hmade, .inr (blames_behind_number hfailed hcause hsplit hts hrun)⟩
      · cases hresult : g.make s with
        | ok t => exact absurd hresult (hmake t)
        | error e' =>
            rw [hresult] at hbuilt
            refine ⟨e', rfl, ?_⟩
            cases hbuilt with
            | tooDeep => exact .inl rfl
            | infinite hnumbers hus ht _ =>
                obtain rfl := g.fault_of_build hrun' ha (congrArg Terminals.list hts)
                  (infinite_of_split hsplit hcause) hnumbers hus ht
                exact .inr (.inr ⟨nofun, f.place, f.place, rfl, rfl, rfl, rfl⟩)

/-- A number that the grammar finds infinite is the fault that descent tells. -/
theorem Goal.descend_of_invalidNumber {text : String} {p : Place}
    (hmake : g.make s = .error (.invalidNumber text p)) :
    TooDeep (g.descend s) ∨ g.descend s = .error (.lexical ⟨.invalidNumber, p, text⟩) := by
  obtain ⟨e, he, hderived⟩ | ⟨r, a, hrun, hstuck, ha, hbuilt⟩ := g.make_cases s
  · -- Deriving gives no such error.
    cases hmake.symm.trans he
    cases hderived
  rw [hmake] at hbuilt
  cases hbuilt with
  | @infinite us t vs _ hnumbers hus ht _ =>
      cases divided hfeed with
      | whole _ hts =>
          have hmem : t ∈ g.numbers a := by simp [hnumbers]
          rw [g.numbers_eq hrun ha, hts] at hmem
          obtain ⟨e, he⟩ := finite_of_mem_tokens hmem
          cases ht.symm.trans he
      | barred _ _ hts => rw [hts] at hstuck; cases hstuck
      | stuck _ _ hts => rw [hts] at hstuck; cases hstuck
      | @infinite f rest hf hcause hsplit hts =>
          have hlist := congrArg Terminals.list hts
          have hfault := g.fault_of_build hrun ha hlist (infinite_of_split hsplit hcause)
            hnumbers hus ht
          obtain ⟨cause, place, lexeme⟩ := f
          cases hfault
          cases hcause
          -- The reader shifts the tokens before the number, so descent comes to it as well.
          rw [hlist] at hrun
          obtain ⟨q, hq, -⟩ := shiftAll_append_ok.mp hrun
          obtain h | ⟨f, hf', hread⟩ | ⟨hz, -⟩ := g.descend_of_run hq
          · exact .inl h
          · cases hf.symm.trans hf'
            exact .inr hread
          · cases hf.symm.trans hz

/-- The grammar rejects what descent rejects, and the errors are as the three cases say. -/
theorem Goal.make_of_rejected {e : Descent.Error} (hread : g.descend s = .error e)
    (hroom : ¬e.IsTooDeep) :
    ∃ e', g.make s = .error e' ∧ (e' = .tooDeep ∨ StopsEarlier s e e' ∨ SamePlace e e' ∨
      BothAtEnd e e') := by
  cases g.rejects_of_read hread with
  | tooDeep _ _ => exact absurd ⟨_, rfl⟩ hroom
  | refused hb hreached hshift =>
      obtain ⟨us, hus, hrun⟩ := hreached
      obtain ⟨e', hmake, hplace, hend⟩ := g.make_of_refused hfeed hus hrun hshift
      exact ⟨e', hmake, .inr (.inr (.inl ⟨hend, _, _, place?_of_token? hb.token, hplace,
        rfl, rfl⟩))⟩
  | unfinished hb hz hreached hprogram hphrase =>
      obtain ⟨p, hmake⟩ := g.make_of_unfinished hfeed hz hreached.run
        (g.incomplete hprogram hphrase)
      exact ⟨_, hmake, .inr (.inr (.inr ⟨⟨p, rfl⟩, hb.atEnd rfl⟩))⟩
  | lexical hf hreached =>
      have hmake : ∀ t, g.make s ≠ .ok t := by
        intro t ht
        obtain h | h := g.descend_of_make hfeed ht
        · cases hread.symm.trans h
        · obtain ⟨p, hp⟩ := h
          cases hread.symm.trans hp
      obtain ⟨e', hmake, h⟩ := g.make_of_lexical hfeed hf hreached.run hmake
      exact ⟨e', hmake, h.imp_right (.imp_right .inl)⟩

theorem Goal.pointsAlike : PointsAlike s (g.make s) (g.descend s) where
  rejected e he hroom := by
    obtain ⟨e', hmake, h⟩ := g.make_of_rejected hfeed he hroom
    exact ⟨e', hmake, fun hroom' => exactlyOne_of_or (h.resolve_left hroom')⟩
  number _ _ h := g.descend_of_invalidNumber hfeed h

end

end Parity

/-- On a text without form feeds the two front ends point at the same place: whatever descent
rejects the grammar rejects, and exactly one of three holds. Descent has stopped at an infinite
literal before the place of the other error; or both errors are at the same row and column; or both
are at the end of input. A number that the grammar finds infinite is the one that descent stops at.
This holds of programs and of single expressions. -/
theorem front_ends_point_alike (s : String) (hs : '\x0c' ∉ s.toList) :
    PointsAlike s (Grammar.parseProgram s) (Descent.parseProgram s) ∧
    PointsAlike s (Grammar.parseExpr s) (Descent.parseExpr s) := by
  have hfeed := not_isFormFeed_of_not_mem hs
  exact ⟨Parity.Goal.program.pointsAlike hfeed, Parity.Goal.expr.pointsAlike hfeed⟩

/-- A missing operand in the second row. -/
theorem front_ends_point_alike_missing_operand :
    '\x0c' ∉ "print (x\n + ;".toList ∧
    Descent.parseProgram "print (x\n + ;" = .error (.noOperand ⟨.mark .semicolon, ⟨12, 2, 4⟩, ";"⟩) ∧
    ∃ e', Grammar.parseProgram "print (x\n + ;" = .error e' ∧
      SamePlace (.noOperand ⟨.mark .semicolon, ⟨12, 2, 4⟩, ";"⟩) e' := by
  have hs : '\x0c' ∉ "print (x\n + ;".toList := by decide
  have hread : Descent.parseProgram "print (x\n + ;" =
      .error (.noOperand ⟨.mark .semicolon, ⟨12, 2, 4⟩, ";"⟩) := by cbv
  have hmade : Grammar.parseProgram "print (x\n + ;" =
      .error (.unexpected ⟨.mark .semicolon, ";", ⟨12, 2, 4⟩⟩) := by cbv
  have hroom : ¬(Descent.Error.noOperand ⟨.mark .semicolon, ⟨12, 2, 4⟩, ";"⟩).IsTooDeep := by
    rintro ⟨p, hp⟩
    cases hp
  obtain ⟨e', he', hone⟩ := (front_ends_point_alike "print (x\n + ;" hs).1.rejected _ hread hroom
  cases hmade.symm.trans he'
  refine ⟨hs, hread, _, hmade, ?_⟩
  -- Descent tells no fault, and the grammar is not at the end of input.
  obtain ⟨⟨f, v, q, hlexical, -⟩, -⟩ | ⟨-, hsame, -⟩ | ⟨-, -, ⟨p, hend⟩, -⟩ :=
    hone (by intro h; cases h)
  · cases hlexical
  · exact hsame
  · cases hend

end Lox
