import Lox.Proofs.Scan.Items
/-!
# `Scan.Order` — items come in the order of the text

A place is before another one if its line is, or its column on the same line. Reading any character
moves on, so the items of a text stand at ever later places, and all of them before its end.
-/
namespace Lox

/-! ## Places -/

namespace Place

/-- The place has a smaller row, or the same row and a smaller column. -/
def Before (p q : Place) : Prop := p.row < q.row ∨ p.row = q.row ∧ p.col < q.col

/-- The place is not behind the other one. -/
def UpTo (p q : Place) : Prop := p.row < q.row ∨ p.row = q.row ∧ p.col ≤ q.col

theorem UpTo.refl (p : Place) : p.UpTo p := .inr ⟨rfl, Nat.le_refl _⟩

theorem UpTo.trans {p q r : Place} (h : p.UpTo q) (h' : q.UpTo r) : p.UpTo r := by
  unfold UpTo at *
  omega

theorem Before.upTo {p q : Place} (h : p.Before q) : p.UpTo q := by
  unfold Before at h
  unfold UpTo
  omega

theorem Before.trans_upTo {p q r : Place} (h : p.Before q) (h' : q.UpTo r) : p.Before r := by
  unfold Before UpTo at *
  omega

theorem before_step (p : Place) (c : Char) : p.Before (p.step c) := by
  unfold Before step
  split
  · exact .inl (Nat.lt_succ_self _)
  · exact .inr ⟨rfl, Nat.lt_succ_self _⟩

theorem upTo_after (p : Place) (cs : List Char) : p.UpTo (p.after cs) := by
  induction cs generalizing p with
  | nil => exact UpTo.refl p
  | cons c cs ih => exact (p.before_step c).upTo.trans (ih (p.step c))

theorem before_after (p : Place) {cs : List Char} (h : cs ≠ []) : p.Before (p.after cs) := by
  cases cs with
  | nil => exact absurd rfl h
  | cons c cs => exact (p.before_step c).trans_upTo (upTo_after (p.step c) cs)

end Place

/-! ## Items -/

/-- Where an item starts. -/
def itemPlace : Item → Place
  | .ok t => t.place
  | .error e => e.place

/-- The text of an item. -/
def itemLexeme : Item → String
  | .ok t => t.lexeme
  | .error e => e.lexeme

theorem itemPlace_itemOf (p : Place) (text : List Char) (result : Except ScanError.Cause Meaning) :
    itemPlace (itemOf p text result) = p := by
  cases result <;> rfl

theorem itemLexeme_itemOf (p : Place) (text : List Char) (result : Except ScanError.Cause Meaning) :
    itemLexeme (itemOf p text result) = String.ofList text := by
  cases result <;> rfl

/-- The items between two places, each one before the next. -/
def Ordered (p q : Place) (items : List Item) : Prop :=
  (∀ item ∈ items, p.UpTo (itemPlace item) ∧ (itemPlace item).Before q) ∧
    items.Pairwise fun a b => (itemPlace a).Before (itemPlace b)

theorem Ordered.mono {p p' q : Place} {items : List Item} (h : Ordered p q items) (hle : p'.UpTo p) :
    Ordered p' q items :=
  ⟨fun item hitem => ⟨hle.trans (h.1 item hitem).1, (h.1 item hitem).2⟩, h.2⟩

/-- The items of a text lie between its beginning and its end, in order. -/
theorem ordered_itemsFrom : ∀ cs p, Ordered p (p.after cs) (itemsFrom cs p) := by
  refine text_induction ?_ ?_ ?_ ?_
  · intro p
    rw [itemsFrom_nil]
    exact ⟨by simp, .nil⟩
  · intro c cs p hc ih
    rw [itemsFrom_blank hc]
    exact ih.mono (p.before_step c).upTo
  · intro cs p ih
    rw [← Place.after_append, List.cons_append, List.cons_append, List.takeWhile_append_dropWhile] at ih
    rw [itemsFrom_comment]
    exact ih.mono (p.upTo_after _)
  · intro cs p hne hlayout ih
    have hlexeme : cs.take (lexemeAt cs).2 ≠ [] := by
      obtain ⟨c, cs, rfl⟩ := List.exists_cons_of_ne_nil hne
      obtain ⟨n, hn⟩ : ∃ n, (lexemeAt (c :: cs)).2 = n + 1 := Nat.exists_eq_add_one.mpr (lexemeAt_pos _)
      rw [hn, List.take_succ_cons]
      exact List.cons_ne_nil _ _
    have hnext := p.before_after hlexeme
    rw [← Place.after_append, List.take_append_drop] at ih
    obtain ⟨hbounds, hpairs⟩ := ih
    rw [itemsFrom_lexeme hne hlayout]
    constructor
    · intro item hitem
      rcases List.mem_cons.mp hitem with rfl | hitem
      · rw [itemPlace_itemOf]
        exact ⟨.refl p, p.before_after hne⟩
      · exact ⟨(hnext.trans_upTo (hbounds item hitem).1).upTo, (hbounds item hitem).2⟩
    · refine List.pairwise_cons.mpr ⟨fun item hitem => ?_, hpairs⟩
      rw [itemPlace_itemOf]
      exact hnext.trans_upTo (hbounds item hitem).1

end Lox
