import Lox.Proofs.Descent.Calls
import Lox.Proofs.Descent.Extension
import Lox.Proofs.Scan.Lines
/-!
# `Descent.Lines` — reading a text below another one

A program below one that is accepted is read as it is alone, but further down: its
statements come behind the others, and its errors are the same in lower rows
(`parseProgram_below`). The stream behind the accepted program differs from the stream of
the text alone in three ways, each of which does not matter: a token may be buffered, there
are more rounds left, and everything is further down.
-/
namespace Lox.Descent

/-! ## Streams and errors further down -/

/-- The error, moved down. -/
def Error.moved (d : Displacement) : Error → Error
  | lexical f => lexical (f.moved d)
  | missing k note t => missing k note (t.moved d)
  | noOperand t => noOperand (t.moved d)
  | trailing t => trailing (t.moved d)
  | tooDeep p => tooDeep (p.moved d)

/-- The stream, moved down. -/
def Stream.moved (d : Displacement) (s : Stream) : Stream :=
  ⟨s.buffered.map (Token.moved d), s.ahead.map (Token.moved d), s.fault.map (ScanError.moved d),
    s.here.moved d,
    s.stop.moved d⟩

/-- The ending, moved down. -/
def Ending.moved (d : Displacement) (z : Ending) : Ending :=
  ⟨z.fault.map (ScanError.moved d), z.stop.moved d⟩

theorem Error.eq_moved {d : Displacement} {e e' : Error}
    (h : e.Alike (fun t u => u = t.moved d) (fun f g => g = f.moved d) (fun p q => q = p.moved d) e') :
    e' = e.moved d := by
  cases h with
  | lexical h => rw [h]; rfl
  | missing k note h => rw [h]; rfl
  | noOperand h => rw [h]; rfl
  | trailing h => rw [h]; rfl
  | tooDeep h => rw [h]; rfl

theorem Stream.alike_moved (d : Displacement) (s : Stream) :
    s.Alike (fun t u => u = t.moved d) (fun f g => g = f.moved d) (fun p q => q = p.moved d)
      (s.moved d) where
  buffered := by
    show Option.Rel _ s.buffered (s.buffered.map _)
    cases s.buffered with
    | none => exact .none
    | some t => exact .some rfl
  ahead := List.forall₂_map_right_iff.mpr (List.forall₂_same.mpr fun _ _ => rfl)
  fault := by
    show Option.Rel _ s.fault (s.fault.map _)
    cases s.fault with
    | none => exact .none
    | some f => exact .some rfl
  here := rfl
  stop := rfl

/-- Statements are read the same further down. -/
theorem statements_moved (d : Displacement) (rounds room count : Nat) (s : Stream) :
    ((statements rounds room count).run (s.moved d)).1 =
      ((statements rounds room count).run s).1.mapError (Error.moved d) := by
  have hR {t u : Token} (h : u = t.moved d) : t.meaning = u.meaning ∧ t.lexeme = u.lexeme := by
    rw [h]
    exact ⟨rfl, rfl⟩
  have hP {t u : Token} (h : u = t.moved d) : u.behind = t.behind.moved d := by
    rw [h]
    exact Place.after_moved d t.place t.lexeme.toList
  have hends := (lawful_alike hR hP).statements rounds room count s (s.moved d) (s.alike_moved d)
  generalize (statements rounds room count).run s = r at hends
  generalize (statements rounds room count).run (s.moved d) = r' at hends
  cases hends with
  | ok h _ => rw [h]; rfl
  | error h => exact congrArg Except.error (Error.eq_moved h.1)

/-! ## The stream of a text below another one -/

theorem upToFault_append {items : List Item} (h : (Stream.upToFault items).2 = none)
    (items' : List Item) :
    Stream.upToFault (items ++ items') =
      ((Stream.upToFault items).1 ++ (Stream.upToFault items').1, (Stream.upToFault items').2) := by
  induction items with
  | nil => rfl
  | cons item items ih =>
      cases item with
      | error e => cases h
      | ok t =>
          have hrest := ih h
          rw [List.cons_append, Stream.upToFault, hrest]
          rfl

theorem upToFault_moved (d : Displacement) (items : List Item) :
    Stream.upToFault (items.map (movedItem d)) =
    ((Stream.upToFault items).1.map (Token.moved d), (Stream.upToFault items).2.map
      (ScanError.moved d)) := by
  induction items with
  | nil => rfl
  | cons item items ih =>
      cases item with
      | error e => rfl
      | ok t =>
          rw [List.map_cons, movedItem, Stream.upToFault, ih]
          rfl

/-- Items without a fault begin with items without one. -/
theorem upToFault_of_append {items items' : List Item}
    (h : (Stream.upToFault (items ++ items')).2 = none) :
    (Stream.upToFault items).2 = none := by
  induction items with
  | nil => rfl
  | cons item items ih =>
      cases item with
      | error e => cases h
      | ok t => exact ih h

/-- What stands below a fault and holds no quote does not mend it. -/
theorem fault_of_below {above s : String} (hs : '"' ∉ s.toList)
    (h : (Stream.ofText (above ++ "\n" ++ s)).fault = none) :
    (Stream.ofText above).fault = none := by
  have hclosed : ∀ item ∈ scan (above ++ "\n" ++ s), isUnclosed item = false := by
    intro item hitem
    rw [scan_of_no_fault h] at hitem
    obtain ⟨t, -, rfl⟩ := List.mem_map.mp hitem
    rfl
  have hnone : (Stream.upToFault (scan (above ++ "\n" ++ s))).2 = none := h
  rw [scan_below (closed_of_scan_below hs hclosed)] at hnone
  exact upToFault_of_append hnone

/-- Without a fault reading stops at the end of the text, and with one behind it. -/
theorem stop_ofText_eq (s : String) : (Stream.ofText s).stop = match (Stream.ofText s).fault with
    | some f => f.place.after f.lexeme.toList
    | none => Place.origin.after s.toList := by
  cases hfault : (Stream.ofText s).fault with
  | some f =>
      unfold Stream.ofText at hfault ⊢
      dsimp only at hfault ⊢
      rw [hfault]
  | none =>
      obtain ⟨hlies, hoffset⟩ := stop_ofText hfault
      have heq := hlies.eq_after
      rw [hoffset, List.take_length] at heq
      exact heq

section

variable {above : String} (hfault : (Stream.ofText above).fault = none) (s : String)

include hfault

/-- The tokens of a text below one without faults come behind the others. -/
theorem upToFault_below : Stream.upToFault (scan (above ++ "\n" ++ s)) =
    ((Stream.ofText above).ahead ++ (Stream.ofText s).ahead.map (Token.moved (.below above.toList)),
      (Stream.ofText s).fault.map (ScanError.moved (.below above.toList))) := by
  have hnone : (Stream.upToFault (scan above)).2 = none := hfault
  have hclosed : ∀ item ∈ scan above, isUnclosed item = false := by
    intro item hitem
    rw [scan_of_no_fault hfault] at hitem
    obtain ⟨t, -, rfl⟩ := List.mem_map.mp hitem
    rfl
  rw [scan_below hclosed, upToFault_append hnone, upToFault_moved]
  rfl

theorem ahead_below : (Stream.ofText (above ++ "\n" ++ s)).ahead =
    (Stream.ofText above).ahead ++ (Stream.ofText s).ahead.map (Token.moved (.below above.toList)) :=
  congrArg Prod.fst (upToFault_below hfault s)

theorem endingOf_below : endingOf (above ++ "\n" ++ s) = (endingOf s).moved (.below above.toList) := by
  have hfault' : (Stream.ofText (above ++ "\n" ++ s)).fault = _ :=
    congrArg Prod.snd (upToFault_below hfault s)
  have hstop : (Stream.ofText (above ++ "\n" ++ s)).stop =
      (Stream.ofText s).stop.moved (.below above.toList) := by
    rw [stop_ofText_eq, stop_ofText_eq, hfault']
    cases (Stream.ofText s).fault with
    | some f => exact Place.after_moved _ f.place f.lexeme.toList
    | none =>
        have htext : (above ++ "\n" ++ s).toList = above.toList ++ '\n' :: s.toList := by simp
        show Place.origin.after (above ++ "\n" ++ s).toList = (Place.origin.after s.toList).moved _
        rw [htext, Place.after_append, Place.after_cons, Place.origin_moved, Place.after_moved]
  exact congrArg₂ Ending.mk hfault' hstop

theorem gives_below :
    Gives (endingOf (above ++ "\n" ++ s)) ((Stream.ofText s).moved (.below above.toList))
    ((Stream.ofText s).ahead.map (Token.moved (.below above.toList))) := by
  rw [endingOf_below hfault]
  refine gives_fresh ?_ _ _
  intro t ht
  obtain ⟨u, hu, rfl⟩ := List.mem_map.mp ht
  exact (gives_ofText s).proper u hu

end

/-! ## Programs -/

/-- As many rounds as reading a text has. -/
def roundsFor (s : String) : Nat := (Stream.ofText s).size + 1

theorem ahead_le_roundsFor (s : String) : (Stream.ofText s).ahead.length ≤ roundsFor s := by
  unfold roundsFor Stream.size
  omega

theorem run_of_parseProgram {s : String} {p : List Stmt} (h : parseProgram s = .ok p) :
    ∃ s₁, (statements (roundsFor s) parseRoom (roundsFor s)).run (.ofText s) = (.ok p, s₁) :=
  ⟨_, Prod.ext h rfl⟩

/-- An accepted program has no fault. -/
theorem fault_of_parseProgram {s : String} {p : List Stmt} (h : parseProgram s = .ok p) :
    (Stream.ofText s).fault = none := by
  obtain ⟨s₁, hrun⟩ := run_of_parseProgram h
  let X : Extension := ⟨endingOf s, endingOf s, [], roundsFor s, roundsFor s, 0⟩
  have hlen := ahead_le_roundsFor s
  have hgives : Gives X.ending' (.ofText s) ((Stream.ofText s).ahead ++ X.more) := by
    rw [List.append_nil]
    exact gives_ofText s
  exact (X.statements_append parseRoom _ _ _ _ _ s₁ p le_rfl le_rfl hlen hlen
    (gives_ofText s) hgives hrun).1

/-- A program below an accepted one is read as it is alone, but behind the other
statements and further down. -/
theorem parseProgram_below {above : String} {p : List Stmt} (h : parseProgram above = .ok p)
    (s : String) :
    parseProgram (above ++ "\n" ++ s) =
      ((parseProgram s).mapError (Error.moved (.below above.toList))).map (p ++ ·) := by
  have hfault := fault_of_parseProgram h
  obtain ⟨s₁, hrun⟩ := run_of_parseProgram h
  -- The accepted program is read as before, and then the rest of the text.
  let X : Extension := ⟨endingOf above, endingOf (above ++ "\n" ++ s),
    (Stream.ofText s).ahead.map (Token.moved (.below above.toList)), roundsFor above,
    roundsFor (above ++ "\n" ++ s), 0⟩
  have hgives :
      Gives X.ending' (.ofText (above ++ "\n" ++ s)) ((Stream.ofText above).ahead ++ X.more) := by
    rw [← ahead_below hfault]
    exact gives_ofText _
  have hlen := ahead_le_roundsFor (above ++ "\n" ++ s)
  rw [ahead_below hfault, List.length_append] at hlen
  obtain ⟨-, k, s'', hk, hmore, hgives'', hrest⟩ :=
    X.statements_append parseRoom _ _ _ _ _ s₁ p le_rfl le_rfl
    (ahead_le_roundsFor above) hlen (gives_ofText above) hgives hrun
  -- The rest is read as from a fresh stream, which is that of the text alone, moved down.
  have hlen' : ((Stream.ofText s).ahead.map (Token.moved (.below above.toList))).length ≤
      roundsFor s := by
    rw [List.length_map]
    exact ahead_le_roundsFor s
  have hfresh := statements_mono parseRoom 0 (gives_below hfault s) hgives'' hlen' le_rfl hmore hk
    (.inl rfl)
  calc parseProgram (above ++ "\n" ++ s)
    _ = ((statements X.rounds' parseRoom k).run s'').1.map (p ++ ·) := hrest
    _ = ((statements (roundsFor s) parseRoom (roundsFor s)).run ((Stream.ofText s).moved _)).1.map
      (p ++ ·) :=
        congrArg (Except.map (p ++ ·)) hfresh
    _ = ((parseProgram s).mapError (Error.moved (.below above.toList))).map (p ++ ·) := by
        rw [statements_moved]
        rfl

end Lox.Descent
