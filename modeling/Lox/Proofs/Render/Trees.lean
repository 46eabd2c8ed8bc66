import Lox.Proofs.Descent.Infix
import Lox.Proofs.Descent.Spacing
import Lox.Proofs.Parity.Acceptance
import Lox.Proofs.Program.Outcome
import Lox.Proofs.Render.Readable
/-!
# `Render.Trees` — the trees of a script determine its statements

Text determines tree if the names in the tree are names. In the tree of a text they are: an
identifier is what scanning takes for one, and a tree is written as the tokens that it was read from
(`isNamed_of_read`). For the grammar the same follows by reading its text by descent, with as much
room as that takes. Each statement is then one line of the listing of a script, and the lines
determine the statements (`text_determines_tree`).
-/
namespace Lox

/-! ## Names in texts -/

/-- What scanning takes for an identifier is made of the characters of names. -/
theorem isName_of_lexemeAt {cs : List Char} {name : String}
    (h : (lexemeAt cs).1 = .ok (.identifier name)) :
    isName name := by
  cases cs with
  | nil => cases h
  | cons c cs =>
      by_cases hq : c = '"'
      · subst hq
        rw [lexemeAt_quote] at h
        split at h <;> cases h
      by_cases hd : c.isDigit = true
      · rw [lexemeAt_digit hd] at h
        simp only [numberMeaning] at h
        split at h
        · split at h <;> cases h
        · cases h
      by_cases hs : isNameStart c = true
      · rw [lexemeAt_nameStart hs, nameLength, take_takeWhile, nameMeaning] at h
        simp only [Except.ok.injEq] at h
        split at h
        · cases h
        · obtain rfl := Meaning.identifier.inj h
          rw [isName, String.toList_ofList]
          exact List.all_takeWhile
      · rw [lexemeAt_other hq hd hs] at h
        split at h <;> cases h

/-- The meanings hold no identifier that is not a name. -/
def NamesIn (ms : List Meaning) : Prop := ∀ name, .identifier name ∈ ms → isName name

theorem Expr.isNamed_of_yield {e : Expr} (h : NamesIn e.yield) : e.isNamed := by
  induction e with
  | literal l =>
      cases l with
      | identifier name => exact h name (List.mem_singleton_self _)
      | _ => rfl
  | group e ih => exact ih fun name hname => h name (by simp [yield, hname])
  | unary op e ih => exact ih fun name hname => h name (by simp [yield, hname])
  | binary op l r ihl ihr =>
      apply Bool.and_eq_true_iff.2
      constructor
      · exact ihl fun name hname => h name (by simp [yield, hname])
      · exact ihr fun name hname => h name (by simp [yield, hname])

theorem Stmt.isNamed_of_yield {s : Stmt} (h : NamesIn s.yield) : s.isNamed := by
  match s with
  | expression e => exact e.isNamed_of_yield fun name hname => h name (by simp [yield, hname])
  | print e => exact e.isNamed_of_yield fun name hname => h name (by simp [yield, hname])
  | declare name none =>
      have hname : isName name := h name (by simp [yield])
      simp [isNamed, hname]
  | declare name (some e) =>
      have hname : isName name := h name (by simp [yield])
      have he : e.isNamed := e.isNamed_of_yield fun name hname => h name (by simp [yield, hname])
      simp [isNamed, hname, he]

theorem namesIn_ofText (s : String) : NamesIn ((Descent.Stream.ofText s).ahead.map (·.meaning)) := by
  intro name hname
  obtain ⟨t, ht, hmeaning⟩ := List.mem_map.1 hname
  have hspelled := (spelled_of_mem_scan (Descent.mem_scan_of_mem_ofText ht)).2
  rw [hmeaning] at hspelled
  exact isName_of_lexemeAt hspelled

/-- A program that was read from a text is written as the tokens of the text. -/
theorem yield_of_read {room : Nat} {s : String} {p : List Stmt}
    (h : Parity.Goal.program.read room s = .ok p) :
    (Descent.Stream.ofText s).ahead.map (·.meaning) = p.flatMap Stmt.yield := by
  refine Descent.post_of_runs (fun p => _ = p.flatMap Stmt.yield) rfl
    (Descent.gives_ofText s).proper ?_ h
  refine (Descent.sound_statements room _ _ ?_ (Nat.le_refl _)).mono (fun _ _ hss => hss.1)
    (fun _ _ => trivial)
  show _ ≤ (Descent.Stream.ofText s).ahead.length + 1 + 1
  omega

/-- So is an expression. -/
theorem yield_of_readExpr {room : Nat} {s : String} {e : Expr}
    (h : Parity.Goal.expr.read room s = .ok e) :
    (Descent.Stream.ofText s).ahead.map (·.meaning) = e.yield := by
  refine Descent.post_of_runs (fun e => _ = Expr.yield e) rfl (Descent.gives_ofText s).proper ?_ h
  refine (Descent.sound_wholeExpression ?_).mono (fun _ _ he => he.2.symm) (fun _ _ => trivial)
  show _ ≤ (Descent.Stream.ofText s).ahead.length + 1 + 1
  omega

/-- The names in a program that was read from a text are names. -/
theorem isNamed_of_read {room : Nat} {s : String} {p : List Stmt}
    (h : Parity.Goal.program.read room s = .ok p) :
    ∀ st ∈ p, st.isNamed := by
  intro st hst
  apply st.isNamed_of_yield
  intro name hname
  apply namesIn_ofText s
  rw [yield_of_read h]
  exact List.mem_flatMap.2 ⟨st, hst, hname⟩

/-- The names in an expression that was read from a text are names. -/
theorem isNamed_of_readExpr {room : Nat} {s : String} {e : Expr}
    (h : Parity.Goal.expr.read room s = .ok e) : e.isNamed := by
  apply e.isNamed_of_yield
  rw [← yield_of_readExpr h]
  exact namesIn_ofText s

theorem FrontEnd.isNamed_of_parseProgram {f : FrontEnd} {s : String} {p : List Stmt}
    (h : f.parseProgram s = .ok p) :
    ∀ st ∈ p, st.isNamed := by
  cases f with
  | descent =>
      have hread : Parity.Goal.program.read Descent.parseRoom s = .ok p := ok_of_mapError h
      exact isNamed_of_read hread
  | grammar =>
      obtain ⟨room, s', hread⟩ := Parity.Goal.program.exists_read_of_make (ok_of_mapError h)
      exact isNamed_of_read hread

theorem FrontEnd.isNamed_of_parseExpr {f : FrontEnd} {s : String} {e : Expr}
    (h : f.parseExpr s = .ok e) : e.isNamed := by
  cases f with
  | descent =>
      have hread : Parity.Goal.expr.read Descent.parseRoom s = .ok e := ok_of_mapError h
      exact isNamed_of_readExpr hread
  | grammar =>
      obtain ⟨room, s', hread⟩ := Parity.Goal.expr.exists_read_of_make (ok_of_mapError h)
      exact isNamed_of_readExpr hread

/-! ## Texts and lines -/

theorem Expr.text_eq_ok {e : Expr} {t : String} (h : e.text = .ok t) : t.toList = e.chars := by
  unfold Expr.text Node.text at h
  split at h
  · rw [← Except.ok.inj h, chars]
  · cases h

theorem Stmt.text_eq_ok {s : Stmt} {t : String} (h : s.text = .ok t) : t.toList = s.chars := by
  unfold Stmt.text Node.text at h
  split at h
  · rw [← Except.ok.inj h, chars]
  · cases h

/-- Each of the texts on a line of its own. -/
def unlines (lines : List String) : String := String.join (lines.map (· ++ "\n"))

theorem toList_unlines_cons (line : String) (lines : List String) :
    (unlines (line :: lines)).toList = line.toList ++ '\n' :: (unlines lines).toList := by
  simp [unlines, String.join_cons]

/-- Lines are found again by the line breaks behind them. -/
theorem unlines_inj {lines lines' : List String} (h : ∀ l ∈ lines, '\n' ∉ l.toList)
    (h' : ∀ l ∈ lines', '\n' ∉ l.toList) (heq : (unlines lines).toList = (unlines lines').toList) :
    lines = lines' := by
  induction lines generalizing lines' with
  | nil =>
      cases lines' with
      | nil => rfl
      | cons l' lines' =>
          rw [toList_unlines_cons] at heq
          exact absurd heq.symm (by simp [unlines])
  | cons l lines ih =>
      cases lines' with
      | nil =>
          rw [toList_unlines_cons] at heq
          exact absurd heq (by simp [unlines])
      | cons l' lines' =>
          rw [toList_unlines_cons, toList_unlines_cons] at heq
          have hclass : ∀ {l : String}, '\n' ∉ l.toList → ∀ c ∈ l.toList, (c != '\n') = true := by
            intro l hl c hc
            simp only [bne_iff_ne]
            rintro rfl
            exact hl hc
          obtain ⟨hline, hrest⟩ :=
            append_inj_of_class (hclass (h l (by simp))) (hclass (h' l' (by simp))) rfl rfl heq
          rw [String.toList_inj.1 hline,
            ih (fun x hx => h x (by simp [hx])) (fun x hx => h' x (by simp [hx]))
              (List.cons.inj hrest).2]

theorem count_unlines {lines : List String} (h : ∀ l ∈ lines, '\n' ∉ l.toList) :
    (unlines lines).toList.count '\n' = lines.length := by
  induction lines with
  | nil => rfl
  | cons l lines ih =>
      have hline : l.toList.count '\n' = 0 := List.count_eq_zero.2 (h l (by simp))
      rw [toList_unlines_cons, List.count_append, List.count_cons_self, hline, ih fun x hx =>
        h x (by simp [hx])]
      simp

/-- The lines of the trees of a script are those of its statements, and all of them
are there if it ends well. -/
theorem listing_of_script {f : FrontEnd} {trace : Bool} {s : String} {p : List Stmt}
    (hp : f.parseProgram s = .ok p) (hcode : (runScript f true trace s).code = .ok) :
    ∃ lines, p.map Stmt.text = lines.map .ok ∧ (runScript f true trace s).out = unlines lines := by
  obtain ⟨lines, hlines, hreport⟩ := runScript_tree hp trace
  rw [hreport] at hcode ⊢
  refine ⟨lines, ?_, Report.ofRun_out _ _ _⟩
  have hall : p.length ≤ lines.length := by
    by_contra hlt
    rw [if_pos (Nat.not_le.1 hlt)] at hcode
    cases hcode
  rw [← hlines.texts, List.take_of_length_le hall]

/-- Texts of the same statements. -/
theorem stmts_of_texts {p p' : List Stmt} {lines : List String} (hp : ∀ s ∈ p, s.isNamed)
    (hp' : ∀ s ∈ p', s.isNamed) (h : p.map Stmt.text = lines.map .ok)
    (h' : p'.map Stmt.text = lines.map .ok) : p = p' := by
  induction lines generalizing p p' with
  | nil => rw [List.map_eq_nil_iff.1 h, List.map_eq_nil_iff.1 h']
  | cons line lines ih =>
      obtain ⟨s, q, rfl, hs, hq⟩ := List.map_eq_cons_iff.1 h
      obtain ⟨s', q', rfl, hs', hq'⟩ := List.map_eq_cons_iff.1 h'
      have hchars : s.chars = s'.chars := by rw [← Stmt.text_eq_ok hs, Stmt.text_eq_ok hs']
      rw [Stmt.chars_inj (hp s (by simp)) (hp' s' (by simp)) hchars,
        ih (fun x hx => hp x (by simp [hx])) (fun x hx => hp' x (by simp [hx])) hq hq']

/-- The line of a statement holds no line break. -/
theorem line_of_texts {p : List Stmt} {lines : List String} (hp : ∀ s ∈ p, s.isNamed)
    (h : p.map Stmt.text = lines.map .ok) : ∀ l ∈ lines, '\n' ∉ l.toList := by
  intro l hl hbreak
  have hmem : (.ok l : Except RenderError String) ∈ p.map Stmt.text := by
    rw [h]
    exact List.mem_map_of_mem hl
  obtain ⟨s, hs, htext⟩ := List.mem_map.1 hmem
  rw [Stmt.text_eq_ok htext] at hbreak
  cases Stmt.line_of_chars (hp s hs) _ hbreak

/-- The text of a tree is on one line and determines the tree, as long as its names are names,
whatever its strings and numbers are; so the trees of a script that are written without complaint
determine its statements, each of which has one line. Numbers are told apart bit by bit. -/
theorem text_determines_tree :
    (∀ (e e' : Expr) (t : String), e.isNamed → e'.isNamed → e.text = .ok t → e'.text = .ok t → e = e') ∧
    (∀ (s s' : Stmt) (t : String), s.isNamed → s'.isNamed → s.text = .ok t → s'.text = .ok t → s = s') ∧
    (∀ (e : Expr) (t : String), e.isNamed → e.text = .ok t → '\n' ∉ t.toList ∧ '\r' ∉ t.toList ∧
      '\t' ∉ t.toList) ∧
    (∀ (s : Stmt) (t : String), s.isNamed → s.text = .ok t → '\n' ∉ t.toList ∧ '\r' ∉ t.toList ∧
      '\t' ∉ t.toList) ∧
    (∀ (f f' : FrontEnd) (trace trace' : Bool) (s s' : String) (p p' : List Stmt),
      f.parseProgram s = .ok p → f'.parseProgram s' = .ok p' →
      (runScript f true trace s).code = .ok → (runScript f' true trace' s').code = .ok →
      (runScript f true trace s).out = (runScript f' true trace' s').out → p = p') ∧
    ∀ (f : FrontEnd) (trace : Bool) (s : String) (p : List Stmt), f.parseProgram s = .ok p →
      (runScript f true trace s).code = .ok → (runScript f true trace s).out.toList.count '\n' =
      p.length := by
  have hline : ∀ {cs : List Char}, (∀ c ∈ cs, isLineChar c) → '\n' ∉ cs ∧ '\r' ∉ cs ∧ '\t' ∉ cs := by
    intro cs hcs
    refine ⟨?_, ?_, ?_⟩ <;> intro hc <;> cases hcs _ hc
  refine ⟨?_, ?_, ?_, ?_, ?_, ?_⟩
  · intro e e' t he he' h h'
    have hchars : e.chars = e'.chars := by rw [← Expr.text_eq_ok h, Expr.text_eq_ok h']
    exact (Expr.readable he e' [] [] he' closed_nil closed_nil (by rw [hchars])).1
  · intro s s' t hs hs' h h'
    exact Stmt.chars_inj hs hs' (by rw [← Stmt.text_eq_ok h, Stmt.text_eq_ok h'])
  · intro e t he h
    rw [Expr.text_eq_ok h]
    exact hline (Expr.line_of_chars he)
  · intro s t hs h
    rw [Stmt.text_eq_ok h]
    exact hline (Stmt.line_of_chars hs)
  · intro f f' trace trace' s s' p p' hp hp' hcode hcode' hout
    obtain ⟨lines, htexts, hlines⟩ := listing_of_script hp hcode
    obtain ⟨lines', htexts', hlines'⟩ := listing_of_script hp' hcode'
    have hnamed := FrontEnd.isNamed_of_parseProgram hp
    have hnamed' := FrontEnd.isNamed_of_parseProgram hp'
    obtain rfl : lines = lines' := by
      apply unlines_inj (line_of_texts hnamed htexts) (line_of_texts hnamed' htexts')
      rw [← hlines, ← hlines', hout]
    exact stmts_of_texts hnamed hnamed' htexts htexts'
  · intro f trace s p hp hcode
    obtain ⟨lines, htexts, hlines⟩ := listing_of_script hp hcode
    have hlen := congrArg List.length htexts
    simp only [List.length_map] at hlen
    rw [hlines, count_unlines (line_of_texts (FrontEnd.isNamed_of_parseProgram hp) htexts), hlen]

/-- Two scripts that are spaced differently, the one read by descent and the other by the grammar,
with a line break inside a string. -/
theorem text_determines_tree_spacing : ∃ p p' : List Stmt,
    FrontEnd.descent.parseProgram "print -a-\"(\n\";" = .ok p ∧
    FrontEnd.grammar.parseProgram "print - a\n- \"(\n\" ;" = .ok p' ∧
    (runScript .descent true false "print -a-\"(\n\";").out = "(print (- (- `a`) \"(\\n\"))\n" ∧
    (runScript .grammar true false "print - a\n- \"(\n\" ;").out =
    "(print (- (- `a`) \"(\\n\"))\n" ∧ p = p' := by
  have hdescent : FrontEnd.descent.parseProgram "print -a-\"(\n\";" =
      .ok [.print (.binary (.strict .subtract) (.unary .negate (.literal (.identifier "a")))
        (.literal (.string "(\n")))] := by
    cbv
  have hgrammar : FrontEnd.grammar.parseProgram "print - a\n- \"(\n\" ;" =
      .ok [.print (.binary (.strict .subtract) (.unary .negate (.literal (.identifier "a")))
        (.literal (.string "(\n")))] := by
    cbv
  have hreport : runScript .descent true false "print -a-\"(\n\";" =
      ⟨.ok, "(print (- (- `a`) \"(\\n\"))\n", ""⟩ := by cbv
  have hreport' : runScript .grammar true false "print - a\n- \"(\n\" ;" =
      ⟨.ok, "(print (- (- `a`) \"(\\n\"))\n", ""⟩ := by
    cbv
  obtain ⟨-, -, -, -, hscripts, -⟩ := text_determines_tree
  refine ⟨_, _, hdescent, hgrammar, by rw [hreport], by rw [hreport'], ?_⟩
  exact hscripts _ _ _ _ _ _ _ _ hdescent hgrammar (by rw [hreport]) (by rw [hreport'])
    (by rw [hreport, hreport'])

end Lox
