import Lox.Proofs.Render.Trees
import Lox.Proofs.Session.Shadowing
import Lox.Session.Editor
/-!
# `Session.Brackets` — the Enter key and open brackets

The editor counts the brackets that a text leaves open, and passes over a bracket that closes
nothing. So the count is a walk that is held at zero: it ends as high as the walk without the hold
ends above the lowest point it has come to, which is the largest surplus of opening brackets in any
suffix of the tokens (`isGreatest_openSteps`).

An expression opens and closes its own parentheses, so the count is the same behind it as before it,
at whatever count it begins (`Expr.openSteps_yield`). Whatever a front end accepts is written as the
tokens of a tree, or does not scan at all to the editor, and nothing is left open in it
(`enter_submits_complete`).
-/
namespace Lox

namespace Session

/-! ## The count as a maximum -/

/-- Does the token open a bracket? -/
def opens (t : Token) : Bool := t.kind = .mark .leftParen || t.kind = .mark .leftBrace

/-- Does the token close a bracket? -/
def closes (t : Token) : Bool := t.kind = .mark .rightParen || t.kind = .mark .rightBrace

/-- By how many the brackets that open outnumber those that close. -/
def surplus (ts : List Token) : ℤ := ts.countP opens - ts.countP closes

theorem surplus_append (ts us : List Token) : surplus (ts ++ us) = surplus ts + surplus us := by
  simp only [surplus, List.countP_append]
  omega

/-- One token counts as its own surplus, unless that would lead below zero. -/
theorem openStep_eq (depth : Nat) (t : Token) :
    (openStep depth t : ℤ) = max 0 (depth + surplus [t]) := by
  unfold openStep
  split <;> simp_all [surplus, opens, closes]
  all_goals omega

/-- What a suffix of the tokens leaves open. -/
def suffixSurpluses (ts : List Token) : Set ℤ := { n | ∃ us, us <:+ ts ∧ surplus us = n }

/-- The brackets counted as open are the largest surplus of a suffix. The last token lengthens every
suffix but the empty one, and the empty one is what holds the count at zero. -/
theorem isGreatest_openSteps (ts : List Token) :
    IsGreatest (suffixSurpluses ts) (ts.foldl openStep 0 : ℕ) := by
  induction ts using List.reverseRecOn with
  | nil =>
      refine ⟨⟨[], List.suffix_refl _, rfl⟩, ?_⟩
      rintro _ ⟨us, hus, rfl⟩
      rw [List.suffix_nil.mp hus]
      rfl
  | append_singleton ts t ih =>
      obtain ⟨⟨us, hus, hsurplus⟩, hbound⟩ := ih
      rw [List.foldl_append, List.foldl_cons, List.foldl_nil, openStep_eq]
      constructor
      · rcases max_choice (0 : ℤ) ((ts.foldl openStep 0 : ℕ) + surplus [t]) with hmax | hmax
        · rw [hmax]
          exact ⟨[], List.nil_suffix, rfl⟩
        · rw [hmax]
          refine ⟨us ++ [t], (List.suffix_append_self_iff).mpr hus, ?_⟩
          rw [surplus_append, hsurplus]
      · rintro _ ⟨vs, hvs, rfl⟩
        obtain rfl | ⟨ws, rfl, hws⟩ := List.suffix_concat_iff.mp hvs
        · exact le_max_left _ _
        · rw [surplus_append]
          exact le_max_of_le_right (add_le_add_left (hbound ⟨ws, hws, rfl⟩) _)

/-! ## Trees leave nothing open -/

/-- The count behind something that a token may stand for. -/
def openMeaning (depth : Nat) (m : Meaning) : Nat := openStep depth ⟨m, .origin, ""⟩

theorem openSteps_eq (depth : Nat) (ts : List Token) :
    ts.foldl openStep depth = (ts.map (·.meaning)).foldl openMeaning depth := by
  rw [List.foldl_map]
  rfl

end Session

open Session

/-- The count is the same behind an expression as before it. -/
theorem Expr.openSteps_yield (e : Expr) (depth : Nat) : e.yield.foldl openMeaning depth = depth := by
  induction e generalizing depth with
  | literal l => cases l with
    | boolean b => cases b <;> rfl
    | _ => rfl
  | group e ih =>
      rw [yield, List.cons_append, List.foldl_cons, List.foldl_append, ih]
      rfl
  | unary op e ih =>
      have hop : openMeaning depth (.mark op.mark) = depth := by cases op <;> rfl
      rw [yield, List.foldl_cons, hop, ih]
  | binary op l r ihl ihr =>
      have hop : openMeaning depth (.mark op.mark) = depth := by
        obtain ⟨_ | _⟩ | ⟨_ | _ | _ | _ | _ | _ | _ | _ | _ | _⟩ := op <;> rfl
      rw [yield, List.foldl_append, ihl, List.foldl_cons, hop, ihr]

theorem Stmt.openSteps_yield (s : Stmt) (depth : Nat) : s.yield.foldl openMeaning depth = depth := by
  match s with
  | expression e =>
      rw [yield, List.foldl_append, e.openSteps_yield]
      rfl
  | print e =>
      rw [yield, List.cons_append, List.foldl_cons, List.foldl_append, e.openSteps_yield]
      rfl
  | declare name none => rfl
  | declare name (some e) =>
      show (.mark .assign :: e.yield ++ [.mark .semicolon] : List Meaning).foldl openMeaning
        depth = depth
      rw [List.cons_append, List.foldl_cons, List.foldl_append, e.openSteps_yield]
      rfl

theorem openSteps_program (p : List Stmt) (depth : Nat) :
    (p.flatMap Stmt.yield).foldl openMeaning depth = depth := by
  induction p with
  | nil => rfl
  | cons s p ih => rw [List.flatMap_cons, List.foldl_append, s.openSteps_yield, ih]

/-! ## Accepted texts -/

/-- Descent reads what a front end accepts if the text scans, with as much room as that takes. -/
theorem FrontEnd.Accepts.read {f : FrontEnd} {s : String} {ts : List Token} (h : f.Accepts s)
    (hscan : scan s = ts.map .ok) :
    ∃ room, (∃ e, Parity.Goal.expr.read room s = .ok e) ∨
    ∃ p, Parity.Goal.program.read room s = .ok p := by
  have hfeed : ∀ item ∈ scan s, isFormFeed item = false :=
    Parity.not_isFormFeed_of_no_fault (Descent.ofText_of_scan hscan).2
  cases f with
  | descent =>
      obtain ⟨e, he⟩ | ⟨p, hp⟩ := h
      · exact ⟨Descent.parseRoom, .inl ⟨e, ok_of_mapError he⟩⟩
      · exact ⟨Descent.parseRoom, .inr ⟨p, ok_of_mapError hp⟩⟩
  | grammar =>
      obtain ⟨e, he⟩ | ⟨p, hp⟩ := h
      · obtain ⟨room, hread⟩ := Parity.Goal.expr.exists_read_of_no_feed hfeed (ok_of_mapError he)
        exact ⟨room, .inl ⟨e, hread⟩⟩
      · obtain ⟨room, hread⟩ := Parity.Goal.program.exists_read_of_no_feed hfeed (ok_of_mapError hp)
        exact ⟨room, .inr ⟨p, hread⟩⟩

theorem FrontEnd.Accepts.openDepth {f : FrontEnd} {s : String} (h : f.Accepts s) : openDepth s = 0 := by
  unfold Session.openDepth
  split
  · rfl
  · rename_i ts hts
    have hscan : scan s = ts.map .ok := mapM_eq_ok.mp hts
    have htokens := (Descent.ofText_of_scan hscan).1
    obtain ⟨room, ⟨e, he⟩ | ⟨p, hp⟩⟩ := h.read hscan
    · rw [openSteps_eq, ← htokens, yield_of_readExpr he, e.openSteps_yield]
    · rw [openSteps_eq, ← htokens, yield_of_read hp, openSteps_program]

/-- The Enter key hands in every complete entry. In a text without faults, as many brackets are open
as the suffix with the largest surplus leaves; and none are open in a text that a front end
accepts. -/
theorem Session.enter_submits_complete (s : String) :
    (∀ ts, tokenize s = .ok ts → IsGreatest (suffixSurpluses ts) (openDepth s)) ∧
    ∀ f : FrontEnd, f.Accepts s → openDepth s = 0 ∧ press s .enter = ⟨s, "", [.submit]⟩ := by
  constructor
  · intro ts hts
    have hdepth : openDepth s = ts.foldl openStep 0 := by rw [openDepth, hts]
    rw [hdepth]
    exact isGreatest_openSteps ts
  · intro f h
    have hdepth := h.openDepth
    exact ⟨hdepth, by rw [press, if_neg (by omega)]⟩

/-- A bracket that closes nothing does not make up for one that is open behind it, and those in
strings and comments do not count. -/
theorem Session.enter_submits_complete_strings :
    (∃ ts, tokenize ") (\"(\" // (" = .ok ts ∧ IsGreatest (suffixSurpluses ts) 1) ∧
    FrontEnd.grammar.Accepts "(\"(\") // (" ∧
    press "(\"(\") // (" .enter = ⟨"(\"(\") // (", "", [.submit]⟩ := by
  have hts : ∃ ts, tokenize ") (\"(\" // (" = .ok ts := ⟨_, by cbv⟩
  have hdepth : openDepth ") (\"(\" // (" = 1 := by cbv
  have htree : FrontEnd.grammar.parseExpr "(\"(\") // (" =
      .ok (.group (.literal (.string "("))) := by cbv
  have haccepts : FrontEnd.grammar.Accepts "(\"(\") // (" := .inl ⟨_, htree⟩
  obtain ⟨ts, hts⟩ := hts
  have hgreatest := (enter_submits_complete ") (\"(\" // (").1 ts hts
  rw [hdepth] at hgreatest
  exact ⟨⟨ts, hts, hgreatest⟩, haccepts, ((enter_submits_complete _).2 _ haccepts).2⟩

end Lox
