import Lox.Descent.Parser
import Lox.Grammar.Reader
/-!
# `Precedence` — how tightly operators bind

Which operator binds tighter is a matter of the language. From the loosest to the tightest there are
`and` and `or`, the equalities, the comparisons, sums and differences, products and quotients;
whatever has a sign or is by itself binds tighter still. Each front end has this order in a form of
its own: descent has the marks of each tier, and the grammar has its layers of rules. Both agree
with the language (`Descent.op?_eq`, `Grammar.layer_eq`), so that what is said of either speaks of
the order that is defined here.
-/
namespace Lox

/-! ## The language -/

/-- The tier of an operator. -/
def BinaryOp.tier : BinaryOp → Tier
  | logical _ => .logical
  | strict .equal | strict .notEqual => .equality
  | strict .less | strict .lessEqual | strict .greater | strict .greaterEqual => .comparison
  | strict .add | strict .subtract => .term
  | strict .multiply | strict .divide => .factor

/-- Counts the tiers from the loosest. -/
def Tier.rank : Tier → Nat
  | logical => 0
  | equality => 1
  | comparison => 2
  | term => 3
  | factor => 4

theorem Tier.rank_le_four (tier : Tier) : tier.rank ≤ 4 := by
  cases tier <;> decide

theorem Tier.rank_injective {a b : Tier} (h : a.rank = b.rank) : a = b := by
  cases a <;> cases b <;> simp_all [Tier.rank]

/-! ## The front ends -/

namespace Descent

/-- The marks that descent looks for at a tier are those of the operators of the tier. -/
theorem op?_eq (tier : Tier) (k : Kind) : tier.op? k = k.binaryOp?.filter (·.tier = tier) := by
  cases k with
  | mark m => cases tier <;> cases m <;> rfl
  | identifier | string | number | endOfInput => rfl

theorem op?_eq_some {tier : Tier} {k : Kind} {op : BinaryOp} :
    tier.op? k = some op ↔ k.binaryOp? = some op ∧ op.tier = tier := by
  simp [op?_eq, Option.filter_eq_some_iff]

theorem op?_eq_none {tier : Tier} {k : Kind} :
    tier.op? k = none ↔ ∀ op, k.binaryOp? = some op → op.tier ≠ tier := by
  simp [op?_eq, Option.filter_eq_none_iff]

end Descent

/-- The rules of the grammar are layered as the tiers are. -/
theorem Grammar.layer_eq (op : BinaryOp) : layer op = op.tier.rank := by
  obtain ⟨_ | _⟩ | ⟨_ | _ | _ | _ | _ | _ | _ | _ | _ | _⟩ := op <;> rfl

end Lox
