import EventStore.Proofs.Tokens

/-!
# The truth of conditions, in the three-valued logic of databases

A condition is evaluated on values for its columns. What is compared with null is neither true nor
false, negation keeps it so, and a query selects only where all of its conditions are true. How
values that are not null compare, and which of them match a pattern, is left to the database.
-/

namespace EventStore.Sql

/-- A truth value; `none` is neither true nor false. -/
abbrev Truth := Option Bool

namespace Truth

def neg (t : Truth) : Truth := t.map (! ·)

def conj : Truth → Truth → Truth
  | some false, _ => some false
  | _, some false => some false
  | some true, t => t
  | t, some true => t
  | none, none => none

def disj : Truth → Truth → Truth
  | some true, _ => some true
  | _, some true => some true
  | some false, t => t
  | t, some false => t
  | none, none => none

def all (l : List Truth) : Truth := l.foldr conj (some true)

def any (l : List Truth) : Truth := l.foldr disj (some false)

/-- The negation of a truth value, if it is to be negated. -/
def negIf (negated : Bool) (t : Truth) : Truth := if negated then t.neg else t

theorem any_eq_true_iff (l : List Truth) : any l = some true ↔ some true ∈ l := by
  induction l with
  | nil => simp [any]
  | cons t l ih =>
    have hcons : any (t :: l) = disj t (any l) := rfl
    rw [hcons, List.mem_cons, ← ih]
    rcases t with - | - | - <;> rcases any l with - | - | - <;> simp [disj]

end Truth

/-- How a database compares values that are not null, and which of them match a pattern. -/
structure Collation where
  compare : Datum → Datum → Ordering
  like : (ignoreCase : Bool) → (pattern : String) → Datum → Bool

/-- Whether a comparison holds of values in the given order. -/
def Comparison.holds : Comparison → Ordering → Bool
  | .equal, o => o = .eq
  | .notEqual, o => o ≠ .eq
  | .less, o => o = .lt
  | .lessOrEqual, o => o ≠ .gt
  | .greater, o => o = .gt
  | .greaterOrEqual, o => o ≠ .lt

namespace Collation

variable (k : Collation)

def compared (c : Comparison) (v w : Datum) : Truth :=
  if v.isNull || w.isNull then none else some (c.holds (k.compare v w))

/-- The truth of a predicate of a value. -/
def predicate (v : Datum) : Predicate → Truth
  | .compare c w => k.compared c v w
  | .between negated low high =>
    .negIf negated ((k.compared .greaterOrEqual v low).conj (k.compared .lessOrEqual v high))
  | .inList negated l => .negIf negated (.any (l.map (k.compared .equal v)))
  | .like negated ignoreCase pattern =>
    .negIf negated (if v.isNull then none else some (k.like ignoreCase pattern v))
  | .isNull negated => some (v.isNull != negated)

mutual

/-- The truth of a condition, given the values of columns. -/
def truth (value : Column → Datum) : Condition → Truth
  | .leaf column p => k.predicate (value column) p
  | .group .and l => .all (truths value l)
  | .group .or l => .any (truths value l)

def truths (value : Column → Datum) : List Condition → List Truth
  | [] => []
  | c :: l => truth value c :: truths value l

end

/-- Whether all conditions of a query are true. -/
def meets (value : Column → Datum) (q : Select) : Bool :=
  q.conditions.all fun c => k.truth value c = some true

end Collation

end EventStore.Sql
