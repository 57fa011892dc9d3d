import EventStore.Sql.Datum
import EventStore.Sql.Table

/-! Conditions on rows.

A condition is a tree: predicates on single columns, connected in groups. Its negation is pushed to
the predicates, each of which has a negated form, and exchanges the connectives on the way. -/

namespace EventStore.Sql

inductive Predicate where
  | compare (comparison : Comparison) (value : Datum)
  | between (negated : Bool) (low high : Datum)
  | inList (negated : Bool) (values : List Datum)
  | like (negated ignoreCase : Bool) (pattern : String)
  | isNull (negated : Bool)
deriving DecidableEq

namespace Predicate

def kind : Predicate → OperatorKind
  | .compare comparison _ => .comparison comparison
  | .between negated _ _ => if negated then .notBetween else .between
  | .inList negated _ => if negated then .notInList else .inList
  | .like negated false _ => if negated then .notLike else .like
  | .like negated true _ => if negated then .notILike else .iLike
  | .isNull negated => if negated then .isNotNull else .isNull

def negate : Predicate → Predicate
  | .compare comparison value => .compare comparison.negate value
  | .between negated low high => .between (!negated) low high
  | .inList negated values => .inList (!negated) values
  | .like negated ignoreCase pattern => .like (!negated) ignoreCase pattern
  | .isNull negated => .isNull (!negated)

/-- The values of a predicate, in the order in which they are written. -/
def values : Predicate → List Datum
  | .compare _ value => [value]
  | .between _ low high => [low, high]
  | .inList _ values => values
  | .like _ _ pattern => [.text pattern]
  | .isNull _ => []

/-- Equality of predicates, where floats are compared as numbers. -/
def equal (p q : Predicate) : Bool :=
  p.kind = q.kind && p.values.length = q.values.length
    && (p.values.zip q.values).all fun (v, w) => v.equal w

end Predicate

inductive Condition where
  | leaf (column : Column) (predicate : Predicate)
  | group (connective : Connective) (conditions : List Condition)

namespace Condition

def compare (comparison : Comparison) (column : Column) (value : Datum) : Condition :=
  .leaf column (.compare comparison value)

def eq (column : Column) (value : Datum) : Condition := compare .equal column value

def le (column : Column) (value : Datum) : Condition := compare .lessOrEqual column value

def inList (column : Column) (values : List Datum) : Condition :=
  .leaf column (.inList false values)

mutual

/-- The negation of a condition. -/
def not : Condition → Condition
  | .leaf column predicate => .leaf column predicate.negate
  | .group connective l => .group connective.dual (notAll l)

def notAll : List Condition → List Condition
  | [] => []
  | c :: l => c.not :: notAll l

end

mutual

/-- Equality of conditions, where floats are compared as numbers. -/
def equal : Condition → Condition → Bool
  | .leaf column p, .leaf column' q => column = column' && p.equal q
  | .group connective l, .group connective' l' => connective = connective' && equalAll l l'
  | _, _ => false

def equalAll : List Condition → List Condition → Bool
  | [], [] => true
  | c :: l, c' :: l' => c.equal c' && equalAll l l'
  | _, _ => false

end

end Condition

end EventStore.Sql
