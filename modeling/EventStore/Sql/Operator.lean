/-! The operators of conditions and the kinds of joins. -/

namespace EventStore.Sql

inductive Comparison where
  | equal
  | notEqual
  | less
  | lessOrEqual
  | greater
  | greaterOrEqual
deriving DecidableEq, Repr

/-- The comparison that holds exactly when this one does not. -/
def Comparison.negate : Comparison → Comparison
  | .equal => .notEqual
  | .notEqual => .equal
  | .less => .greaterOrEqual
  | .lessOrEqual => .greater
  | .greater => .lessOrEqual
  | .greaterOrEqual => .less

/-- What a dialect has a spelling for. -/
inductive OperatorKind where
  | comparison (c : Comparison)
  | between
  | notBetween
  | inList
  | notInList
  | like
  | notLike
  | iLike
  | notILike
  | isNull
  | isNotNull
deriving DecidableEq, Repr

namespace OperatorKind

/-- The name of an operator in messages. -/
def name : OperatorKind → String
  | .comparison .equal => "Equal"
  | .comparison .notEqual => "NotEqual"
  | .comparison .less => "LessThan"
  | .comparison .lessOrEqual => "LessThanOrEqual"
  | .comparison .greater => "GreaterThan"
  | .comparison .greaterOrEqual => "GreaterThanOrEqual"
  | .between => "Between"
  | .notBetween => "NotBetween"
  | .inList => "In"
  | .notInList => "NotIn"
  | .like => "Like"
  | .notLike => "NotLike"
  | .iLike => "ILike"
  | .notILike => "NotILike"
  | .isNull => "IsNull"
  | .isNotNull => "IsNotNull"

/-- The usual spelling of an operator. -/
def usual : OperatorKind → String
  | .comparison .equal => "="
  | .comparison .notEqual => "<>"
  | .comparison .less => "<"
  | .comparison .lessOrEqual => "<="
  | .comparison .greater => ">"
  | .comparison .greaterOrEqual => ">="
  | .between => "BETWEEN"
  | .notBetween => "NOT BETWEEN"
  | .inList => "IN"
  | .notInList => "NOT IN"
  | .like => "LIKE"
  | .notLike => "NOT LIKE"
  | .iLike => "ILIKE"
  | .notILike => "NOT ILIKE"
  | .isNull => "IS NULL"
  | .isNotNull => "IS NOT NULL"

def all : List OperatorKind :=
  [.comparison .equal, .comparison .notEqual, .comparison .less, .comparison .lessOrEqual,
   .comparison .greater, .comparison .greaterOrEqual, .between, .notBetween, .inList, .notInList,
   .like, .notLike, .iLike, .notILike, .isNull, .isNotNull]

end OperatorKind

/-- How the conditions of a group are connected. -/
inductive Connective where
  | and
  | or
deriving DecidableEq, Repr

namespace Connective

/-- The word for a connective in a dialect that spells none. -/
def tag : Connective → String
  | .and => "AND"
  | .or => "OR"

/-- The other connective. -/
def dual : Connective → Connective
  | .and => .or
  | .or => .and

end Connective

inductive JoinKind where
  | inner
  | left
  | right
  | full
deriving DecidableEq, Repr

namespace JoinKind

def name : JoinKind → String
  | .inner => "Inner"
  | .left => "Left"
  | .right => "Right"
  | .full => "Full"

/-- The usual spelling of a join. -/
def usual : JoinKind → String
  | .inner => "INNER JOIN"
  | .left => "LEFT JOIN"
  | .right => "RIGHT JOIN"
  | .full => "FULL OUTER JOIN"

def all : List JoinKind := [.inner, .left, .right, .full]

end JoinKind

end EventStore.Sql
