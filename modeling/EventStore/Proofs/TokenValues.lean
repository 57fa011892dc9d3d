import EventStore.Proofs.Lists
import EventStore.Proofs.Tokens

/-!
# The values among the tokens of a statement

Only predicates, assignments and rows bring values; all that stands around them brings none. The
values of an expression are listed here in the order of reading, without a look at its tokens.

Proved here:

* `tokenValues_condition`: the values among the tokens of a condition are its values, depth first;
* `tokenValues_select`, `tokenValues_insert`, `tokenValues_update`, `tokenValues_delete`: and those
  among the tokens of an expression are its values.
-/

namespace EventStore.Sql

/-! ## The order of reading -/

namespace Condition

mutual

/-- The values of a condition, depth first. -/
def values : Condition → List Datum
  | .leaf _ p => p.values
  | .group _ l => valuesAll l

def valuesAll : List Condition → List Datum
  | [] => []
  | c :: l => c.values ++ valuesAll l

end

theorem valuesAll_eq (l : List Condition) : valuesAll l = l.flatMap values := by
  induction l with
  | nil => rfl
  | cons c l ih => rw [valuesAll, ih, List.flatMap_cons]

end Condition

def Join.values (j : Join) : List Datum := (j.condition.map Condition.values).getD []

/-- The joins come before the conditions. -/
def Select.values (s : Select) : List Datum :=
  s.joins.flatMap Join.values ++ s.conditions.flatMap Condition.values

def Insert.values (s : Insert) : List Datum := s.rows.flatten

/-- The value of an assignment, unless it is null. -/
def Assignment.values (a : Assignment) : List Datum := a.value.toList.filter (!·.isNull)

def Update.values (s : Update) : List Datum :=
  s.assignments.flatMap Assignment.values ++ s.conditions.flatMap Condition.values

def Delete.values (s : Delete) : List Datum := s.conditions.flatMap Condition.values

/-! ## Tokens -/

@[simp] theorem Statement.values_ofTokens (d : Dialect) (l : List Token) :
    (Statement.ofTokens d l).values = tokenValues l := by
  rw [Statement.values, Statement.ofTokens, List.mapIdx_eq_zipIdx_map, List.map_map]
  exact List.zipIdx_map_fst 0 _

@[simp] theorem tokenValues_nil : tokenValues [] = [] := rfl

@[simp] theorem tokenValues_append (l m : List Token) :
    tokenValues (l ++ m) = tokenValues l ++ tokenValues m :=
  List.filterMap_append

@[simp] theorem tokenValues_cons_value (v : Datum) (l : List Token) :
    tokenValues (.value v :: l) = v :: tokenValues l := rfl

theorem tokenValues_cons (t : Token) (l : List Token) (h : ∀ v, t ≠ .value v) :
    tokenValues (t :: l) = tokenValues l := by
  cases t <;> first | rfl | exact absurd rfl (h _)

theorem separated_singleton (separator l : List Token) : separated separator [l] = l := by
  simp [separated, List.intercalate]

theorem separated_cons_cons (separator p q : List Token) (l : List (List Token)) :
    separated separator (p :: q :: l) = p ++ (separator ++ separated separator (q :: l)) := by
  simp [separated, List.intercalate]

/-- Separators bring no values of their own. -/
theorem tokenValues_separated (separator : List Token) (hsep : tokenValues separator = [])
    (l : List (List Token)) : tokenValues (separated separator l) = l.flatMap tokenValues := by
  induction l with
  | nil => rfl
  | cons t l ih =>
    cases l with
    | nil => simp [separated_singleton]
    | cons u l =>
      rw [separated_cons_cons, tokenValues_append, tokenValues_append, hsep, ih]
      rfl

@[simp] theorem tokenValues_listed (l : List (List Token)) :
    tokenValues (listed l) = l.flatMap tokenValues :=
  tokenValues_separated _ rfl l

@[simp] theorem tokenValues_clauses (l : List (List Token)) :
    tokenValues (clauses l) = l.flatMap tokenValues :=
  tokenValues_separated _ rfl l

@[simp] theorem tokenValues_connected (c : Connective) (l : List (List Token)) :
    tokenValues (connected c l) = l.flatMap tokenValues :=
  tokenValues_separated _ rfl l

@[simp] theorem tokenValues_inParens (l : List Token) :
    tokenValues (inParens l) = tokenValues l := by
  simp [inParens, tokenValues_cons]

@[simp] theorem tokenValues_pathTokens (l : List Identifier) : tokenValues (pathTokens l) = [] := by
  rw [pathTokens, tokenValues_separated _ rfl, List.flatMap_map]
  exact List.flatMap_eq_nil_iff.mpr fun _ _ => rfl

@[simp] theorem tokenValues_qualified (t : Table) : tokenValues t.qualified = [] :=
  tokenValues_pathTokens _

@[simp] theorem tokenValues_declaration (t : Table) : tokenValues t.declaration = [] := by
  unfold Table.declaration
  split <;> simp [tokenValues_cons]

@[simp] theorem tokenValues_bare (c : Column) : tokenValues c.bare = [] := by
  unfold Column.bare
  split <;> rfl

@[simp] theorem tokenValues_reference (c : Column) : tokenValues c.reference = [] := by
  unfold Column.reference
  split <;> simp [Table.reference, tokenValues_cons]

@[simp] theorem tokenValues_projection (c : Column) : tokenValues c.projection = [] := by
  unfold Column.projection
  split <;> simp [tokenValues_cons]

@[simp] theorem tokenValues_short (c : Column) : tokenValues c.short = [] := by
  unfold Column.short
  split
  · rfl
  · simp

@[simp] theorem tokenValues_operands (p : Predicate) : tokenValues p.operands = p.values := by
  cases p <;> simp [Predicate.operands, Predicate.values, tokenValues_cons, List.flatMap_map]

mutual

theorem tokenValues_condition : ∀ c : Condition, tokenValues c.tokens = c.values
  | .leaf c p => by
    simp [Condition.tokens, Condition.values, tokenValues_cons]
  | .group c l => by
    rw [Condition.tokens, Condition.values, tokenValues_inParens, tokenValues_connected]
    exact flatMap_tokensAll l

theorem flatMap_tokensAll :
    ∀ l : List Condition, (Condition.tokensAll l).flatMap tokenValues = Condition.valuesAll l
  | [] => rfl
  | c :: l => by
    rw [Condition.tokensAll, Condition.valuesAll, List.flatMap_cons, tokenValues_condition c,
      flatMap_tokensAll l]

end

/-! ## Clauses -/

/-- Sort keys bring no values. -/
theorem flatMap_orderBy (l : List OrderKey) : (OrderKey.clause l).flatMap tokenValues = [] := by
  cases l with
  | nil => rfl
  | cons k l =>
    simp only [OrderKey.clause, List.flatMap_cons, List.flatMap_nil, List.append_nil]
    rw [tokenValues_cons _ _ (by simp), tokenValues_cons _ _ (by simp), tokenValues_listed,
      List.flatMap_map]
    exact List.flatMap_eq_nil_iff.mpr fun k _ => by
      simp [OrderKey.tokens, tokenValues_cons]

theorem flatMap_conditions (l : List Condition) :
    (Condition.clause l).flatMap tokenValues = l.flatMap Condition.values := by
  rw [← Condition.valuesAll_eq]
  cases l with
  | nil => rfl
  | cons c l =>
    simp only [Condition.clause, List.flatMap_cons, List.flatMap_nil, List.append_nil]
    rw [tokenValues_cons _ _ (by simp), tokenValues_cons _ _ (by simp), tokenValues_connected,
      flatMap_tokensAll]

theorem tokenValues_equated (left right : List Token) :
    tokenValues (equated left right) = tokenValues left ++ tokenValues right := by
  simp [equated, tokenValues_cons]

theorem tokenValues_join (j : Join) : tokenValues j.tokens = j.values := by
  rcases j with ⟨kind, left, right, _ | c⟩ <;>
    simp [Join.tokens, Join.values, tokenValues_equated, tokenValues_cons, tokenValues_condition]

theorem tokenValues_assignment (a : Assignment) : tokenValues a.tokens = a.values := by
  obtain ⟨column, value, named⟩ := a
  rw [Assignment.tokens, tokenValues_equated, tokenValues_bare]
  rcases value with _ | _ | _ <;> rfl

/-! ## Expressions -/

/-- What a query selects. -/
def Select.heading (s : Select) : List Token :=
  (if s.distinct then [.word .select, .space, .word .distinct] else [.word .select])
    ++ .space ::
      if s.columns.isEmpty then [.word .wildcard] else listed (s.columns.map Column.projection)

/-- A query, clause by clause. -/
theorem Select.tokens_eq_clauses (s : Select) (t : Table) :
    s.tokens t =
      clauses (s.heading :: (.word .fromTable :: .space :: t.declaration)
        :: (s.joins.map Join.tokens
          ++ (Condition.clause s.conditions ++ OrderKey.clause s.orderBy)))
        ++ [.paging s.limit s.offset] := by
  simp [Select.tokens, Select.heading]

@[simp] theorem tokenValues_heading (s : Select) : tokenValues s.heading = [] := by
  have hcolumns : tokenValues (if s.columns.isEmpty then [.word .wildcard]
      else listed (s.columns.map Column.projection)) = [] := by
    split
    · rfl
    · rw [tokenValues_listed, List.flatMap_map]
      exact List.flatMap_eq_nil_iff.mpr fun c _ => tokenValues_projection c
  rw [Select.heading, tokenValues_append, tokenValues_cons .space _ nofun, hcolumns,
    List.append_nil]
  split <;> rfl

theorem flatMap_joins (l : List Join) :
    (l.map Join.tokens).flatMap tokenValues = l.flatMap Join.values := by
  rw [List.flatMap_map]
  exact List.flatMap_congr fun j _ => tokenValues_join j

theorem tokenValues_select (s : Select) (t : Table) : tokenValues (s.tokens t) = s.values := by
  rw [s.tokens_eq_clauses t]
  simp [tokenValues_cons, flatMap_joins, flatMap_conditions, flatMap_orderBy, Select.values]

/-- What an insertion into a table begins with. -/
def Insert.heading (s : Insert) (t : Table) : List Token :=
  [.word .insertInto, .space] ++ t.qualified
    ++ .space :: inParens (listed (s.columns.map Column.bare))

theorem Insert.tokenValues_heading (s : Insert) (t : Table) : tokenValues (s.heading t) = [] := by
  have hcolumns : (s.columns.map Column.bare).flatMap tokenValues = [] := by
    rw [List.flatMap_map]
    exact List.flatMap_eq_nil_iff.mpr fun c _ => tokenValues_bare c
  simp [heading, tokenValues_cons, hcolumns]

theorem tokenValues_insert (s : Insert) (t : Table) : tokenValues (s.tokens t) = s.values := by
  have hcells : ∀ row : List Datum,
      (row.map fun v => [Token.value v]).flatMap tokenValues = row := by
    intro row
    rw [List.flatMap_map]
    exact List.flatMap_singleton' row
  have htokens : s.tokens t = clauses [s.heading t, .word .values :: .space
      :: listed (s.rows.map fun row => inParens (listed (row.map fun v => [.value v])))] := rfl
  simp [htokens, Insert.values, tokenValues_cons, s.tokenValues_heading t, List.flatMap_map, hcells]

theorem tokenValues_update (s : Update) (t : Table) : tokenValues (s.tokens t) = s.values := by
  simp [Update.tokens, Update.values, tokenValues_cons, flatMap_conditions, List.flatMap_map,
    tokenValues_assignment]

theorem tokenValues_delete (s : Delete) : tokenValues s.tokens = s.values := by
  simp [Delete.tokens, Delete.values, tokenValues_cons, flatMap_conditions]

end EventStore.Sql
