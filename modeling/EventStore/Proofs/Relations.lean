import EventStore.Proofs.Truth

/-!
# What queries give

A query is evaluated on the contents of tables. If it is plain, then it goes over all combinations
of rows, one of each table, and gives those for which its joins and all of its conditions are true,
as often as they occur, sorted by its keys.

Proved here: the truth of a condition depends only on the values of its own columns
(`truth_congr`).
-/

namespace EventStore.Sql

/-- A row of a table, with a value for each column that the table has. -/
abbrev Record := Identifier → Option Datum

/-- The value of a column in a row; null if there is no such column. -/
def Record.value (w : Record) (c : Column) : Datum := (c.name.bind w).getD .null

/-- A row of each of several tables, after what stands before the columns of the table. -/
abbrev Combination := List (List Identifier × Record)

namespace Combination

/-- The value of a column. One that names no table is of the first table that has it. -/
def value? (l : Combination) (c : Column) : Option Datum :=
  c.name.bind fun name =>
    match c.table with
    | some t => (l.lookup t.referencePath).bind (· name)
    | none => l.findSome? (·.2 name)

def value (l : Combination) (c : Column) : Datum := (l.value? c).getD .null

/-- What a query selects of a combination. -/
def output (l : Combination) (q : Select) : Record := fun name =>
  (if q.columns.isEmpty then [Column.all] else q.columns).findSome? fun c =>
    match c.name with
    | none => l.value? { c with name := some name }
    | some own => if c.aliasName.getD own = name then l.value? c else none

end Combination

/-- All combinations of rows of tables. -/
def combinations (contents : Table → List Record) : List Table → List Combination
  | [] => [[]]
  | t :: l =>
    (contents t).flatMap fun w => (combinations contents l).map ((t.referencePath, w) :: ·)

theorem combinations_pair (contents : Table → List Record) (t u : Table) :
    combinations contents [t, u] = (contents t).flatMap fun v =>
      (contents u).map fun w => [(t.referencePath, v), (u.referencePath, w)] := by
  simp only [combinations, List.map_cons, List.map_nil, ← List.map_eq_flatMap, List.map_map]
  rfl

namespace Select

/-- The tables of a query, in the order in which it names them. -/
def tables (q : Select) : List Table := q.table.toList ++ q.joins.map (·.right.table)

/-- A query whose joins are inner, and that gives all that it selects. -/
structure Plain (q : Select) : Prop where
  inner : ∀ j ∈ q.joins, j.kind = .inner
  distinct : q.distinct = false
  limit : q.limit = none
  offset : q.offset = none

end Select

namespace Collation

variable (k : Collation)

/-- Whether an inner join is true. -/
def joins (value : Column → Datum) (j : Join) : Bool :=
  k.compared .equal (value j.left.column) (value j.right.column) = some true
    && j.condition.all fun c => k.truth value c = some true

/-- Whether a query selects a combination. -/
def selects (q : Select) (l : Combination) : Bool :=
  q.joins.all (k.joins l.value) && k.meets l.value q

/-- Whether values may stand before others by the keys of a query. -/
def precedes (value value' : Column → Datum) : List OrderKey → Bool
  | [] => true
  | key :: keys =>
    let o := k.compare (value key.column) (value' key.column)
    match if key.descending then o.swap else o with
    | .lt => true
    | .eq => precedes value value' keys
    | .gt => false

/-- What a plain query may give. -/
structure Yields (contents : Table → List Record) (q : Select) (out : List Combination) :
    Prop where
  selected : out.Perm ((combinations contents q.tables).filter (k.selects q))
  sorted : out.Pairwise fun l l' => k.precedes l.value l'.value q.orderBy

end Collation

/-! ## The columns of a condition -/

namespace Condition

mutual

def columns : Condition → List Column
  | .leaf column _ => [column]
  | .group _ l => columnsAll l

def columnsAll : List Condition → List Column
  | [] => []
  | c :: l => c.columns ++ columnsAll l

end

end Condition

namespace Collation

variable {k : Collation} {value value' : Column → Datum}

mutual

theorem truth_congr : ∀ c : Condition, (∀ column ∈ c.columns, value column = value' column) →
    k.truth value c = k.truth value' c
  | .leaf column p, h => by
    rw [truth, truth, h column (List.mem_singleton_self _)]
  | .group .and l, h => by
    rw [truth, truth, truths_congr l h]
  | .group .or l, h => by
    rw [truth, truth, truths_congr l h]

theorem truths_congr : ∀ l : List Condition,
    (∀ column ∈ Condition.columnsAll l, value column = value' column) →
    k.truths value l = k.truths value' l
  | [], _ => rfl
  | c :: l, h => by
    rw [Condition.columnsAll, List.forall_mem_append] at h
    rw [truths, truths, truth_congr c h.1, truths_congr l h.2]

end

end Collation

end EventStore.Sql
