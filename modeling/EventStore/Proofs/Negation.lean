import EventStore.Proofs.Truth
import EventStore.Proofs.WellFormed

/-!
# Negation

The negation of a condition says "not" in its predicates alone. What it says is read here from the
operators that a dialect writes, with the values of the predicates: an operator that says "not" is
the negation of the one that does not.

Proved here:

* `neg_all`, `neg_any`: De Morgan's laws, where a truth value may be neither true nor false;
* `kind_negate`, `operator_negate`: a negated predicate is written with the operator that is the
  negation of its own;
* `reading_not`: hence the negation of a condition is its negation;
* `not_not`: negated twice, a condition is what it was;
* `writable_not`, `values_not`: a dialect that has both or none of each two operators can write the
  negation of a condition if it can write the condition, and binds the same values;
* `not_is_negation`: all of this together.
-/

namespace EventStore.Sql

/-! ## Truth values -/

namespace Truth

@[simp] theorem neg_neg (t : Truth) : t.neg.neg = t := by
  rcases t with - | - | - <;> rfl

theorem neg_conj (s t : Truth) : (s.conj t).neg = s.neg.disj t.neg := by
  rcases s with - | - | - <;> rcases t with - | - | - <;> rfl

theorem neg_disj (s t : Truth) : (s.disj t).neg = s.neg.conj t.neg := by
  rcases s with - | - | - <;> rcases t with - | - | - <;> rfl

theorem neg_all (l : List Truth) : (all l).neg = any (l.map neg) := by
  induction l with
  | nil => rfl
  | cons t l ih =>
    calc (all (t :: l)).neg
      _ = t.neg.disj (all l).neg := neg_conj t (all l)
      _ = t.neg.disj (any (l.map neg)) := by rw [ih]

theorem neg_any (l : List Truth) : (any l).neg = all (l.map neg) := by
  induction l with
  | nil => rfl
  | cons t l ih =>
    calc (any (t :: l)).neg
      _ = t.neg.conj (any l).neg := neg_disj t (any l)
      _ = t.neg.conj (all (l.map neg)) := by rw [ih]

end Truth

/-! ## Operators -/

theorem Comparison.negate_negate (c : Comparison) : c.negate.negate = c := by
  cases c <;> rfl

/-- A comparison holds exactly if its negation does not. -/
theorem Comparison.holds_negate (c : Comparison) (o : Ordering) :
    c.negate.holds o = !c.holds o := by
  cases c <;> cases o <;> rfl

namespace OperatorKind

/-- The operator that an operator which says "not" is the negation of. -/
def positive? : OperatorKind → Option OperatorKind
  | .notBetween => some .between
  | .notInList => some .inList
  | .notLike => some .like
  | .notILike => some .iLike
  | .isNotNull => some .isNull
  | _ => none

/-- The operator that is written for the negation. -/
def negate : OperatorKind → OperatorKind
  | .comparison c => .comparison c.negate
  | .between => .notBetween
  | .notBetween => .between
  | .inList => .notInList
  | .notInList => .inList
  | .like => .notLike
  | .notLike => .like
  | .iLike => .notILike
  | .notILike => .iLike
  | .isNull => .isNotNull
  | .isNotNull => .isNull

end OperatorKind

namespace Predicate

@[simp] theorem negate_negate (p : Predicate) : p.negate.negate = p := by
  cases p <;> simp [negate, Comparison.negate_negate]

@[simp] theorem values_negate (p : Predicate) : p.negate.values = p.values := by
  cases p <;> rfl

theorem kind_negate (p : Predicate) : p.negate.kind = p.kind.negate := by
  cases p with
  | compare => rfl
  | like negated ignoreCase => cases negated <;> cases ignoreCase <;> rfl
  | between negated | inList negated | isNull negated => cases negated <;> rfl

end Predicate

namespace Collation

variable (k : Collation) (value : Column → Datum)

/-- The truth of an operator that does not say "not", between a value and its operands. -/
def plain (v : Datum) : OperatorKind → List Datum → Truth
  | .comparison c, [w] => k.compared c v w
  | .between, [low, high] =>
    (k.compared .greaterOrEqual v low).conj (k.compared .lessOrEqual v high)
  | .inList, l => .any (l.map (k.compared .equal v))
  | .like, [.text pattern] => if v.isNull then none else some (k.like false pattern v)
  | .iLike, [.text pattern] => if v.isNull then none else some (k.like true pattern v)
  | .isNull, [] => some v.isNull
  | _, _ => none

/-- The truth of an operator as it is written. -/
def operator (v : Datum) (o : OperatorKind) (l : List Datum) : Truth :=
  match o.positive? with
  | some o' => (k.plain v o' l).neg
  | none => k.plain v o l

mutual

/-- The truth of a condition as it is written. -/
def reading : Condition → Truth
  | .leaf column p => k.operator (value column) p.kind p.values
  | .group .and l => .all (readings l)
  | .group .or l => .any (readings l)

def readings : List Condition → List Truth
  | [] => []
  | c :: l => reading c :: readings l

end

theorem compared_negate (c : Comparison) (v w : Datum) :
    k.compared c.negate v w = (k.compared c v w).neg := by
  unfold compared
  split
  · rfl
  · rw [Comparison.holds_negate]
    rfl

theorem operator_negate (v : Datum) (o : OperatorKind) (l : List Datum) :
    k.operator v o.negate l = (k.operator v o l).neg := by
  cases o with
  | comparison c =>
    rcases l with - | ⟨w, - | ⟨w', l⟩⟩
    · rfl
    · exact k.compared_negate c v w
    · rfl
  | between | inList | like | iLike | isNull => rfl
  -- An operator that says "not" is read as a negation already, and is negated twice here.
  | notBetween | notInList | notLike | notILike | isNotNull => exact (Truth.neg_neg _).symm

mutual

/-- The negation of a condition is its negation, also where it is neither true nor false. -/
theorem reading_not : ∀ c : Condition, k.reading value c.not = (k.reading value c).neg
  | .leaf column p => by
    rw [Condition.not, reading, reading, Predicate.kind_negate, Predicate.values_negate,
      operator_negate]
  | .group .and l => by
    rw [Condition.not, Connective.dual, reading, reading, readings_notAll l, Truth.neg_all]
  | .group .or l => by
    rw [Condition.not, Connective.dual, reading, reading, readings_notAll l, Truth.neg_any]

theorem readings_notAll : ∀ l : List Condition,
    k.readings value (Condition.notAll l) = (k.readings value l).map Truth.neg
  | [] => rfl
  | c :: l => by
    rw [Condition.notAll, readings, readings, List.map_cons, reading_not c, readings_notAll l]

end

/-- A predicate says what its operator says. -/
theorem predicate_eq_operator (v : Datum) (p : Predicate) :
    k.predicate v p = k.operator v p.kind p.values := by
  cases p with
  | compare => rfl
  | like negated ignoreCase => cases negated <;> cases ignoreCase <;> rfl
  | between negated | inList negated => cases negated <;> rfl
  | isNull negated => cases negated <;> cases v <;> rfl

mutual

theorem truth_eq_reading : ∀ c : Condition, k.truth value c = k.reading value c
  | .leaf column p => k.predicate_eq_operator (value column) p
  | .group .and l => by rw [truth, reading, truths_eq_readings l]
  | .group .or l => by rw [truth, reading, truths_eq_readings l]

theorem truths_eq_readings : ∀ l : List Condition, k.truths value l = k.readings value l
  | [] => rfl
  | c :: l => by rw [truths, readings, truth_eq_reading c, truths_eq_readings l]

end

end Collation

/-! ## Negation twice -/

namespace Condition

mutual

theorem not_not : ∀ c : Condition, c.not.not = c
  | .leaf column p => by rw [Condition.not, Condition.not, Predicate.negate_negate]
  | .group o l => by
    rw [Condition.not, Condition.not, notAll_notAll l]
    cases o <;> rfl

theorem notAll_notAll : ∀ l : List Condition, notAll (notAll l) = l
  | [] => rfl
  | c :: l => by rw [notAll, notAll, not_not c, notAll_notAll l]

end

/-! ## Statements -/

mutual

theorem values_not : ∀ c : Condition, c.not.values = c.values
  | .leaf _ p => Predicate.values_negate p
  | .group _ l => valuesAll_notAll l

theorem valuesAll_notAll : ∀ l : List Condition, valuesAll (notAll l) = valuesAll l
  | [] => rfl
  | c :: l => by rw [notAll, valuesAll, valuesAll, values_not c, valuesAll_notAll l]

end

mutual

theorem nodes_not : ∀ c : Condition, c.not.nodes = c.nodes.map Condition.not
  | .leaf column p => rfl
  | .group o l => by
    rw [Condition.not, nodes, nodes, List.map_cons, nodesAll_notAll l, Condition.not]

theorem nodesAll_notAll : ∀ l : List Condition, nodesAll (notAll l) = (nodesAll l).map Condition.not
  | [] => rfl
  | c :: l => by
    rw [notAll, nodesAll, nodesAll, List.map_append, nodes_not c, nodesAll_notAll l]

end

end Condition

/-- A dialect that has the negation of an operator if it has the operator. -/
def Dialect.Paired (d : Dialect) : Prop :=
  ∀ o, (d.operator o.negate).isSome = (d.operator o).isSome

theorem paired_dialect (k : DialectKind) : k.dialect.Paired := by
  intro o
  cases k <;> cases o <;> rfl

/-- Two attempts that both fail, or give statements with the same parameters. -/
inductive SameParameters : Except SqlError Statement → Except SqlError Statement → Prop where
  | error (e e' : SqlError) : SameParameters (.error e) (.error e')
  | ok {s t : Statement} (h : s.parameters = t.parameters) : SameParameters (.ok s) (.ok t)

/-- Wherever a statement takes a condition, it takes the other one in its place, with the same
parameters. -/
structure Condition.Interchangeable (d : Dialect) (c c' : Condition) : Prop where
  query (s : Select) : SameParameters ((s.andWhere c).build d) ((s.andWhere c').build d)
  join (s : Select) (j : Join) :
    SameParameters ((s.join (j.withCondition c)).build d) ((s.join (j.withCondition c')).build d)
  update (s : Update) : SameParameters ((s.andWhere c).build d) ((s.andWhere c').build d)
  deletion (s : Delete) : SameParameters ((s.andWhere c).build d) ((s.andWhere c').build d)

section Statements

variable {d : Dialect} {c c' : Condition}

theorem Predicate.ne_inList_nil_iff (p : Predicate) :
    (∀ negated, p.negate ≠ .inList negated []) ↔ ∀ negated, p ≠ .inList negated [] := by
  cases p with
  | inList negated l => cases negated <;> simp [negate]
  | _ => exact iff_of_true nofun nofun

theorem sound_not (hd : d.Paired) (n : Condition) : n.not.Sound d ↔ n.Sound d := by
  cases n with
  | leaf column p =>
    have hoperator : d.operator p.negate.kind ≠ none ↔ d.operator p.kind ≠ none := by
      rw [← Option.isSome_iff_ne_none, ← Option.isSome_iff_ne_none, p.kind_negate, hd]
    exact and_congr_right' (and_congr hoperator p.ne_inList_nil_iff)
  | group o l => cases l <;> simp [Condition.not, Condition.notAll, Condition.Sound]

theorem writable_not (hd : d.Paired) (c : Condition) : c.not.Writable d ↔ c.Writable d := by
  unfold Condition.Writable
  rw [Condition.nodes_not, List.forall_mem_map]
  exact forall₂_congr fun n _ => sound_not hd n

theorem parameters_of_build {x : Expression} {statement : Statement}
    (h : x.build d = .ok statement) :
    statement.parameters = x.values.mapIdx fun k v => ⟨d.parameter k, v⟩ := by
  have hvalues := Expression.values_of_build h
  rw [Expression.eq_ofTokens_of_build h, Statement.values_ofTokens] at hvalues
  rw [Expression.eq_ofTokens_of_build h, Statement.ofTokens, hvalues]

/-- What is built depends on the shape, on the conditions that can be written, and on the values. -/
theorem sameParameters_build (x x' : Expression) (hshaped : x.Shaped ↔ x'.Shaped)
    (hwritable : (∀ c ∈ x.trees, c.Writable d) ↔ ∀ c ∈ x'.trees, c.Writable d)
    (hvalues : x.values = x'.values) : SameParameters (x.build d) (x'.build d) := by
  have hbuilt : (∃ s, x.build d = .ok s) ↔ ∃ s, x'.build d = .ok s := by
    rw [Expression.exists_build_iff, Expression.exists_build_iff, hshaped, hwritable]
  cases hx : x.build d with
  | error e =>
    cases hx' : x'.build d with
    | error e' => exact .error e e'
    | ok s => simp [hx, hx'] at hbuilt
  | ok s =>
    cases hx' : x'.build d with
    | error e => simp [hx, hx'] at hbuilt
    | ok s' => exact .ok (by rw [parameters_of_build hx, parameters_of_build hx', hvalues])

theorem interchangeable (hwritable : c.Writable d ↔ c'.Writable d)
    (hvalues : c.values = c'.values) : c.Interchangeable d c' where
  query s := by
    refine sameParameters_build (.select _) (.select _) Iff.rfl ?_ ?_
    · simp only [Expression.trees, Select.andWhere, List.forall_mem_append,
        List.forall_mem_singleton, hwritable]
    · simp [Expression.values, Select.values, Select.andWhere, hvalues]
  join s j := by
    refine sameParameters_build (.select _) (.select _) Iff.rfl ?_ ?_
    · simp only [Expression.trees, Select.join, Join.withCondition, List.filterMap_append,
        List.filterMap_cons, List.filterMap_nil, List.forall_mem_append, List.forall_mem_singleton,
        hwritable]
    · simp [Expression.values, Select.values, Select.join, Join.withCondition, Join.values, hvalues]
  update s := by
    refine sameParameters_build (.update _) (.update _) Iff.rfl ?_ ?_
    · simp only [Expression.trees, Update.andWhere, List.forall_mem_append,
        List.forall_mem_singleton, hwritable]
    · simp [Expression.values, Update.values, Update.andWhere, hvalues]
  deletion s := by
    refine sameParameters_build (.delete _) (.delete _) Iff.rfl ?_ ?_
    · simp only [Expression.trees, Delete.andWhere, List.forall_mem_append,
        List.forall_mem_singleton, hwritable]
    · simp [Expression.values, Delete.values, Delete.andWhere, hvalues]

/-- Whatever the order of values and whatever the columns hold, the operators that a condition is
written with say what the condition says, and those of its negation say the negation of this, which
is neither true nor false where the condition is. Negated twice, a condition is what it was. A
dialect that has a name can write the negation exactly if it can write the condition, with the same
parameters. -/
theorem not_is_negation (k : Collation) (value : Column → Datum) (c : Condition) :
    k.truth value c = k.reading value c ∧
      k.reading value c.not = (k.reading value c).neg ∧
      c.not.not = c ∧
      ∀ dialect : DialectKind, c.Interchangeable dialect.dialect c.not :=
  ⟨k.truth_eq_reading value c, k.reading_not value c, c.not_not, fun dialect =>
    interchangeable (writable_not (paired_dialect dialect) c).symm c.values_not.symm⟩

end Statements

end EventStore.Sql
