import EventStore.Proofs.Placeholders

/-!
# Values are bound and never written

Two expressions are alike if they differ in their values alone, and the values at each place are
related. Whatever the relation is, their statements are related in the same way, so no value leaves
its place and none has a part in the text.

Proved here, for every dialect:

* `spellAll_alike`: tokens that differ in their values alone are spelled alike;
* `tokens_alike`: the tokens of conditions that are alike differ in their values alone;
* `alike_build`: expressions that are alike fail with one error, or have one text and one list of
  names of parameters, whose values are those of the expressions.
-/

namespace EventStore.Sql

/-! ## Expressions that are alike -/

/-- Predicates that differ in their values alone, which are related at each place. -/
inductive Predicate.Alike (R : Datum → Datum → Prop) : Predicate → Predicate → Prop where
  | compare (c : Comparison) {v w : Datum} (h : R v w) : Alike R (.compare c v) (.compare c w)
  | between (negated : Bool) {low low' high high' : Datum} (hlow : R low low')
      (hhigh : R high high') : Alike R (.between negated low high) (.between negated low' high')
  | inList (negated : Bool) {l m : List Datum} (h : List.Forall₂ R l m) :
      Alike R (.inList negated l) (.inList negated m)
  | like (negated ignoreCase : Bool) {p q : String} (h : R (.text p) (.text q)) :
      Alike R (.like negated ignoreCase p) (.like negated ignoreCase q)
  | isNull (negated : Bool) : Alike R (.isNull negated) (.isNull negated)

inductive Condition.Alike (R : Datum → Datum → Prop) : Condition → Condition → Prop where
  | leaf (column : Column) {p q : Predicate} (h : p.Alike R q) :
      Alike R (.leaf column p) (.leaf column q)
  | group (connective : Connective) {l m : List Condition} (h : List.Forall₂ (Alike R) l m) :
      Alike R (.group connective l) (.group connective m)

variable (R : Datum → Datum → Prop)

structure Join.Alike (j j' : Join) : Prop where
  kind : j.kind = j'.kind
  left : j.left = j'.left
  right : j.right = j'.right
  condition : Option.Rel (Condition.Alike R) j.condition j'.condition

/-- Assignments to one column, of which both or none makes it null. -/
structure Assignment.Alike (a b : Assignment) : Prop where
  column : a.column = b.column
  values : List.Forall₂ R a.values b.values

structure Select.Alike (s s' : Select) : Prop where
  table : s.table = s'.table
  columns : s.columns = s'.columns
  distinct : s.distinct = s'.distinct
  joins : List.Forall₂ (Join.Alike R) s.joins s'.joins
  conditions : List.Forall₂ (Condition.Alike R) s.conditions s'.conditions
  orderBy : s.orderBy = s'.orderBy
  limit : s.limit = s'.limit
  offset : s.offset = s'.offset

/-- Insertions into the same columns, with as many rows, each of the same width. -/
structure Insert.Alike (s s' : Insert) : Prop where
  columns : s.columns = s'.columns
  rows : List.Forall₂ (List.Forall₂ R) s.rows s'.rows

structure Update.Alike (s s' : Update) : Prop where
  assignments : List.Forall₂ (Assignment.Alike R) s.assignments s'.assignments
  conditions : List.Forall₂ (Condition.Alike R) s.conditions s'.conditions

structure Delete.Alike (s s' : Delete) : Prop where
  table : s.table = s'.table
  conditions : List.Forall₂ (Condition.Alike R) s.conditions s'.conditions

inductive Expression.Alike : Expression → Expression → Prop where
  | select {s s' : Select} (h : s.Alike R s') : Alike (.select s) (.select s')
  | insert {s s' : Insert} (h : s.Alike R s') : Alike (.insert s) (.insert s')
  | update {s s' : Update} (h : s.Alike R s') : Alike (.update s) (.update s')
  | delete {s s' : Delete} (h : s.Alike R s') : Alike (.delete s) (.delete s')

/-! ## Tokens that are alike -/

inductive Token.Alike : Token → Token → Prop where
  | value {v w : Datum} (h : R v w) : Alike (.value v) (.value w)
  | same (t : Token) (h : ∀ v, t ≠ .value v) : Alike t t

variable {R} {l m l' m' : List Token}

/-- A value is spelled by its position alone. -/
theorem spellAll_alike (d : Dialect) (n : Nat) (h : List.Forall₂ (Token.Alike R) l m) :
    d.spellAll n l = d.spellAll n m := by
  induction h generalizing n with
  | nil => rfl
  | cons ht _ ih =>
    cases ht with
    | value => rw [Dialect.spellAll, Dialect.spellAll, ih]; rfl
    | same _ ht => rw [spellAll_cons d n ht, spellAll_cons d n ht, ih]

theorem tokenValues_alike (h : List.Forall₂ (Token.Alike R) l m) :
    List.Forall₂ R (tokenValues l) (tokenValues m) := by
  induction h with
  | nil => exact .nil
  | cons ht _ ih =>
    cases ht with
    | value hv => exact .cons hv ih
    | same _ ht => rwa [tokenValues_cons _ _ ht, tokenValues_cons _ _ ht]

/-- Tokens without values are alike to themselves, whatever is asked of values. -/
theorem alike_refl (h : tokenValues l = []) : List.Forall₂ (Token.Alike R) l l := by
  induction l with
  | nil => exact .nil
  | cons t l ih =>
    rcases t.value_or_ne with ⟨v, rfl⟩ | ht
    · rw [tokenValues_cons_value] at h
      cases h
    · rw [tokenValues_cons t l ht] at h
      exact .cons (.same t ht) (ih h)

theorem alike_append (h : List.Forall₂ (Token.Alike R) l m)
    (h' : List.Forall₂ (Token.Alike R) l' m') :
    List.Forall₂ (Token.Alike R) (l ++ l') (m ++ m') :=
  List.rel_append h h'

/-- Tokens before which the same ones stand. -/
theorem alike_append_left (hl : tokenValues l = []) (h : List.Forall₂ (Token.Alike R) l' m') :
    List.Forall₂ (Token.Alike R) (l ++ l') (l ++ m') :=
  alike_append (alike_refl hl) h

theorem alike_separated {separator : List Token} (hsep : tokenValues separator = [])
    {ps qs : List (List Token)} (h : List.Forall₂ (List.Forall₂ (Token.Alike R)) ps qs) :
    List.Forall₂ (Token.Alike R) (separated separator ps) (separated separator qs) := by
  induction h with
  | nil => exact .nil
  | cons hp hps ih =>
    cases hps with
    | nil => rwa [separated_singleton, separated_singleton]
    | cons hq hqs =>
      rw [separated_cons_cons, separated_cons_cons]
      exact alike_append hp (alike_append_left hsep ih)

theorem alike_inParens (h : List.Forall₂ (Token.Alike R) l m) :
    List.Forall₂ (Token.Alike R) (inParens l) (inParens m) :=
  alike_append_left (l := [.leftParen]) rfl (alike_append h (alike_refl rfl))

/-- The values of a list, with a separator between them. -/
theorem alike_listed_values {vs ws : List Datum} (h : List.Forall₂ R vs ws) :
    List.Forall₂ (Token.Alike R) (listed (vs.map fun v => [.value v]))
      (listed (ws.map fun v => [.value v])) :=
  alike_separated rfl (List.rel_map (fun _ _ hv => .cons (.value hv) .nil) h)

/-! ## Conditions -/

section Condition

variable {p q : Predicate}

theorem Predicate.Alike.kind_eq (h : p.Alike R q) : p.kind = q.kind := by
  cases h with
  | like negated ignoreCase => cases ignoreCase <;> rfl
  | _ => rfl

theorem Predicate.Alike.operands (h : p.Alike R q) :
    List.Forall₂ (Token.Alike R) p.operands q.operands := by
  cases h with
  | compare c hv => exact alike_append_left (l := [.space]) rfl (.cons (.value hv) .nil)
  | between negated hlow hhigh =>
    exact alike_append_left (l := [.space]) rfl (.cons (.value hlow)
      (alike_append_left (l := [.space, .word .betweenAnd, .space]) rfl
        (.cons (.value hhigh) .nil)))
  | inList negated hl =>
    exact alike_append_left (l := [.space]) rfl (alike_inParens (alike_listed_values hl))
  | like negated ignoreCase hv =>
    exact alike_append_left (l := [.space]) rfl (.cons (.value hv) .nil)
  | isNull negated => exact .nil

theorem checkLeaf_alike (d : Dialect) (column : Column) (h : p.Alike R q) :
    Condition.checkLeaf d column p = Condition.checkLeaf d column q := by
  unfold Condition.checkLeaf
  rw [h.kind_eq]
  cases h with
  | inList negated hl => cases hl <;> rfl
  | _ => rfl

mutual

theorem tokens_alike : ∀ (c : Condition) {c' : Condition}, c.Alike R c' →
    List.Forall₂ (Token.Alike R) c.tokens c'.tokens
  | .leaf column p, _, .leaf _ h => by
    rw [Condition.tokens, Condition.tokens, h.kind_eq]
    exact alike_append_left (tokenValues_reference column)
      (alike_append_left (l := [.space, .operator _]) rfl h.operands)
  | .group c l, _, .group _ h => by
    rw [Condition.tokens, Condition.tokens]
    exact alike_inParens (alike_separated rfl (tokensAll_alike l h))

theorem tokensAll_alike : ∀ (l : List Condition) {l' : List Condition},
    List.Forall₂ (Condition.Alike R) l l' →
      List.Forall₂ (List.Forall₂ (Token.Alike R)) (Condition.tokensAll l) (Condition.tokensAll l')
  | [], _, .nil => .nil
  | c :: l, _, .cons h hl => .cons (tokens_alike c h) (tokensAll_alike l hl)

end

theorem isEmpty_alike {α β : Type} {S : α → β → Prop} {l : List α} {m : List β}
    (h : List.Forall₂ S l m) : l.isEmpty = m.isEmpty := by
  cases h <;> rfl

mutual

theorem check_alike (d : Dialect) : ∀ (c : Condition) {c' : Condition}, c.Alike R c' →
    c.check d = c'.check d
  | .leaf column _, _, .leaf _ h => checkLeaf_alike d column h
  | .group c l, _, .group _ h => by
    rw [Condition.check, Condition.check, checkAll_alike d l h, isEmpty_alike h]

theorem checkAll_alike (d : Dialect) : ∀ (l : List Condition) {l' : List Condition},
    List.Forall₂ (Condition.Alike R) l l' → Condition.checkAll d l = Condition.checkAll d l'
  | [], _, .nil => rfl
  | c :: l, _, .cons h hl => by
    rw [Condition.checkAll, Condition.checkAll, check_alike d c h, checkAll_alike d l hl]

end

theorem clause_alike {l l' : List Condition} (h : List.Forall₂ (Condition.Alike R) l l') :
    List.Forall₂ (List.Forall₂ (Token.Alike R)) (Condition.clause l) (Condition.clause l') := by
  cases h with
  | nil => exact .nil
  | cons hc hl =>
    refine .cons (alike_append_left (l := [.word .whereTrue, .space]) rfl ?_) .nil
    exact alike_separated rfl (tokensAll_alike _ (.cons hc hl))

end Condition

/-! ## Other clauses -/

/-- Clauses without values. -/
theorem clauses_alike_refl {l : List (List Token)} (h : ∀ p ∈ l, tokenValues p = []) :
    List.Forall₂ (List.Forall₂ (Token.Alike R)) l l :=
  List.forall₂_same.mpr fun p hp => alike_refl (h p hp)

theorem Join.Alike.tokens {j j' : Join} (h : j.Alike R j') :
    List.Forall₂ (Token.Alike R) j.tokens j'.tokens := by
  obtain ⟨kind, left, right, condition⟩ := j
  obtain ⟨kind', left', right', condition'⟩ := j'
  obtain ⟨rfl, rfl, rfl, hcondition⟩ := h
  have hcondition : List.Forall₂ (List.Forall₂ (Token.Alike R))
      (condition.map Condition.tokens).toList (condition'.map Condition.tokens).toList := by
    cases hcondition with
    | some hc => exact .cons (tokens_alike _ hc) .nil
    | none => exact .nil
  refine alike_append_left (by simp [tokenValues_cons]) (alike_separated rfl ?_)
  exact .cons (alike_refl (by simp [tokenValues_equated])) hcondition

/-- An assignment writes its one value, or a word if it has none. -/
theorem Assignment.tokens_cases (a : Assignment) :
    (a.values = [] ∧ a.tokens = equated a.column.bare [.word .null]) ∨
      ∃ v, a.values = [v] ∧ a.tokens = equated a.column.bare [.value v] := by
  obtain ⟨column, _ | v, named⟩ := a
  · exact Or.inl ⟨rfl, rfl⟩
  · cases v with
    | null => exact Or.inl ⟨rfl, rfl⟩
    | _ => exact Or.inr ⟨_, rfl, rfl⟩

theorem Assignment.Alike.tokens {a b : Assignment} (h : a.Alike R b) :
    List.Forall₂ (Token.Alike R) a.tokens b.tokens := by
  have hvalues := h.values
  have hcolumn : tokenValues (b.column.bare ++
      [.space, .operator (.comparison .equal), .space]) = [] := by
    simp [tokenValues_cons]
  rcases a.tokens_cases with ⟨ha, htokens⟩ | ⟨v, ha, htokens⟩ <;>
    rcases b.tokens_cases with ⟨hb, htokens'⟩ | ⟨w, hb, htokens'⟩ <;>
    rw [ha, hb] at hvalues <;> rw [htokens, htokens', h.column]
  · exact alike_append_left hcolumn (alike_refl rfl)
  · cases hvalues
  · cases hvalues
  · cases hvalues with
    | cons hv _ => exact alike_append_left hcolumn (.cons (.value hv) .nil)

/-! ## Expressions -/

/-- Two builds fail with one error, or write tokens that are alike. -/
inductive BuiltAlike (R : Datum → Datum → Prop) (d : Dialect) :
    Except SqlError Statement → Except SqlError Statement → Prop where
  | error (e : SqlError) : BuiltAlike R d (.error e) (.error e)
  | ok {l m : List Token} (h : List.Forall₂ (Token.Alike R) l m) :
      BuiltAlike R d (.ok (.ofTokens d l)) (.ok (.ofTokens d m))

/-- What comes before the tokens gives the same in both builds. -/
theorem BuiltAlike.bind {α : Type} {d : Dialect} (x : Except SqlError α)
    {f g : α → Except SqlError Statement} (h : ∀ a, BuiltAlike R d (f a) (g a)) :
    BuiltAlike R d (x >>= f) (x >>= g) := by
  cases x with
  | error e => exact .error e
  | ok a => exact h a

theorem Select.Alike.tokens {s s' : Select} (h : s.Alike R s') (t : Table) :
    List.Forall₂ (Token.Alike R) (s.tokens t) (s'.tokens t) := by
  have hheading : s.heading = s'.heading := by
    rw [Select.heading, Select.heading, h.distinct, h.columns]
  have htable : tokenValues (.word .fromTable :: .space :: t.declaration) = [] := by
    simp [tokenValues_cons]
  have hjoins : List.Forall₂ (List.Forall₂ (Token.Alike R)) (s.joins.map Join.tokens)
      (s'.joins.map Join.tokens) := List.rel_map (fun _ _ hj => hj.tokens) h.joins
  have horder : ∀ p ∈ OrderKey.clause s'.orderBy, tokenValues p = [] :=
    List.flatMap_eq_nil_iff.mp (flatMap_orderBy s'.orderBy)
  rw [s.tokens_eq_clauses, s'.tokens_eq_clauses, hheading, h.orderBy, h.limit, h.offset]
  refine alike_append (alike_separated rfl ?_) (alike_refl rfl)
  exact .cons (alike_refl (tokenValues_heading s')) (.cons (alike_refl htable)
    (List.rel_append hjoins
      (List.rel_append (clause_alike h.conditions) (clauses_alike_refl horder))))

theorem Select.Alike.build (d : Dialect) {s s' : Select} (h : s.Alike R s') :
    BuiltAlike R d (s.build d) (s'.build d) := by
  have hjoins : List.Forall₂ (Condition.Alike R) (s.joins.filterMap (·.condition))
      (s'.joins.filterMap (·.condition)) :=
    List.rel_filterMap (fun _ _ hj => hj.condition) h.joins
  rw [Select.build_eq, Select.build_eq, checkAll_alike d _ hjoins,
    checkAll_alike d _ h.conditions, h.table]
  cases s'.table with
  | none => exact .error _
  | some t => exact .bind _ fun _ => .bind _ fun _ => .ok (h.tokens t)

theorem checkWidths_alike (width row : Nat) {l m : List (List Datum)}
    (h : List.Forall₂ (List.Forall₂ R) l m) :
    Insert.checkWidths width row l = Insert.checkWidths width row m := by
  induction h generalizing row with
  | nil => rfl
  | cons hrow _ ih => rw [Insert.checkWidths, Insert.checkWidths, hrow.length_eq, ih]

theorem Insert.Alike.tokens {s s' : Insert} (h : s.Alike R s') (t : Table) :
    List.Forall₂ (Token.Alike R) (s.tokens t) (s'.tokens t) := by
  have hcolumns : (s'.columns.map Column.bare).flatMap tokenValues = [] := by
    simp [List.flatMap_map]
  have hrows := List.rel_map (fun _ _ hrow => alike_inParens (alike_listed_values hrow)) h.rows
  rw [Insert.tokens, Insert.tokens, h.columns]
  refine alike_separated rfl (.cons (alike_refl ?_) (.cons ?_ .nil))
  · simp [tokenValues_cons, hcolumns]
  · exact alike_append_left (l := [.word .values, .space]) rfl (alike_separated rfl hrows)

theorem Insert.Alike.build (d : Dialect) {s s' : Insert} (h : s.Alike R s') :
    BuiltAlike R d (s.build d) (s'.build d) := by
  have htarget : s.target = s'.target := by rw [target, target, h.columns]
  rw [Insert.build_eq, Insert.build_eq, htarget, h.columns, isEmpty_alike h.rows]
  refine .bind _ fun t => ?_
  split
  · exact .error _
  · rw [checkWidths_alike _ _ h.rows]
    exact .bind _ fun _ => .ok (h.tokens t)

theorem Update.Alike.tokens {s s' : Update} (h : s.Alike R s') (t : Table) :
    List.Forall₂ (Token.Alike R) (s.tokens t) (s'.tokens t) := by
  have hassignments := List.rel_map (fun _ _ ha => Assignment.Alike.tokens ha) h.assignments
  refine alike_separated rfl (.cons (alike_refl (by simp [tokenValues_cons])) ?_)
  refine .cons ?_ (clause_alike h.conditions)
  exact alike_append_left (l := [.word .setTo, .space]) rfl (alike_separated rfl hassignments)

theorem assignedTables_alike {l m : List Assignment} (h : List.Forall₂ (Assignment.Alike R) l m) :
    l.filterMap (·.column.table) = m.filterMap (·.column.table) := by
  induction h with
  | nil => rfl
  | cons ha _ ih => rw [List.filterMap_cons, List.filterMap_cons, ha.column, ih]

/-- The table of an update is found by its columns. -/
theorem Update.Alike.target {s s' : Update} (h : s.Alike R s') : s.target = s'.target := by
  rw [Update.target, Update.target, assignedTables_alike h.assignments,
    isEmpty_alike h.assignments]

theorem Update.Alike.build (d : Dialect) {s s' : Update} (h : s.Alike R s') :
    BuiltAlike R d (s.build d) (s'.build d) := by
  rw [Update.build_eq, Update.build_eq, h.target, checkAll_alike d _ h.conditions]
  exact .bind _ fun t => .bind _ fun _ => .ok (h.tokens t)

theorem Delete.Alike.build (d : Dialect) {s s' : Delete} (h : s.Alike R s') :
    BuiltAlike R d (s.build d) (s'.build d) := by
  have htokens : List.Forall₂ (Token.Alike R) s.tokens s'.tokens := by
    rw [Delete.tokens, Delete.tokens, h.table]
    refine alike_separated rfl (.cons (alike_refl (by simp [tokenValues_cons])) ?_)
    exact clause_alike h.conditions
  rw [Delete.build_eq, Delete.build_eq, checkAll_alike d _ h.conditions]
  exact .bind _ fun _ => .ok htokens

theorem Expression.Alike.build (d : Dialect) {x y : Expression} (h : x.Alike R y) :
    BuiltAlike R d (x.build d) (y.build d) := by
  cases h with
  | select h => exact h.build d
  | insert h => exact h.build d
  | update h => exact h.build d
  | delete h => exact h.build d

/-- The values of a statement are those of the expression. -/
theorem Expression.values_of_build {x : Expression} {d : Dialect} {statement : Statement}
    (h : x.build d = .ok statement) : statement.values = x.values := by
  obtain ⟨l, paging, rfl, -, -, hvalues⟩ :=
    exists_tokens_of_build h (P := fun _ => True) fun _ _ => trivial
  rw [Statement.values_ofTokens, hvalues]

/-- Expressions that are alike fail with one error, or have one text and one list of names of
parameters, whose values are those of the expressions and are related at each place. -/
theorem alike_build (d : Dialect) {x y : Expression} (h : x.Alike R y) :
    (∃ e, x.build d = .error e ∧ y.build d = .error e) ∨
      ∃ s t, x.build d = .ok s ∧ y.build d = .ok t ∧ s.text = t.text ∧
        s.parameters.map (·.name) = t.parameters.map (·.name) ∧
        s.values = x.values ∧ t.values = y.values ∧ List.Forall₂ R s.values t.values := by
  generalize hx : x.build d = built, hy : y.build d = built'
  have hbuilt := h.build d
  rw [hx, hy] at hbuilt
  cases hbuilt with
  | error e => exact Or.inl ⟨e, rfl, rfl⟩
  | ok htokens =>
    have hvalues := tokenValues_alike htokens
    refine Or.inr ⟨_, _, rfl, rfl, ?_, ?_, Expression.values_of_build hx,
      Expression.values_of_build hy, ?_⟩
    · exact congrArg String.ofList (spellAll_alike d 0 htokens)
    · rw [Statement.parameters_ofTokens, Statement.parameters_ofTokens, hvalues.length_eq]
    · rwa [Statement.values_ofTokens, Statement.values_ofTokens]

/-- The query of `someOrders` with other values, some of which look like what a query is written
with. -/
def otherOrders : Select where
  table := some orders
  joins := [⟨.inner, orderUser, userId, some (.compare .greater userId.column (.text "@p0"))⟩]
  conditions :=
    [.group .or
      [.leaf orderTotal (.between false (.integer 5) .null),
       .leaf orderUser.column (.like false false "'; DELETE FROM Users; --"),
       .leaf orderTotal (.isNull false)],
     .inList orderTotal [.boolean true, .text ") OR (1 = 1"]]
  limit := some 3

theorem someOrders_alike (R : Datum → Datum → Prop) (h0 : R (.integer 7) (.text "@p0"))
    (h1 : R (.integer 5) (.integer 5)) (h2 : R (.integer 9) .null)
    (h3 : R (.text "a%") (.text "'; DELETE FROM Users; --")) (h4 : R (.integer 1) (.boolean true))
    (h5 : R .null (.text ") OR (1 = 1")) : someOrders.Alike R otherOrders where
  table := rfl
  columns := rfl
  distinct := rfl
  joins := .cons ⟨rfl, rfl, rfl, .some (.leaf _ (.compare _ h0))⟩ .nil
  conditions :=
    .cons (.group _ (.cons (.leaf _ (.between _ h1 h2)) (.cons (.leaf _ (.like _ _ h3))
      (.cons (.leaf _ (.isNull _)) .nil))))
    (.cons (.leaf _ (.inList _ (.cons h4 (.cons h5 .nil)))) .nil)
  orderBy := rfl
  limit := rfl
  offset := rfl

theorem someOrders_text :
    ∃ s t, (Expression.select someOrders).build .sqlServer = .ok s ∧
      (Expression.select otherOrders).build .sqlServer = .ok t ∧ s.text = t.text ∧
      List.Forall₂ (fun v w => (v, w) ∈ someOrders.values.zip otherOrders.values)
        s.values t.values := by
  have halike : (Expression.select someOrders).Alike
      (fun v w => (v, w) ∈ someOrders.values.zip otherOrders.values) (.select otherOrders) :=
    .select (someOrders_alike _ (by decide) (by decide) (by decide) (by decide) (by decide)
      (by decide))
  rcases alike_build .sqlServer halike with ⟨e, h, -⟩ | ⟨s, t, hs, ht, htext, -, -, -, hvalues⟩
  · cases h
  · exact ⟨s, t, hs, ht, htext, hvalues⟩

end EventStore.Sql
