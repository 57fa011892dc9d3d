import EventStore.Proofs.WellFormed

/-!
# What is written where a dialect has no spelling

A dialect may have no spelling for an operator or a kind of join. A condition with such an operator
is refused. A join of such a kind is not: it is written with the plain word `JOIN`, which most
databases take for an inner join. Nor is the equality of a join or an assignment refused, which is
then written `=`.

Proved here:

* `joinText_prefix`, `assignmentText_prefix`: how a join and an assignment begin;
* `build_completed`: a statement is the one of the dialect with all of its gaps filled;
* `missing_spellings`: where a dialect has no spelling only the operators of conditions are missed;
* `sparse_substitutes`: in a dialect without left joins, a left join is written as an inner one.
-/

namespace EventStore.Sql

/-! ## Phrases one by one -/

section Phrases

variable (d : Dialect) (n : Nat)

theorem separated_cons (separator l : List Token) (ls : List (List Token)) :
    separated separator (l :: ls) = l ++ ls.flatMap (separator ++ ·) := by
  induction ls generalizing l with
  | nil => rw [separated_singleton, List.flatMap_nil, List.append_nil]
  | cons l' ls ih => rw [separated_cons_cons, ih, List.flatMap_cons, List.append_assoc]

/-- Each token of a phrase has its own place, whatever it is. -/
theorem exists_separated_append_cons (separator : List Token) (ls : List (List Token))
    (p : List Token) (ms : List (List Token)) :
    ∃ l m, ∀ t, separated separator (ls ++ (t :: p) :: ms) = l ++ t :: m := by
  cases ls with
  | nil =>
    exact ⟨[], p ++ ms.flatMap (separator ++ ·), fun t => by
      rw [List.nil_append, separated_cons, List.cons_append, List.nil_append]⟩
  | cons q ls =>
    refine ⟨q ++ ls.flatMap (separator ++ ·) ++ separator, p ++ ms.flatMap (separator ++ ·),
      fun t => ?_⟩
    rw [List.cons_append, separated_cons, List.flatMap_append, List.flatMap_cons]
    simp

/-- What holds of every text of a phrase holds of the texts of phrases. -/
theorem forall₂_spellEach {α : Type} {f : α → List Token} {P : α → List Char → Prop}
    (h : ∀ a m, P a (d.spellAll m (f a))) (l : List α) :
    List.Forall₂ P l (d.spellEach n (l.map f)) := by
  induction l generalizing n with
  | nil => exact .nil
  | cons a l ih => exact .cons (h a n) (ih _)

end Phrases

/-! ## Gaps -/

namespace Dialect

/-- The dialect with a spelling for everything. -/
def completed (d : Dialect) : Dialect :=
  { d with
    operator := fun k => some ((d.operator k).getD k.usual)
    join := fun k => some (d.joinWord k) }

/-- A join up to its condition. -/
def joinText (d : Dialect) (j : Join) : List Char :=
  (d.joinWord j.kind).toList ++ ' ' :: d.spellAll 0 j.right.table.declaration
    ++ ' ' :: (d.word .onEqual).toList ++ ' ' :: d.spellAll 0 j.left.column.reference
    ++ ' ' :: d.equalSign.toList ++ ' ' :: d.spellAll 0 j.right.column.reference

/-- An assignment up to its value. -/
def assignmentText (d : Dialect) (a : Assignment) : List Char :=
  d.spellAll 0 a.column.bare ++ ' ' :: d.equalSign.toList ++ [' ']

end Dialect

variable {d : Dialect} {n : Nat}

theorem joinText_prefix (j : Join) : d.joinText j <+: d.spellAll n j.tokens := by
  let m :=
    (j.condition.map Condition.tokens).toList.flatMap ([.space, .connective .and, .space] ++ ·)
  have htokens : j.tokens = .join j.kind :: .space :: (j.right.table.declaration
      ++ .space :: .word .onEqual :: .space ::
        (equated j.left.column.reference j.right.column.reference ++ m)) := by
    rw [Join.tokens, connected, separated_cons]
    simp [m]
  have hequated : tokenValues (equated j.left.column.reference j.right.column.reference) = [] := by
    rw [tokenValues_equated, tokenValues_reference, tokenValues_reference]
    rfl
  refine ⟨d.spellAll n m, ?_⟩
  simp only [htokens, Dialect.spellAll, spellAll_append_of_no_values d n hequated,
    spellAll_append_of_no_values d n (tokenValues_declaration _),
    spellAll_equated (tokenValues_reference _)]
  simp [Dialect.joinText, Dialect.spell, Dialect.joinWord]

theorem assignmentText_prefix (a : Assignment) : d.assignmentText a <+: d.spellAll n a.tokens := by
  rw [Assignment.tokens, spellAll_equated (tokenValues_bare _), Dialect.assignmentText]
  exact (List.prefix_append_right_inj _).mpr ⟨_, rfl⟩

/-! ## Statements -/

/-- The text of a query of a table, clause by clause. -/
def Dialect.queryText (d : Dialect) (s : Select) (t : Table) : List Char :=
  (d.word .clauseSeparator).toList.intercalate
      (d.spellAll 0 s.heading :: d.spellAll 0 (.word .fromTable :: .space :: t.declaration)
        :: d.spellEach 0 (s.joins.map Join.tokens)
        ++ d.spellEach (s.joins.flatMap Join.values).length
          (Condition.clause s.conditions ++ OrderKey.clause s.orderBy))
    ++ d.spell 0 (.paging s.limit s.offset)

/-- The text of an update of a table, clause by clause and its assignments one by one. -/
def Dialect.updateText (d : Dialect) (s : Update) (t : Table) : List Char :=
  (d.word .clauseSeparator).toList.intercalate
    (d.spellAll 0 ([.word .update, .space] ++ t.qualified)
      :: ((d.word .setTo).toList ++ ' ' :: (d.word .listSeparator).toList.intercalate
        (d.spellEach 0 (s.assignments.map Assignment.tokens)))
      :: d.spellEach (s.assignments.flatMap Assignment.values).length
        (Condition.clause s.conditions))

theorem text_of_select {s : Select} {statement : Statement} (h : s.build d = .ok statement) :
    ∃ t, s.table = some t ∧ statement.text = String.ofList (d.queryText s t) := by
  obtain ⟨t, htable, rfl⟩ := s.eq_of_build h
  refine ⟨t, htable, ?_⟩
  have htable : tokenValues (.word .fromTable :: .space :: t.declaration) = [] := by
    simp [tokenValues_cons]
  have hpaging : ∀ m, d.spellAll m [.paging s.limit s.offset] =
      d.spell 0 (.paging s.limit s.offset) := fun m => List.append_nil _
  rw [Statement.ofTokens, s.tokens_eq_clauses t, spellAll_append, hpaging, spellAll_clauses,
    Dialect.spellEach, Dialect.spellEach, spellEach_append, tokenValues_heading, htable,
    flatMap_joins]
  simp [Dialect.queryText]

theorem text_of_update {s : Update} {statement : Statement} (h : s.build d = .ok statement) :
    ∃ t, s.target = .ok t ∧ statement.text = String.ofList (d.updateText s t) := by
  obtain ⟨t, htarget, rfl⟩ := s.eq_of_build h
  refine ⟨t, htarget, ?_⟩
  have htable : tokenValues ([.word .update, .space] ++ t.qualified) = [] := by
    simp [tokenValues_cons]
  have hset : tokenValues (.word .setTo :: .space :: listed (s.assignments.map Assignment.tokens)) =
      s.assignments.flatMap Assignment.values := by
    simp [tokenValues_cons, List.flatMap_map, tokenValues_assignment]
  have htokens : s.tokens t = clauses (([.word .update, .space] ++ t.qualified)
      :: (.word .setTo :: .space :: listed (s.assignments.map Assignment.tokens))
      :: Condition.clause s.conditions) := rfl
  rw [Statement.ofTokens, htokens, spellAll_clauses, Dialect.spellEach, Dialect.spellEach, htable,
    hset]
  simp [Dialect.updateText, Dialect.spellAll, Dialect.spell, spellAll_listed]

/-! ## Gaps filled -/

@[simp] theorem spell_completed (t : Token) : d.completed.spell n t = d.spell n t := by
  cases t <;> rfl

theorem spellAll_completed (l : List Token) : d.completed.spellAll n l = d.spellAll n l := by
  induction l generalizing n with
  | nil => rfl
  | cons t l ih =>
    rcases t.value_or_ne with ⟨v, rfl⟩ | ht
    · rw [Dialect.spellAll, Dialect.spellAll, ih, spell_completed]
    · rw [spellAll_cons _ n ht, spellAll_cons _ n ht, ih, spell_completed]

theorem ofTokens_completed (l : List Token) :
    Statement.ofTokens d.completed l = .ofTokens d l := by
  rw [Statement.ofTokens, Statement.ofTokens, spellAll_completed]
  rfl

/-- Only the operators of conditions are missed where a dialect has no spelling. -/
theorem Condition.sound_iff_completed {c : Condition} :
    c.Sound d ↔
      c.Sound d.completed ∧ ∀ column p, c = .leaf column p → d.operator p.kind ≠ none := by
  cases c with
  | group c l => simp [Sound]
  | leaf column p =>
    constructor
    · rintro ⟨hname, hoperator, hlist⟩
      exact ⟨⟨hname, Option.some_ne_none _, hlist⟩, by rintro _ _ ⟨⟩; exact hoperator⟩
    · rintro ⟨⟨hname, -, hlist⟩, hoperator⟩
      exact ⟨hname, hoperator _ _ rfl, hlist⟩

namespace Expression

variable {x : Expression} {statement : Statement}

theorem exists_build_iff_completed :
    (∃ statement, x.build d = .ok statement) ↔
      (∃ statement, x.build d.completed = .ok statement) ∧
        ∀ column p, .leaf column p ∈ Condition.nodesAll x.trees → d.operator p.kind ≠ none := by
  -- Neither the shape nor the other demands on nodes depend on spellings.
  simp only [exists_build_iff, Condition.Writable, ← Condition.forall_mem_nodesAll]
  constructor
  · rintro ⟨hshaped, h⟩
    exact ⟨⟨hshaped, fun n hn => (Condition.sound_iff_completed.mp (h n hn)).1⟩,
      fun column p hn => (Condition.sound_iff_completed.mp (h _ hn)).2 _ _ rfl⟩
  · rintro ⟨⟨hshaped, h⟩, hoperators⟩
    refine ⟨hshaped, fun n hn => Condition.sound_iff_completed.mpr ⟨h n hn, ?_⟩⟩
    rintro column p rfl
    exact hoperators column p hn

theorem build_completed (h : x.build d = .ok statement) : x.build d.completed = .ok statement := by
  obtain ⟨⟨statement', h'⟩, -⟩ := exists_build_iff_completed.mp ⟨statement, h⟩
  rw [h', eq_ofTokens_of_build h, eq_ofTokens_of_build h', ofTokens_completed]

end Expression

/-! ## The kind of a join -/

/-- A query with a join of the given kind between others. -/
def Select.withJoin (s : Select) (before : List Join) (j : Join) (k : JoinKind)
    (after : List Join) : Select :=
  { s with joins := before ++ { j with kind := k } :: after }

variable {s : Select} {before after : List Join} {j : Join} {k : JoinKind}

theorem trees_withJoin (k k' : JoinKind) :
    (Expression.select (s.withJoin before j k after)).trees =
      (Expression.select (s.withJoin before j k' after)).trees := by
  simp [Expression.trees, Select.withJoin, List.filterMap_cons]

/-- The kind of a join is said by one token. -/
theorem exists_tokens_withJoin (s : Select) (before : List Join) (j : Join) (after : List Join)
    (t : Table) : ∃ l m, ∀ k, (s.withJoin before j k after).tokens t = l ++ .join k :: m := by
  obtain ⟨l, m, h⟩ := exists_separated_append_cons [.word .clauseSeparator]
    (s.heading :: (.word .fromTable :: .space :: t.declaration) :: before.map Join.tokens)
    j.tokens.tail
    (after.map Join.tokens ++ (Condition.clause s.conditions ++ OrderKey.clause s.orderBy))
  refine ⟨l, m ++ [.paging s.limit s.offset], fun k => ?_⟩
  have hjoin : ({ j with kind := k } : Join).tokens = .join k :: j.tokens.tail := rfl
  rw [← List.cons_append, ← List.append_assoc, ← h (.join k), Select.tokens_eq_clauses,
    Select.withJoin]
  simp [clauses, Select.heading, hjoin]

theorem spellAll_around_join (l m : List Token) (k : JoinKind) :
    d.spellAll n (l ++ .join k :: m) =
      d.spellAll n l ++ ((d.joinWord k).toList ++ d.spellAll (n + (tokenValues l).length) m) := by
  rw [spellAll_append, spellAll_cons d (t := .join k) _ nofun]
  rfl

/-- A query with a join of one kind can be written if it can with another kind. -/
theorem exists_build_withJoin (k' : JoinKind) {statement : Statement}
    (h : (s.withJoin before j k after).build d = .ok statement) :
    ∃ statement', (s.withJoin before j k' after).build d = .ok statement' := by
  have hbuilt : ∃ y, (Expression.select (s.withJoin before j k after)).build d = .ok y :=
    ⟨statement, h⟩
  obtain ⟨hshaped, hwritable⟩ := Expression.exists_build_iff.mp hbuilt
  rw [trees_withJoin k k'] at hwritable
  exact Expression.exists_build_iff.mpr
    (⟨hshaped, hwritable⟩ : (Expression.select (s.withJoin before j k' after)).Shaped ∧ _)

/-- Queries that differ in the kind of one join have the same text exactly if both kinds are written
alike. -/
theorem text_withJoin_eq_iff {k' : JoinKind} {statement statement' : Statement}
    (h : (s.withJoin before j k after).build d = .ok statement)
    (h' : (s.withJoin before j k' after).build d = .ok statement') :
    statement.text = statement'.text ↔ d.joinWord k = d.joinWord k' := by
  obtain ⟨t, htable, rfl⟩ := Select.eq_of_build h
  obtain ⟨t', htable', rfl⟩ := Select.eq_of_build h'
  obtain rfl : t = t' := Option.some.inj (htable.symm.trans htable')
  -- Both texts are the same around the words for the kinds, so these can be cut out.
  obtain ⟨l, m, htokens⟩ := exists_tokens_withJoin s before j after t
  rw [htokens, htokens, Statement.ofTokens, Statement.ofTokens, String.ofList_inj,
    spellAll_around_join, spellAll_around_join, List.append_cancel_left_eq,
    List.append_cancel_right_eq, String.toList_inj]

/-! ## Missing spellings -/

/-- In every dialect: the clauses of a query are written one after the other, and each join begins
with the word for its kind and equates its columns; the assignments of an update are written
likewise. These words are there whether the dialect has them or not. So what a dialect can write is
what it could write with all gaps filled, except for conditions whose operator it cannot spell, and
it is written in the same way. Of queries that differ in the kind of one join all can be written or
none, and two of them have the same text exactly if the words for their kinds are the same. -/
theorem missing_spellings (d : Dialect) :
    (∀ (s : Select) statement, s.build d = .ok statement →
      (∃ t, s.table = some t ∧ statement.text = String.ofList (d.queryText s t)) ∧
        List.Forall₂ (fun j text => d.joinText j <+: text) s.joins
          (d.spellEach 0 (s.joins.map Join.tokens))) ∧
    (∀ (s : Update) statement, s.build d = .ok statement →
      (∃ t, s.target = .ok t ∧ statement.text = String.ofList (d.updateText s t)) ∧
        List.Forall₂ (fun a text => d.assignmentText a <+: text) s.assignments
          (d.spellEach 0 (s.assignments.map Assignment.tokens))) ∧
    (∀ x : Expression,
      ((∃ statement, x.build d = .ok statement) ↔
        (∃ statement, x.build d.completed = .ok statement) ∧
          ∀ column p, .leaf column p ∈ Condition.nodesAll x.trees → d.operator p.kind ≠ none) ∧
      ∀ statement, x.build d = .ok statement → x.build d.completed = .ok statement) ∧
    ∀ (s : Select) before (j : Join) k after statement,
      (s.withJoin before j k after).build d = .ok statement →
      ∀ k', ∃ statement', (s.withJoin before j k' after).build d = .ok statement' ∧
        (statement.text = statement'.text ↔ d.joinWord k = d.joinWord k') := by
  refine ⟨fun s statement h => ⟨text_of_select h, ?_⟩, fun s statement h => ⟨text_of_update h, ?_⟩,
    fun x => ?_, fun s before j k after statement h k' => ?_⟩
  · exact forall₂_spellEach d 0 (fun j _ => joinText_prefix j) s.joins
  · exact forall₂_spellEach d 0 (fun a _ => assignmentText_prefix a) s.assignments
  · exact ⟨Expression.exists_build_iff_completed, fun _ => Expression.build_completed⟩
  · obtain ⟨statement', h'⟩ := exists_build_withJoin k' h
    exact ⟨statement', h', text_withJoin_eq_iff h h'⟩

/-- A dialect that has no sign for equality and knows inner joins alone. -/
def sparse : Dialect where
  name := "sparse"
  operator k := if k = .comparison .equal then none else some k.usual
  join
    | .inner => some "JOIN"
    | _ => none

/-- Orders with the users who placed them. -/
def ordersWithUsers (k : JoinKind) : Select :=
  ({ table := some orders } : Select).withJoin [] ⟨k, orderUser, userId, none⟩ k []

def userUpdate : Update where
  assignments := [⟨orderUser.column, some (.integer 2), rfl⟩]

theorem sparse_joins_alike :
    (∃ statement statement', (ordersWithUsers .left).build sparse = .ok statement ∧
      (ordersWithUsers .inner).build sparse = .ok statement' ∧ statement.text = statement'.text ∧
      (ordersWithUsers .left).build sparse.completed = .ok statement) ∧
    ∃ text, sparse.spellEach 0 (userUpdate.assignments.map Assignment.tokens) = [text] ∧
      sparse.assignmentText ⟨orderUser.column, some (.integer 2), rfl⟩ <+: text := by
  have hleft : (ordersWithUsers .left).build sparse =
      .ok (.ofTokens sparse ((ordersWithUsers .left).tokens orders)) :=
    (ordersWithUsers .left).build_eq sparse
  have hupdate : userUpdate.build sparse =
      .ok (.ofTokens sparse (userUpdate.tokens orders)) := userUpdate.build_eq sparse
  obtain ⟨-, hassignments, hcompleted, hkinds⟩ := missing_spellings sparse
  obtain ⟨statement', hinner, htext⟩ := hkinds _ _ _ _ _ _ hleft .inner
  obtain ⟨-, hprefixes⟩ := hassignments _ _ hupdate
  refine ⟨⟨_, statement', hleft, hinner, htext.mpr rfl, ?_⟩, _, rfl, ?_⟩
  · exact (hcompleted (.select (ordersWithUsers .left))).2 _ hleft
  · cases hprefixes with
    | cons h _ => exact h

/-- A left join that the dialect does not know is written as an inner join, and an assignment with a
sign for equality that the dialect does not have. -/
theorem sparse_substitutes :
    sparse.join .left = none ∧ sparse.operator (.comparison .equal) = none ∧
    (∃ statement, (ordersWithUsers .left).build sparse = .ok statement ∧
      (ordersWithUsers .inner).build sparse = .ok statement ∧
      statement.text = "SELECT *\nFROM Orders o\nJOIN Users ON o.User = Users.Id") ∧
    ∃ statement, userUpdate.build sparse = .ok statement ∧
      statement.text = "UPDATE Orders\nSET User = @p0" := by
  have hinner : Statement.ofTokens sparse ((ordersWithUsers .inner).tokens orders) =
      .ofTokens sparse ((ordersWithUsers .left).tokens orders) := by decide +kernel
  have hbuild : (ordersWithUsers .inner).build sparse =
      .ok (.ofTokens sparse ((ordersWithUsers .inner).tokens orders)) :=
    (ordersWithUsers .inner).build_eq sparse
  refine ⟨rfl, rfl, ⟨_, (ordersWithUsers .left).build_eq sparse, hinner ▸ hbuild, ?_⟩,
    _, userUpdate.build_eq sparse, ?_⟩ <;> decide +kernel

end EventStore.Sql
