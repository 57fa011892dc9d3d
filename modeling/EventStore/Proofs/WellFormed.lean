import EventStore.Proofs.DialectSpelling

/-!
# Which expressions have statements

The nodes of a condition are read depth first. A node is sound if a dialect can write it, whatever
stands below it; otherwise it has a fault. An expression is shaped if nothing but its conditions can
be wrong with it. Its parts are the nodes of its conditions and what its clauses say besides.

Proved here:

* `judged_check`, `judged_checkAll`: conditions are accepted if all of their nodes are sound, and
  refused with the fault of the first node that is not;
* `build_of_shaped`, `shaped_of_build`: an expression has a statement if it is shaped and its
  conditions are accepted;
* `renders_condition`, `renders_of_build`: what is written of an expression holds each of its parts
  once and in order, and no operator, value or parenthesis besides;
* `built_if_well_formed`: all of this together.
-/

namespace EventStore.Sql

/-! ## Nodes -/

namespace Condition

mutual

/-- The nodes of a condition, a group before its members. -/
def nodes : Condition → List Condition
  | .leaf column p => [.leaf column p]
  | .group c l => .group c l :: nodesAll l

def nodesAll : List Condition → List Condition
  | [] => []
  | c :: l => c.nodes ++ nodesAll l

end

/-- What a node needs itself to be written. -/
def Sound (d : Dialect) : Condition → Prop
  | .leaf column p =>
    column.name ≠ none ∧ d.operator p.kind ≠ none ∧ ∀ negated, p ≠ .inList negated []
  | .group _ l => l ≠ []

/-- A condition that a dialect can write. -/
def Writable (d : Dialect) (c : Condition) : Prop := ∀ n ∈ c.nodes, n.Sound d

/-- The error of a node that is not sound. Of several faults of a leaf the first counts. -/
inductive Fault (d : Dialect) : Condition → SqlError → Prop where
  | unnamed {column : Column} {p : Predicate} (hname : column.name = none) :
      Fault d (.leaf column p) (.unnamedPredicateColumn column.describe)
  | unspelled {column : Column} {p : Predicate} (hname : column.name ≠ none)
      (hoperator : d.operator p.kind = none) :
      Fault d (.leaf column p) (.unsupportedOperator p.kind column.describe d.name)
  | emptyList {column : Column} {negated : Bool} (hname : column.name ≠ none)
      (hoperator : d.operator (Predicate.inList negated []).kind ≠ none) :
      Fault d (.leaf column (.inList negated [])) (.emptyInList column.describe)
  | emptyGroup {c : Connective} : Fault d (.group c []) (.emptyGroup c)

/-- The error of the first node that has one. -/
inductive FirstFault (d : Dialect) : List Condition → SqlError → Prop where
  | here {n : Condition} {l : List Condition} {e : SqlError} (h : n.Fault d e) :
      FirstFault d (n :: l) e
  | later {n : Condition} {l : List Condition} {e : SqlError} (hn : n.Sound d)
      (h : FirstFault d l e) : FirstFault d (n :: l) e

/-- A judgement of nodes: they are accepted, or the first fault is reported. -/
inductive Judged (d : Dialect) (l : List Condition) : Except SqlError Unit → Prop where
  | ok (h : ∀ n ∈ l, n.Sound d) : Judged d l (.ok ())
  | error {e : SqlError} (h : FirstFault d l e) : Judged d l (.error e)

variable {d : Dialect} {n : Condition} {l m : List Condition} {e e' : SqlError}
  {x y : Except SqlError Unit}

theorem Fault.not_sound (h : n.Fault d e) : ¬n.Sound d := by
  cases h with
  | unnamed hname => exact fun hn => hn.1 hname
  | unspelled _ hoperator => exact fun hn => hn.2.1 hoperator
  | emptyList => exact fun hn => hn.2.2 _ rfl
  | emptyGroup => exact fun hn => hn rfl

theorem Fault.unique (h : n.Fault d e) (h' : n.Fault d e') : e = e' := by
  cases h with
  | unnamed hname =>
    cases h' with
    | unnamed => rfl
    | unspelled hname' | emptyList hname' => exact absurd hname hname'
  | unspelled hname hoperator =>
    cases h' with
    | unnamed hname' => exact absurd hname' hname
    | unspelled => rfl
    | emptyList _ hoperator' => exact absurd hoperator hoperator'
  | emptyList hname hoperator =>
    cases h' with
    | unnamed hname' => exact absurd hname' hname
    | unspelled _ hoperator' => exact absurd hoperator' hoperator
    | emptyList => rfl
  | emptyGroup => cases h'; rfl

theorem FirstFault.exists_not_sound (h : FirstFault d l e) : ∃ n ∈ l, ¬n.Sound d := by
  induction h with
  | here h => exact ⟨_, List.mem_cons_self, h.not_sound⟩
  | later _ _ ih =>
    obtain ⟨n, hn, hsound⟩ := ih
    exact ⟨n, List.mem_cons_of_mem _ hn, hsound⟩

theorem FirstFault.unique (h : FirstFault d l e) (h' : FirstFault d l e') : e = e' := by
  induction h with
  | here h =>
    cases h' with
    | here h' => exact h.unique h'
    | later hn => exact absurd hn h.not_sound
  | later hn _ ih =>
    cases h' with
    | here h' => exact absurd hn h'.not_sound
    | later _ h' => exact ih h'

theorem FirstFault.append (h : FirstFault d l e) : FirstFault d (l ++ m) e := by
  induction h with
  | here h => exact .here h
  | later hn _ ih => exact .later hn ih

theorem FirstFault.append_left (hl : ∀ n ∈ l, n.Sound d) (h : FirstFault d m e) :
    FirstFault d (l ++ m) e := by
  induction l with
  | nil => exact h
  | cons n l ih =>
    obtain ⟨hn, hl⟩ := List.forall_mem_cons.mp hl
    exact .later hn (ih hl)

/-- Nodes are judged from left to right. -/
theorem Judged.bind (hl : Judged d l x) (hm : Judged d m y) :
    Judged d (l ++ m) (x >>= fun _ => y) := by
  cases hl with
  | error h => exact .error h.append
  | ok hl =>
    cases hm with
    | error h => exact .error (h.append_left hl)
    | ok hm => exact .ok (List.forall_mem_append.mpr ⟨hl, hm⟩)

theorem Judged.eq_ok_iff (h : Judged d l x) : x = .ok () ↔ ∀ n ∈ l, n.Sound d := by
  cases h with
  | ok h => exact iff_of_true rfl h
  | error h =>
    obtain ⟨n, hn, hsound⟩ := h.exists_not_sound
    exact iff_of_false nofun fun hall => hsound (hall n hn)

theorem Judged.eq_error_iff (h : Judged d l x) : x = .error e ↔ FirstFault d l e := by
  cases h with
  | ok h =>
    refine iff_of_false nofun fun hfault => ?_
    obtain ⟨n, hn, hsound⟩ := hfault.exists_not_sound
    exact hsound (h n hn)
  | error h =>
    constructor
    · rintro ⟨⟩
      exact h
    · exact fun h' => by rw [h.unique h']

theorem judged_checkLeaf (d : Dialect) (column : Column) (p : Predicate) :
    Judged d [.leaf column p] (checkLeaf d column p) := by
  unfold checkLeaf
  split
  · rename_i hname
    exact .error (.here (.unnamed (Option.isNone_iff_eq_none.mp hname)))
  · rename_i hname
    have hname : column.name ≠ none := fun h => hname (Option.isNone_iff_eq_none.mpr h)
    split
    · rename_i hoperator
      exact .error (.here (.unspelled hname (Option.isNone_iff_eq_none.mp hoperator)))
    · rename_i hoperator
      have hoperator : d.operator p.kind ≠ none :=
        fun h => hoperator (Option.isNone_iff_eq_none.mpr h)
      split
      · exact .error (.here (.emptyList hname hoperator))
      · rename_i hlist
        exact .ok (List.forall_mem_singleton.mpr ⟨hname, hoperator, hlist⟩)

mutual

theorem judged_check (d : Dialect) : ∀ c : Condition, Judged d c.nodes (c.check d)
  | .leaf column p => by
    rw [nodes, check]
    exact judged_checkLeaf d column p
  | .group c l => by
    rw [nodes, check]
    cases l with
    | nil => exact .error (.here .emptyGroup)
    | cons c' l =>
      -- A group with members is itself sound, and its members are judged after it.
      have hgroup : Judged d [.group c (c' :: l)] (.ok ()) :=
        .ok (List.forall_mem_singleton.mpr (List.cons_ne_nil c' l))
      exact hgroup.bind (judged_checkAll d (c' :: l))

theorem judged_checkAll (d : Dialect) :
    ∀ l : List Condition, Judged d (nodesAll l) (checkAll d l)
  | [] => .ok nofun
  | c :: l => by
    rw [nodesAll, checkAll]
    exact (judged_check d c).bind (judged_checkAll d l)

end

theorem forall_mem_nodesAll {P : Condition → Prop} :
    (∀ n ∈ nodesAll l, P n) ↔ ∀ c ∈ l, ∀ n ∈ c.nodes, P n := by
  induction l with
  | nil => simp [nodesAll]
  | cons c l ih => rw [nodesAll, List.forall_mem_append, ih, List.forall_mem_cons]

/-- Conditions are accepted if the dialect can write each of them. -/
theorem checkAll_eq_ok_iff_writable :
    checkAll d l = .ok () ↔ ∀ c ∈ l, c.Writable d :=
  (judged_checkAll d l).eq_ok_iff.trans forall_mem_nodesAll

theorem checkAll_append (d : Dialect) (l m : List Condition) :
    checkAll d (l ++ m) = checkAll d l >>= fun _ => checkAll d m := by
  induction l with
  | nil => rfl
  | cons c l ih =>
    rw [List.cons_append, checkAll, checkAll, ih]
    cases c.check d <;> rfl

end Condition

/-! ## Expressions -/

/-- The first of the tables agrees with the others. -/
def Table.AgreeWithFirst : List Table → Prop
  | [] => False
  | t :: l => ∀ u ∈ l, t.sameTable u

theorem Table.agreeWithFirst_iff {l : List Table} :
    AgreeWithFirst l ↔ ∃ t l', l = t :: l' ∧ ∀ u ∈ l', t.sameTable u := by
  cases l with
  | nil => simp [AgreeWithFirst]
  | cons t l => exact ⟨fun h => ⟨t, l, rfl, h⟩, by rintro ⟨_, _, ⟨⟩, h⟩; exact h⟩

namespace Expression

/-- The conditions of an expression in the order of reading. -/
def trees : Expression → List Condition
  | .select s => s.joins.filterMap (·.condition) ++ s.conditions
  | .insert _ => []
  | .update s => s.conditions
  | .delete s => s.conditions

/-- What an expression needs besides its conditions. -/
def Shaped : Expression → Prop
  | .select s => s.table ≠ none
  | .insert s =>
    s.columns ≠ [] ∧ (∀ c ∈ s.columns, c.name ≠ none ∧ c.table ≠ none) ∧
      Table.AgreeWithFirst s.tables ∧ s.rows ≠ [] ∧
      ∀ row ∈ s.rows, row.length = s.columns.length
  | .update s => s.assignments ≠ [] ∧ Table.AgreeWithFirst s.tables
  | .delete _ => True

variable {x : Expression} {d : Dialect} {statement : Statement}

theorem exists_insertTarget_iff {s : Insert} :
    (∃ t, s.target = .ok t) ↔
      (∀ c ∈ s.columns, c.name ≠ none ∧ c.table ≠ none) ∧ Table.AgreeWithFirst s.tables := by
  simp only [Insert.target_eq_ok_iff, Table.agreeWithFirst_iff, exists_and_left]

theorem exists_updateTarget_iff {s : Update} :
    (∃ t, s.target = .ok t) ↔ Table.AgreeWithFirst s.tables := by
  simp only [Update.target_eq_ok_iff, Table.agreeWithFirst_iff]

/-- Of an expression that is shaped only the conditions are still to be checked. -/
theorem build_of_shaped (d : Dialect) (h : x.Shaped) :
    x.build d = (Condition.checkAll d x.trees).map fun _ => .ofTokens d x.tokens := by
  cases x with
  | select s =>
    obtain ⟨t, htable⟩ := Option.ne_none_iff_exists'.mp h
    rw [trees, Condition.checkAll_append, tokens, htable]
    simp only [build, Select.build_eq, htable]
    cases Condition.checkAll d (s.joins.filterMap (·.condition)) with
    | error e => rfl
    | ok => cases Condition.checkAll d s.conditions <;> rfl
  | insert s =>
    obtain ⟨-, hcolumns, hagree, hrows, hwidths⟩ := h
    obtain ⟨t, htarget⟩ := exists_insertTarget_iff.mpr ⟨hcolumns, hagree⟩
    have hempty : s.rows.isEmpty = false := List.isEmpty_eq_false_iff.mpr hrows
    have hchecked : Insert.checkWidths s.columns.length 0 s.rows = .ok () :=
      Insert.checkWidths_eq_ok_iff.mpr hwidths
    rw [tokens, htarget, build, Insert.build_eq, htarget]
    simp only [bind, Except.bind, hempty, Bool.false_eq_true, ↓reduceIte, hchecked]
    rfl
  | update s =>
    obtain ⟨t, htarget⟩ := exists_updateTarget_iff.mpr h.2
    rw [trees, tokens, htarget, build, Update.build_eq, htarget]
    cases Condition.checkAll d s.conditions <;> rfl
  | delete s =>
    rw [trees, tokens, build, Delete.build_eq]
    cases Condition.checkAll d s.conditions <;> rfl

theorem shaped_of_build (h : x.build d = .ok statement) : x.Shaped := by
  cases x with
  | select s =>
    obtain ⟨t, htable, -⟩ := s.eq_of_build h
    exact fun hnone => nomatch htable.symm.trans hnone
  | insert s =>
    obtain ⟨htarget, hrows, hwidths⟩ := Insert.exists_build_iff.mp ⟨statement, h⟩
    obtain ⟨hcolumns, hagree⟩ := exists_insertTarget_iff.mp htarget
    refine ⟨fun hnil => ?_, hcolumns, hagree, hrows, hwidths⟩
    rw [Insert.tables, hnil] at hagree
    exact hagree
  | update s =>
    obtain ⟨htarget, -⟩ := Update.exists_build_iff.mp ⟨statement, h⟩
    have hagree := exists_updateTarget_iff.mp htarget
    refine ⟨fun hnil => ?_, hagree⟩
    rw [Update.tables, hnil] at hagree
    exact hagree
  | delete s => trivial

theorem exists_build_iff :
    (∃ statement, x.build d = .ok statement) ↔ x.Shaped ∧ ∀ c ∈ x.trees, c.Writable d := by
  rw [← Condition.checkAll_eq_ok_iff_writable]
  constructor
  · rintro ⟨statement, h⟩
    have hshaped := shaped_of_build h
    rw [build_of_shaped d hshaped, except_map_eq_ok_iff] at h
    obtain ⟨⟨⟩, hchecked, -⟩ := h
    exact ⟨hshaped, hchecked⟩
  · rintro ⟨hshaped, hchecked⟩
    exact ⟨_, by rw [build_of_shaped d hshaped, hchecked]; rfl⟩

theorem build_eq_error_iff_of_shaped (h : x.Shaped) {e : SqlError} :
    x.build d = .error e ↔ Condition.FirstFault d (Condition.nodesAll x.trees) e := by
  rw [build_of_shaped d h, ← (Condition.judged_checkAll d x.trees).eq_error_iff]
  cases Condition.checkAll d x.trees <;> simp [Except.map]

end Expression

/-! ## What is written -/

/-- What a statement writes of an expression, apart from words and names. -/
inductive Part where
  | node (c : Condition)
  /-- The columns that a join makes equal. -/
  | join (left right : QualifiedColumn)
  | assignment (a : Assignment)
  | columns (l : List Column)
  | row (values : List Datum)

def Part.node? : Part → Option Condition
  | .node c => some c
  | _ => none

def Condition.parts (c : Condition) : List Part := c.nodes.map .node

/-- What may stand around parts that are connected in the given way. -/
def Token.Glues (o : Connective) : Token → Prop
  | .word _ | .identifier _ | .join _ | .paging .. | .space => True
  | .connective o' => o' = o
  | .operator _ | .value _ | .leftParen | .rightParen => False

/-- Tokens that hold parts, each of them once, from left to right. The members of a group stand
between its parentheses and are connected as the group says. -/
inductive Renders : Connective → List Token → List Part → Prop where
  | nil {o : Connective} : Renders o [] []
  | glue {o : Connective} {t : Token} {l : List Token} {parts : List Part} (ht : t.Glues o)
      (hl : Renders o l parts) : Renders o (t :: l) parts
  | leaf {o : Connective} (column : Column) (p : Predicate) {l : List Token} {parts : List Part}
      (hl : Renders o l parts) :
      Renders o ((Condition.leaf column p).tokens ++ l) (.node (.leaf column p) :: parts)
  | group {o : Connective} (c : Connective) (members : List Condition) {m l : List Token}
      {parts : List Part} (hm : Renders c m (members.flatMap Condition.parts))
      (hl : Renders o l parts) :
      Renders o (inParens m ++ l)
        (.node (.group c members) :: (members.flatMap Condition.parts ++ parts))
  | join {o : Connective} (left right : QualifiedColumn) {l : List Token} {parts : List Part}
      (hl : Renders o l parts) :
      Renders o (equated left.column.reference right.column.reference ++ l)
        (.join left right :: parts)
  | assignment {o : Connective} (a : Assignment) {l : List Token} {parts : List Part}
      (hl : Renders o l parts) : Renders o (a.tokens ++ l) (.assignment a :: parts)
  | columns {o : Connective} (cs : List Column) {l : List Token} {parts : List Part}
      (hl : Renders o l parts) :
      Renders o (inParens (listed (cs.map Column.bare)) ++ l) (.columns cs :: parts)
  | row {o : Connective} (values : List Datum) {l : List Token} {parts : List Part}
      (hl : Renders o l parts) :
      Renders o (inParens (listed (values.map fun v => [.value v])) ++ l) (.row values :: parts)

/-- Sequences of tokens that hold parts one after the other. -/
inductive RendersEach (o : Connective) : List (List Token) → List Part → Prop where
  | nil : RendersEach o [] []
  | cons {p : List Token} {l : List (List Token)} {parts parts' : List Part}
      (h : Renders o p parts) (hl : RendersEach o l parts') :
      RendersEach o (p :: l) (parts ++ parts')

variable {o : Connective}

namespace Renders

variable {l m : List Token} {parts parts' : List Part}

theorem append (hl : Renders o l parts) (hm : Renders o m parts') :
    Renders o (l ++ m) (parts ++ parts') := by
  induction hl with
  | nil => exact hm
  | glue ht _ ih => exact .glue ht (ih hm)
  | leaf column p _ ih => rw [List.append_assoc]; exact .leaf column p (ih hm)
  | group c members hinner _ _ ih =>
    rw [List.append_assoc, List.cons_append, List.append_assoc]
    exact .group c members hinner (ih hm)
  | join left right _ ih => rw [List.append_assoc]; exact .join left right (ih hm)
  | assignment a _ ih => rw [List.append_assoc]; exact .assignment a (ih hm)
  | columns cs _ ih => rw [List.append_assoc]; exact .columns cs (ih hm)
  | row values _ ih => rw [List.append_assoc]; exact .row values (ih hm)

theorem append_nothing (hl : Renders o l parts) (hm : Renders o m []) : Renders o (l ++ m) parts :=
  List.append_nil parts ▸ hl.append hm

theorem of_glue (h : ∀ t ∈ l, t.Glues o) : Renders o l [] := by
  induction l with
  | nil => exact .nil
  | cons t l ih =>
    obtain ⟨ht, hl⟩ := List.forall_mem_cons.mp h
    exact .glue ht (ih hl)

end Renders

namespace RendersEach

variable {l m : List (List Token)} {parts parts' : List Part}

theorem append (hl : RendersEach o l parts) (hm : RendersEach o m parts') :
    RendersEach o (l ++ m) (parts ++ parts') := by
  induction hl with
  | nil => exact hm
  | cons h _ ih => rw [List.cons_append, List.append_assoc]; exact .cons h ih

theorem map {α : Type} {f : α → List Token} {g : α → List Part} {l : List α}
    (h : ∀ a ∈ l, Renders o (f a) (g a)) : RendersEach o (l.map f) (l.flatMap g) := by
  induction l with
  | nil => exact .nil
  | cons a l ih =>
    obtain ⟨ha, hl⟩ := List.forall_mem_cons.mp h
    exact .cons ha (ih hl)

theorem map_nothing {α : Type} {f : α → List Token} {l : List α}
    (h : ∀ a ∈ l, Renders o (f a) []) : RendersEach o (l.map f) [] :=
  (List.flatMap_eq_nil_iff.mpr fun _ _ => rfl) ▸ map h

theorem singleton {p : List Token} (h : Renders o p parts) : RendersEach o [p] parts := by
  have hp := RendersEach.cons h .nil
  rwa [List.append_nil] at hp

/-- Between the parts there is only glue. -/
theorem separated {separator : List Token} (hsep : ∀ t ∈ separator, t.Glues o)
    (h : RendersEach o l parts) : Renders o (separated separator l) parts := by
  induction h with
  | nil => exact .nil
  | @cons p l parts parts' hp hl ih =>
    cases l with
    | nil =>
      cases hl
      rw [separated_singleton, List.append_nil]
      exact hp
    | cons q l =>
      rw [separated_cons_cons]
      exact hp.append ((Renders.of_glue hsep).append ih)

theorem listed (h : RendersEach o l parts) : Renders o (listed l) parts :=
  h.separated (by simp [Token.Glues])

theorem clauses (h : RendersEach o l parts) : Renders o (clauses l) parts :=
  h.separated (by simp [Token.Glues])

theorem connected (h : RendersEach o l parts) : Renders o (connected o l) parts :=
  h.separated (by simp [Token.Glues])

end RendersEach

/-! ## Names -/

theorem renders_path (l : List Identifier) : Renders o (pathTokens l) [] :=
  (RendersEach.map_nothing fun _ _ => .of_glue (by simp [Token.Glues])).separated
    (by simp [Token.Glues])

theorem renders_declaration (t : Table) : Renders o t.declaration [] := by
  unfold Table.declaration
  split
  · exact (renders_path _).append_nothing (.of_glue (by simp [Token.Glues]))
  · exact renders_path _

theorem renders_bare (c : Column) : Renders o c.bare [] := by
  unfold Column.bare
  split <;> exact .of_glue (by simp [Token.Glues])

theorem renders_reference (c : Column) : Renders o c.reference [] := by
  unfold Column.reference
  split
  · exact (renders_path _).append_nothing (.glue trivial (renders_bare c))
  · exact renders_bare c

theorem renders_projection (c : Column) : Renders o c.projection [] := by
  unfold Column.projection
  split
  · exact (renders_reference c).append_nothing (.of_glue (by simp [Token.Glues]))
  · exact renders_reference c

theorem renders_orderKey (k : OrderKey) : Renders o k.tokens [] := by
  have hshort : Renders o k.column.short [] := by
    unfold Column.short
    split
    · exact .of_glue (by simp [Token.Glues])
    · exact renders_reference _
  exact hshort.append_nothing (.of_glue (by simp [Token.Glues]))

/-! ## Conditions -/

theorem Condition.nodesAll_eq (l : List Condition) : nodesAll l = l.flatMap nodes := by
  induction l with
  | nil => rfl
  | cons c l ih => rw [nodesAll, ih, List.flatMap_cons]

theorem Condition.parts_group (c : Connective) (l : List Condition) :
    (group c l).parts = .node (group c l) :: l.flatMap parts := by
  rw [parts, nodes, nodesAll_eq, List.map_cons, List.map_flatMap]
  rfl

mutual

/-- A condition is written node by node, wherever it stands. -/
theorem renders_condition : ∀ (o : Connective) (c : Condition), Renders o c.tokens c.parts
  | o, .leaf column p => by
    have h := Renders.leaf (o := o) column p .nil
    rwa [List.append_nil] at h
  | o, .group c l => by
    have h := Renders.group (o := o) c l (renders_tokensAll c l).connected .nil
    rwa [List.append_nil, List.append_nil, ← Condition.parts_group] at h

theorem renders_tokensAll : ∀ (o : Connective) (l : List Condition),
    RendersEach o (Condition.tokensAll l) (l.flatMap Condition.parts)
  | _, [] => .nil
  | o, c :: l => .cons (renders_condition o c) (renders_tokensAll o l)

end

theorem renders_clause (l : List Condition) :
    RendersEach .and (Condition.clause l) (l.flatMap Condition.parts) := by
  cases l with
  | nil => exact .nil
  | cons c l =>
    exact .singleton (.glue trivial (.glue trivial (renders_tokensAll .and (c :: l)).connected))

/-! ## Other clauses -/

def Join.parts (j : Join) : List Part :=
  .join j.left j.right :: j.condition.toList.flatMap Condition.parts

theorem renders_join (j : Join) : Renders .and j.tokens j.parts := by
  have htable : Renders .and ([.join j.kind, .space] ++ j.right.table.declaration
      ++ [.space, .word .onEqual, .space]) [] :=
    ((Renders.of_glue (by simp [Token.Glues])).append (renders_declaration _)).append_nothing
      (.of_glue (by simp [Token.Glues]))
  have hequal : Renders .and (equated j.left.column.reference j.right.column.reference)
      [.join j.left j.right] := by
    have h := Renders.join (o := .and) j.left j.right .nil
    rwa [List.append_nil] at h
  have hcondition : RendersEach .and (j.condition.map Condition.tokens).toList
      (j.condition.toList.flatMap Condition.parts) := by
    cases j.condition with
    | none => exact .nil
    | some c => exact .map (l := [c]) fun c _ => renders_condition .and c
  exact htable.append (RendersEach.cons hequal hcondition).connected

/-- What is written one by one in a list. -/
theorem renders_each {α : Type} {f : α → List Token} {g : α → Part} {l : List α}
    (h : ∀ a, Renders o (f a) [g a]) : Renders o (listed (l.map f)) (l.map g) := by
  rw [List.map_eq_flatMap (f := g)]
  exact (RendersEach.map fun a _ => h a).listed

theorem renders_assignment (a : Assignment) : Renders o a.tokens [.assignment a] := by
  have h := Renders.assignment (o := o) a .nil
  rwa [List.append_nil] at h

theorem renders_row (values : List Datum) :
    Renders o (inParens (listed (values.map fun v => [.value v]))) [.row values] := by
  have h := Renders.row (o := o) values .nil
  rwa [List.append_nil] at h

theorem renders_columns (l : List Column) :
    Renders o (inParens (listed (l.map Column.bare))) [.columns l] := by
  have h := Renders.columns (o := o) l .nil
  rwa [List.append_nil] at h

theorem renders_orderBy (l : List OrderKey) : RendersEach .and (OrderKey.clause l) [] := by
  cases l with
  | nil => exact .nil
  | cons k l =>
    have hkeys : RendersEach .and ((k :: l).map OrderKey.tokens) [] :=
      .map_nothing fun k _ => renders_orderKey k
    exact .singleton (.glue trivial (.glue trivial hkeys.listed))

namespace Expression

/-- The parts of an expression in the order of reading. -/
def parts : Expression → List Part
  | .select s => s.joins.flatMap Join.parts ++ s.conditions.flatMap Condition.parts
  | .insert s => .columns s.columns :: s.rows.map .row
  | .update s => s.assignments.map .assignment ++ s.conditions.flatMap Condition.parts
  | .delete s => s.conditions.flatMap Condition.parts

theorem renders_heading (s : Select) : Renders .and s.heading [] := by
  have hcolumns : Renders .and (if s.columns.isEmpty then [.word .wildcard]
      else listed (s.columns.map Column.projection)) [] := by
    split
    · exact .of_glue (by simp [Token.Glues])
    · exact (RendersEach.map_nothing fun c _ => renders_projection c).listed
  refine Renders.append_nothing ?_ (.glue trivial hcolumns)
  split <;> exact .of_glue (by simp [Token.Glues])

theorem renders_select (s : Select) (t : Table) :
    Renders .and (s.tokens t) (Expression.select s).parts := by
  have htable : Renders .and (.word .fromTable :: .space :: t.declaration) [] :=
    .glue trivial (.glue trivial (renders_declaration t))
  have hjoins : RendersEach .and (s.joins.map Join.tokens) (s.joins.flatMap Join.parts) :=
    .map fun j _ => renders_join j
  have hrest := (renders_clause s.conditions).append (renders_orderBy s.orderBy)
  have hclauses := RendersEach.cons (renders_heading s) (.cons htable (hjoins.append hrest))
  have h := hclauses.clauses.append_nothing (m := [.paging s.limit s.offset])
    (.of_glue (by simp [Token.Glues]))
  rw [List.append_nil] at h
  exact s.tokens_eq_clauses t ▸ h

theorem renders_insert (s : Insert) (t : Table) :
    Renders .and (s.tokens t) (Expression.insert s).parts := by
  have hinto : Renders .and ([.word .insertInto, .space] ++ t.qualified) [] :=
    (Renders.of_glue (by simp [Token.Glues])).append_nothing (renders_path _)
  have hcolumns : Renders .and (.space :: inParens (listed (s.columns.map Column.bare)))
      [.columns s.columns] := .glue trivial (renders_columns s.columns)
  have hvalues : Renders .and (.word .values :: .space :: listed (s.rows.map fun row =>
      inParens (listed (row.map fun v => [.value v])))) (s.rows.map .row) :=
    .glue trivial (.glue trivial (renders_each renders_row))
  exact (RendersEach.cons (hinto.append hcolumns) (.singleton hvalues)).clauses

theorem renders_update (s : Update) (t : Table) :
    Renders .and (s.tokens t) (Expression.update s).parts := by
  have htable : Renders .and ([.word .update, .space] ++ t.qualified) [] :=
    (Renders.of_glue (by simp [Token.Glues])).append_nothing (renders_path _)
  have hset : Renders .and (.word .setTo :: .space :: listed (s.assignments.map Assignment.tokens))
      (s.assignments.map .assignment) :=
    .glue trivial (.glue trivial (renders_each renders_assignment))
  exact (RendersEach.cons htable (.cons hset (renders_clause s.conditions))).clauses

theorem renders_delete (s : Delete) : Renders .and s.tokens (Expression.delete s).parts := by
  have htable : Renders .and ([.word .deleteFrom, .space] ++ s.table.qualified) [] :=
    (Renders.of_glue (by simp [Token.Glues])).append_nothing (renders_path _)
  exact (RendersEach.cons htable (renders_clause s.conditions)).clauses

theorem renders_of_build {x : Expression} {d : Dialect} {statement : Statement}
    (h : x.build d = .ok statement) : Renders .and x.tokens x.parts := by
  cases x with
  | select s =>
    obtain ⟨t, htable, -⟩ := s.eq_of_build h
    rw [tokens, htable]
    exact renders_select s t
  | insert s =>
    obtain ⟨t, htarget, -⟩ := s.eq_of_build h
    rw [tokens, htarget]
    exact renders_insert s t
  | update s =>
    obtain ⟨t, htarget, -⟩ := s.eq_of_build h
    rw [tokens, htarget]
    exact renders_update s t
  | delete s => exact renders_delete s

theorem filterMap_parts (c : Condition) : c.parts.filterMap Part.node? = c.nodes := by
  rw [Condition.parts, List.filterMap_map]
  exact List.filterMap_some

theorem nodes_conditions (l : List Condition) :
    (l.flatMap Condition.parts).filterMap Part.node? = Condition.nodesAll l := by
  rw [List.filterMap_flatMap, Condition.nodesAll_eq]
  exact List.flatMap_congr fun c _ => filterMap_parts c

theorem nodes_joins (l : List Join) :
    (l.flatMap Join.parts).filterMap Part.node? =
      Condition.nodesAll (l.filterMap (·.condition)) := by
  induction l with
  | nil => rfl
  | cons j l ih =>
    obtain ⟨kind, left, right, _ | c⟩ := j <;>
      rw [List.flatMap_cons, List.filterMap_append, ih, Join.parts, List.filterMap_cons_none rfl]
    · rfl
    · rw [Option.toList_some, List.flatMap_singleton, filterMap_parts]
      rfl

/-- The nodes among the parts are those of the conditions. -/
theorem nodes_parts (x : Expression) :
    x.parts.filterMap Part.node? = Condition.nodesAll x.trees := by
  have hnone : ∀ {α : Type} (f : α → Part) (l : List α), (∀ a, (f a).node? = none) →
      (l.map f).filterMap Part.node? = [] := fun f l hf => by
    rw [List.filterMap_map]
    exact List.filterMap_eq_nil_iff.mpr fun a _ => hf a
  cases x with
  | select s =>
    rw [parts, trees, List.filterMap_append, nodes_joins, nodes_conditions, Condition.nodesAll_eq,
      Condition.nodesAll_eq, Condition.nodesAll_eq, List.flatMap_append]
  | insert s =>
    rw [parts, trees, List.filterMap_cons_none rfl, hnone _ _ fun _ => rfl]
    rfl
  | update s =>
    rw [parts, trees, List.filterMap_append, hnone _ _ fun _ => rfl, nodes_conditions]
    rfl
  | delete s => exact nodes_conditions s.conditions

/-- In every dialect, an expression has a statement exactly if it is shaped and the dialect can
write all of its conditions. If it is shaped and has none, then the error is that of the first node
with a fault, in the order of reading. The statement holds every part of the expression once, and
all nodes of the conditions are among the parts. -/
theorem built_if_well_formed (x : Expression) (d : Dialect) :
    ((∃ statement, x.build d = .ok statement) ↔ x.Shaped ∧ ∀ c ∈ x.trees, c.Writable d) ∧
      (x.Shaped → ∀ e, x.build d = .error e ↔
        Condition.FirstFault d (Condition.nodesAll x.trees) e) ∧
      ∀ statement, x.build d = .ok statement → ∃ l, statement = .ofTokens d l ∧
        Renders .and l x.parts ∧ x.parts.filterMap Part.node? = Condition.nodesAll x.trees :=
  ⟨exists_build_iff, fun hshaped _ => build_eq_error_iff_of_shaped hshaped,
    fun _ h => ⟨x.tokens, eq_ofTokens_of_build h, renders_of_build h, nodes_parts x⟩⟩

/-- A query with two faults: a pattern without regard to case, and a group without members. -/
def faultyOrders : Select where
  table := some orders
  joins := someOrders.joins
  conditions :=
    [.group .or [.leaf orderTotal (.isNull false), .leaf orderUser.column (.like false true "a%")],
     .group .and []]

theorem faultyOrders_fault :
    (Expression.select faultyOrders).Shaped ∧
      (Expression.select faultyOrders).build .generic =
        .error (.unsupportedOperator .iLike "Orders.User" "generic") ∧
      (∃ statement, (Expression.select someOrders).build .generic = .ok statement ∧
        ∃ l, statement = .ofTokens .generic l ∧
          Renders .and l (Expression.select someOrders).parts) ∧
      ∀ c ∈ (Expression.select someOrders).trees, c.Writable .generic := by
  have hbuild : (Expression.select someOrders).build .generic =
      .ok (.ofTokens .generic (someOrders.tokens orders)) := someOrders.build_eq .generic
  obtain ⟨-, hfault, -⟩ := built_if_well_formed (.select faultyOrders) .generic
  obtain ⟨hbuilt, -, hwritten⟩ := built_if_well_formed (.select someOrders) .generic
  have hshaped : (Expression.select faultyOrders).Shaped := Option.some_ne_none orders
  refine ⟨hshaped, (hfault hshaped _).mpr ?_, ⟨_, hbuild, ?_⟩, (hbuilt.mp ⟨_, hbuild⟩).2⟩
  · refine .later ⟨nofun, nofun, nofun⟩ (.later nofun (.later ⟨nofun, nofun, nofun⟩ (.here ?_)))
    exact .unspelled nofun rfl
  · obtain ⟨l, hl, hparts, -⟩ := hwritten _ hbuild
    exact ⟨l, hl, hparts⟩

end Expression

end EventStore.Sql
