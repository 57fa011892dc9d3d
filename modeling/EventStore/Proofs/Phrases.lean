import EventStore.Proofs.WrittenTables

/-!
# Phrases

The tokens of an expression are put together from phrases: a value or a name has after it the end of
its phrase, or a token that no placeholder goes on with and no name.

Proved here: what an expression is written with is a phrase, and its identifiers are some of those
of the expression (`phrase_select`, `phrase_insert`, `phrase_update`, `phrase_delete`).
-/

namespace EventStore.Sql

/-! ## Identifiers -/

def Table.identifiers (t : Table) : List Identifier :=
  t.schema.toList ++ t.name?.toList ++ t.alias?.toList

def Column.identifiers (c : Column) : List Identifier :=
  c.name.toList ++ (c.table.map Table.identifiers).getD [] ++ c.aliasName.toList

namespace Condition

mutual

def identifiers : Condition → List Identifier
  | .leaf c _ => c.identifiers
  | .group _ l => identifiersAll l

def identifiersAll : List Condition → List Identifier
  | [] => []
  | c :: l => c.identifiers ++ identifiersAll l

end

theorem identifiersAll_eq (l : List Condition) : identifiersAll l = l.flatMap identifiers := by
  induction l with
  | nil => rfl
  | cons c l ih => rw [identifiersAll, ih, List.flatMap_cons]

end Condition

def Join.identifiers (j : Join) : List Identifier :=
  j.left.column.identifiers ++ j.right.column.identifiers
    ++ (j.condition.map Condition.identifiers).getD []

def Select.identifiers (s : Select) : List Identifier :=
  (s.table.map Table.identifiers).getD [] ++ s.columns.flatMap Column.identifiers
    ++ s.joins.flatMap Join.identifiers ++ s.conditions.flatMap Condition.identifiers
    ++ s.orderBy.flatMap (·.column.identifiers)

def Insert.identifiers (s : Insert) : List Identifier := s.columns.flatMap Column.identifiers

def Update.identifiers (s : Update) : List Identifier :=
  s.assignments.flatMap (·.column.identifiers) ++ s.conditions.flatMap Condition.identifiers

def Delete.identifiers (s : Delete) : List Identifier :=
  s.table.identifiers ++ s.conditions.flatMap Condition.identifiers

/-! ## What may follow a value or a name -/

/-- A token that no placeholder goes on with, and no name. -/
def Token.Parts : Token → Prop
  | .space | .rightParen | .word .identifierSeparator | .word .listSeparator
  | .word .clauseSeparator => True
  | _ => False

/-- Tokens that may follow a value or a name. -/
def Parted : List Token → Prop
  | [] => True
  | t :: _ => t.Parts

/-- Whether a token may stand before others. A clause that may be empty parts nothing, so it is in
no phrase. -/
def Token.Fits (P : Identifier → Prop) (l : List Token) : Token → Prop
  | .value _ => Parted l
  | .identifier i => P i ∧ Parted l
  | .paging .. => False
  | _ => True

/-- Tokens of which each may stand before what follows, and whose identifiers have a property. -/
def Phrase (P : Identifier → Prop) : List Token → Prop
  | [] => True
  | t :: l => t.Fits P l ∧ Phrase P l

variable {P : Identifier → Prop}

theorem Parted.append {l m : List Token} (hl : Parted l) (hm : Parted m) : Parted (l ++ m) := by
  cases l with
  | nil => exact hm
  | cons t l => exact hl

theorem phrase_append {l m : List Token} (hl : Phrase P l) (hm : Phrase P m) (hparted : Parted m) :
    Phrase P (l ++ m) := by
  induction l with
  | nil => exact hm
  | cons t l ih =>
    refine ⟨?_, ih hl.2⟩
    -- a value or a name looks at what comes next, which may now be the start of the second list
    cases t with
    | value v => exact Parted.append hl.1 hparted
    | identifier i => exact ⟨hl.1.1, Parted.append hl.1.2 hparted⟩
    | _ => exact hl.1

/-- A separator that parts what it separates. -/
theorem phrase_separated (separator : List Token)
    (hsep : ∀ m, Phrase P m → Phrase P (separator ++ m)) (hparted : ∀ m, Parted (separator ++ m))
    {l : List (List Token)} (hl : ∀ p ∈ l, Phrase P p) : Phrase P (separated separator l) := by
  induction l with
  | nil => trivial
  | cons p l ih =>
    cases l with
    | nil => simpa [separated_singleton] using hl
    | cons q l =>
      have hrest := hsep _ (ih fun r hr => hl r (List.mem_cons_of_mem _ hr))
      rw [separated_cons_cons]
      exact phrase_append (hl p List.mem_cons_self) hrest (hparted _)

theorem phrase_listed {l : List (List Token)} (hl : ∀ p ∈ l, Phrase P p) : Phrase P (listed l) :=
  phrase_separated [.word .listSeparator] (fun _ hm => ⟨trivial, hm⟩) (fun _ => trivial) hl

theorem phrase_clauses {l : List (List Token)} (hl : ∀ p ∈ l, Phrase P p) : Phrase P (clauses l) :=
  phrase_separated [.word .clauseSeparator] (fun _ hm => ⟨trivial, hm⟩) (fun _ => trivial) hl

theorem phrase_connected (c : Connective) {l : List (List Token)} (hl : ∀ p ∈ l, Phrase P p) :
    Phrase P (connected c l) :=
  phrase_separated [.space, .connective c, .space]
    (fun _ hm => ⟨trivial, trivial, trivial, hm⟩) (fun _ => trivial) hl

theorem phrase_inParens {l : List Token} (hl : Phrase P l) : Phrase P (inParens l) :=
  ⟨trivial, phrase_append hl ⟨trivial, trivial⟩ trivial⟩

theorem phrase_equated {left right : List Token} (hleft : Phrase P left) (hright : Phrase P right) :
    Phrase P (equated left right) := by
  rw [equated, List.append_assoc]
  exact phrase_append hleft ⟨trivial, trivial, trivial, hright⟩ trivial

/-! ## Tables and columns -/

theorem phrase_path {l : List Identifier} (hl : ∀ i ∈ l, P i) : Phrase P (pathTokens l) := by
  refine phrase_separated [.word .identifierSeparator] (fun _ hm => ⟨trivial, hm⟩)
    (fun _ => trivial) fun p hp => ?_
  obtain ⟨i, hi, rfl⟩ := List.mem_map.mp hp
  exact ⟨⟨hl i hi, trivial⟩, trivial⟩

section Table

variable {t : Table} (ht : ∀ i ∈ t.identifiers, P i)

include ht

theorem phrase_qualified : Phrase P t.qualified := by
  refine phrase_path fun i hi => ht i ?_
  rcases t with ⟨schema, ⟨name, aliasName⟩ | ⟨aliasName⟩⟩
  · simp only [Table.qualifiedPath, List.mem_append, List.mem_singleton] at hi
    simp only [Table.identifiers, Table.name?, Table.alias?, List.mem_append, Option.toList_some,
      List.mem_singleton]
    exact Or.inl hi
  · simp only [Table.qualifiedPath] at hi
    exact List.mem_append_right _ hi

theorem phrase_declaration : Phrase P t.declaration := by
  have hqualified := phrase_qualified ht
  unfold Table.declaration
  split
  · rename_i aliasName hsource
    have halias : aliasName ∈ t.identifiers := by
      simp [Table.identifiers, Table.alias?, hsource]
    exact phrase_append hqualified ⟨trivial, ⟨ht _ halias, trivial⟩, trivial⟩ trivial
  · exact hqualified

theorem phrase_table_reference : Phrase P t.reference := by
  unfold Table.reference Table.referencePath
  split
  · rename_i aliasName halias
    refine phrase_path fun i hi => ht i ?_
    rw [List.mem_singleton.mp hi]
    simp [Table.identifiers, halias]
  · exact phrase_qualified ht

end Table

section Column

variable {c : Column} (hc : ∀ i ∈ c.identifiers, P i)

include hc

theorem phrase_bare : Phrase P c.bare := by
  unfold Column.bare
  split
  · rename_i name hname
    exact ⟨⟨hc name (by simp [Column.identifiers, hname]), trivial⟩, trivial⟩
  · exact ⟨trivial, trivial⟩

theorem phrase_reference : Phrase P c.reference := by
  have hbare := phrase_bare hc
  unfold Column.reference
  split
  · rename_i t htable
    refine phrase_append (phrase_table_reference fun i hi => hc i ?_) ⟨trivial, hbare⟩ trivial
    simp [Column.identifiers, htable, hi]
  · exact hbare

theorem phrase_projection : Phrase P c.projection := by
  have href := phrase_reference hc
  unfold Column.projection
  split
  · rename_i aliasName halias
    have hmem : aliasName ∈ c.identifiers := by simp [Column.identifiers, halias]
    exact phrase_append href ⟨trivial, trivial, trivial, ⟨hc _ hmem, trivial⟩, trivial⟩ trivial
  · exact href

theorem phrase_short : Phrase P c.short := by
  unfold Column.short
  split
  · rename_i aliasName halias
    exact ⟨⟨hc aliasName (by simp [Column.identifiers, halias]), trivial⟩, trivial⟩
  · exact phrase_reference hc

end Column

/-! ## Conditions -/

theorem phrase_operands (p : Predicate) : Phrase P p.operands := by
  cases p with
  | compare => exact ⟨trivial, trivial, trivial⟩
  | between => exact ⟨trivial, trivial, trivial, trivial, trivial, trivial, trivial⟩
  | inList negated values =>
    refine ⟨trivial, phrase_inParens (phrase_listed fun p hp => ?_)⟩
    obtain ⟨v, -, rfl⟩ := List.mem_map.mp hp
    exact ⟨trivial, trivial⟩
  | like => exact ⟨trivial, trivial, trivial⟩
  | isNull => trivial

mutual

theorem phrase_condition : ∀ c : Condition, (∀ i ∈ c.identifiers, P i) → Phrase P c.tokens
  | .leaf c p, h => by
    rw [Condition.identifiers] at h
    rw [Condition.tokens]
    exact phrase_append (phrase_reference h) ⟨trivial, trivial, phrase_operands p⟩ trivial
  | .group c l, h => by
    rw [Condition.identifiers] at h
    rw [Condition.tokens]
    exact phrase_inParens (phrase_connected c (phrase_tokensAll l h))

theorem phrase_tokensAll : ∀ l : List Condition, (∀ i ∈ Condition.identifiersAll l, P i) →
    ∀ p ∈ Condition.tokensAll l, Phrase P p
  | [], _ => nofun
  | c :: l, h => by
    rw [Condition.identifiersAll] at h
    rw [Condition.tokensAll]
    intro p hp
    rcases List.mem_cons.mp hp with rfl | hp
    · exact phrase_condition c fun i hi => h i (List.mem_append_left _ hi)
    · exact phrase_tokensAll l (fun i hi => h i (List.mem_append_right _ hi)) p hp

end

theorem phrase_conditions {l : List Condition} (h : ∀ i ∈ l.flatMap Condition.identifiers, P i) :
    ∀ p ∈ Condition.clause l, Phrase P p := by
  rw [← Condition.identifiersAll_eq] at h
  cases l with
  | nil => nofun
  | cons c l =>
    intro p hp
    rw [List.mem_singleton.mp hp]
    exact ⟨trivial, trivial, phrase_connected .and (phrase_tokensAll (c :: l) h)⟩

/-! ## Other clauses -/

theorem phrase_join {j : Join} (h : ∀ i ∈ j.identifiers, P i) : Phrase P j.tokens := by
  have hleft : ∀ i ∈ j.left.column.identifiers, P i := fun i hi =>
    h i (by simp [Join.identifiers, hi])
  have hright : ∀ i ∈ j.right.column.identifiers, P i := fun i hi =>
    h i (by simp [Join.identifiers, hi])
  have htable : ∀ i ∈ j.right.table.identifiers, P i := fun i hi =>
    hright i (by simp [Column.identifiers, QualifiedColumn.column, hi])
  have hon : ∀ p ∈ equated j.left.column.reference j.right.column.reference
      :: (j.condition.map Condition.tokens).toList, Phrase P p := by
    intro p hp
    rcases List.mem_cons.mp hp with rfl | hp
    · exact phrase_equated (phrase_reference hleft) (phrase_reference hright)
    · obtain ⟨c, hc, rfl⟩ := Option.map_eq_some_iff.mp (Option.mem_toList.mp hp)
      exact phrase_condition c fun i hi => h i (by simp [Join.identifiers, hc, hi])
  have htail : Phrase P ([.space, .word .onEqual, .space] ++ connected .and
      (equated j.left.column.reference j.right.column.reference
        :: (j.condition.map Condition.tokens).toList)) :=
    ⟨trivial, trivial, trivial, phrase_connected .and hon⟩
  rw [Join.tokens, List.append_assoc]
  exact ⟨trivial, trivial, phrase_append (phrase_declaration htable) htail trivial⟩

theorem phrase_orderBy {l : List OrderKey} (h : ∀ i ∈ l.flatMap (·.column.identifiers), P i) :
    ∀ p ∈ OrderKey.clause l, Phrase P p := by
  cases l with
  | nil => nofun
  | cons k l =>
    intro p hp
    rw [List.mem_singleton.mp hp]
    refine ⟨trivial, trivial, phrase_listed fun q hq => ?_⟩
    obtain ⟨k', hk', rfl⟩ := List.mem_map.mp hq
    have hcolumn : ∀ i ∈ k'.column.identifiers, P i := fun i hi =>
      h i (List.mem_flatMap.mpr ⟨k', hk', hi⟩)
    exact phrase_append (phrase_short hcolumn) ⟨trivial, trivial, trivial⟩ trivial

theorem phrase_assignment {a : Assignment} (h : ∀ i ∈ a.column.identifiers, P i) :
    Phrase P a.tokens := by
  refine phrase_equated (phrase_bare h) ?_
  split <;> exact ⟨trivial, trivial⟩

/-! ## Expressions -/

theorem identifiers_of_column {c : Column} {t : Table} (h : c.table = some t) {i : Identifier}
    (hi : i ∈ t.identifiers) : i ∈ c.identifiers := by
  simp [Column.identifiers, h, hi]

theorem Insert.exists_column_of_target {s : Insert} {t : Table} (h : s.target = .ok t) :
    ∃ c ∈ s.columns, c.table = some t := by
  obtain ⟨-, l, htables, -⟩ := target_eq_ok_iff.mp h
  have ht : t ∈ s.tables := htables ▸ List.mem_cons_self
  exact List.mem_filterMap.mp ht

theorem Update.exists_column_of_target {s : Update} {t : Table} (h : s.target = .ok t) :
    ∃ a ∈ s.assignments, a.column.table = some t := by
  obtain ⟨l, htables, -⟩ := target_eq_ok_iff.mp h
  have ht : t ∈ s.tables := htables ▸ List.mem_cons_self
  exact List.mem_filterMap.mp ht

/-- What comes before the paging of a query. -/
theorem phrase_select {s : Select} {t : Table} (htable : s.table = some t)
    (h : ∀ i ∈ s.identifiers, P i) :
    ∃ body, s.tokens t = body ++ [.paging s.limit s.offset] ∧ Phrase P body := by
  have hjoins : ∀ p ∈ s.joins.map Join.tokens, Phrase P p := by
    intro p hp
    obtain ⟨j, hj, rfl⟩ := List.mem_map.mp hp
    refine phrase_join fun i hi => h i ?_
    have hmem : i ∈ s.joins.flatMap Join.identifiers := List.mem_flatMap.mpr ⟨j, hj, hi⟩
    simp [Select.identifiers, hmem]
  have hconditions : ∀ p ∈ Condition.clause s.conditions, Phrase P p :=
    phrase_conditions fun i hi => h i (by simp [Select.identifiers, hi])
  have horder : ∀ p ∈ OrderKey.clause s.orderBy, Phrase P p :=
    phrase_orderBy fun i hi => h i (by simp [Select.identifiers, hi])
  have hcolumns : Phrase P (.space :: if s.columns.isEmpty then [.word .wildcard]
      else listed (s.columns.map Column.projection)) := by
    refine ⟨trivial, ?_⟩
    split
    · exact ⟨trivial, trivial⟩
    · refine phrase_listed fun p hp => ?_
      obtain ⟨c, hc, rfl⟩ := List.mem_map.mp hp
      refine phrase_projection fun i hi => h i ?_
      have hmem : i ∈ s.columns.flatMap Column.identifiers := List.mem_flatMap.mpr ⟨c, hc, hi⟩
      simp [Select.identifiers, hmem]
  have hfirst : Phrase P (if s.distinct then [.word .select, .space, .word .distinct]
      else [.word .select]) := by
    split
    · exact ⟨trivial, trivial, trivial, trivial⟩
    · exact ⟨trivial, trivial⟩
  have hselect := phrase_append hfirst hcolumns trivial
  have hdeclaration : Phrase P t.declaration :=
    phrase_declaration fun i hi => h i (by simp [Select.identifiers, htable, hi])
  have hfrom : Phrase P (.word .fromTable :: .space :: t.declaration) :=
    ⟨trivial, trivial, hdeclaration⟩
  refine ⟨_, rfl, phrase_clauses ?_⟩
  simp only [List.forall_mem_append, List.forall_mem_cons]
  exact ⟨⟨⟨⟨hselect, hfrom, nofun⟩, hjoins⟩, hconditions⟩, horder⟩

theorem phrase_insert {s : Insert} {t : Table} (htarget : s.target = .ok t)
    (h : ∀ i ∈ s.identifiers, P i) : Phrase P (s.tokens t) := by
  have hcolumn : ∀ c ∈ s.columns, ∀ i ∈ c.identifiers, P i := fun c hc i hi =>
    h i (List.mem_flatMap.mpr ⟨c, hc, hi⟩)
  obtain ⟨c, hc, howner⟩ := Insert.exists_column_of_target htarget
  have htable : Phrase P t.qualified := phrase_qualified fun i hi =>
    hcolumn c hc i (identifiers_of_column howner hi)
  have hnames : Phrase P (listed (s.columns.map Column.bare)) := by
    refine phrase_listed fun p hp => ?_
    obtain ⟨c, hc, rfl⟩ := List.mem_map.mp hp
    exact phrase_bare (hcolumn c hc)
  have hrows : Phrase P (listed (s.rows.map fun row =>
      inParens (listed (row.map fun v => [.value v])))) := by
    refine phrase_listed fun p hp => ?_
    obtain ⟨row, -, rfl⟩ := List.mem_map.mp hp
    refine phrase_inParens (phrase_listed fun q hq => ?_)
    obtain ⟨v, -, rfl⟩ := List.mem_map.mp hq
    exact ⟨trivial, trivial⟩
  have hinto : Phrase P
      (t.qualified ++ .space :: inParens (listed (s.columns.map Column.bare))) :=
    phrase_append htable ⟨trivial, phrase_inParens hnames⟩ trivial
  refine phrase_clauses (List.forall_mem_cons.mpr ⟨?_, List.forall_mem_singleton.mpr ?_⟩)
  · rw [List.append_assoc]
    exact ⟨trivial, trivial, hinto⟩
  · exact ⟨trivial, trivial, hrows⟩

theorem phrase_update {s : Update} {t : Table} (htarget : s.target = .ok t)
    (h : ∀ i ∈ s.identifiers, P i) : Phrase P (s.tokens t) := by
  have hcolumn : ∀ a ∈ s.assignments, ∀ i ∈ a.column.identifiers, P i := fun a ha i hi =>
    h i (List.mem_append_left _ (List.mem_flatMap.mpr ⟨a, ha, hi⟩))
  obtain ⟨a, ha, howner⟩ := Update.exists_column_of_target htarget
  have htable : Phrase P t.qualified := phrase_qualified fun i hi =>
    hcolumn a ha i (identifiers_of_column howner hi)
  have hassignments : Phrase P (listed (s.assignments.map Assignment.tokens)) := by
    refine phrase_listed fun p hp => ?_
    obtain ⟨a, ha, rfl⟩ := List.mem_map.mp hp
    exact phrase_assignment (hcolumn a ha)
  have hconditions : ∀ p ∈ Condition.clause s.conditions, Phrase P p :=
    phrase_conditions fun i hi => h i (List.mem_append_right _ hi)
  refine phrase_clauses (List.forall_mem_append.mpr ⟨?_, hconditions⟩)
  exact List.forall_mem_cons.mpr ⟨⟨trivial, trivial, htable⟩,
    List.forall_mem_singleton.mpr ⟨trivial, trivial, hassignments⟩⟩

theorem phrase_delete {s : Delete} (h : ∀ i ∈ s.identifiers, P i) : Phrase P s.tokens := by
  have htable : Phrase P s.table.qualified :=
    phrase_qualified fun i hi => h i (List.mem_append_left _ hi)
  have hconditions : ∀ p ∈ Condition.clause s.conditions, Phrase P p :=
    phrase_conditions fun i hi => h i (List.mem_append_right _ hi)
  refine phrase_clauses (List.forall_mem_append.mpr ⟨?_, hconditions⟩)
  exact List.forall_mem_singleton.mpr ⟨trivial, trivial, htable⟩

end EventStore.Sql
