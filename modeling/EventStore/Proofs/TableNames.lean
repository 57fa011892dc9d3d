import EventStore.Proofs.DialectSpelling
import EventStore.Proofs.Relations

/-!
# The names of tables in a statement

A clause introduces a table under its alias if it writes one after the name, and else under the name
itself. The names under which tables are introduced are read here from the tokens of a statement, and
so is what stands before columns, without a look at the expression.

Proved here:

* `reads_select`, `reads_insert`, `reads_update`, `reads_delete`: what is read in the tokens of an
  expression;
* `names_of_build`: the names under which an expression introduces its tables, and what stands before
  its columns;
* `qualifiers_are_introduced`: hence before a column of a table there is the name under which a query
  introduces the table, and under which an update or a deletion introduces it if its alias is no
  other name than its own;
* `aliases_not_introduced`: updates and deletions use an alias without its introduction.
-/

namespace EventStore.Sql

/-! ## Reading -/

/-- What is read of tables in a statement. -/
inductive Mention where
  /-- The name under which a clause introduces a table. -/
  | introduced (name : List Identifier)
  /-- What stands before a column. -/
  | qualifier (name : List Identifier)
deriving DecidableEq

namespace Mention

def introduced? : Mention → Option (List Identifier)
  | introduced name => some name
  | qualifier _ => none

def qualifier? : Mention → Option (List Identifier)
  | introduced _ => none
  | qualifier name => some name

end Mention

/-- Whether a table is introduced after a token. -/
def Token.introduces : Token → Bool
  | .word .fromTable | .word .insertInto | .word .update | .word .deleteFrom | .join _ => true
  | _ => false

/-- The alias after a name. -/
def aliasAfter : List Token → Option Identifier
  | .space :: .identifier i :: _ => some i
  | _ => none

/-- What stands before the last part of a path, if anything does. -/
def qualifierOf (path : List Identifier) : List Mention :=
  if path = [] then [] else [.qualifier path]

/-- What is read in tokens, of which the first may go on with the introduction of a table, and with a
path of which some parts have been read. -/
def mentionsFrom (introducing : Bool) (path : List Identifier) : List Token → List Mention
  | [] => []
  | .identifier i :: .word .identifierSeparator :: l => mentionsFrom introducing (path ++ [i]) l
  | .identifier i :: l =>
    (if introducing then [.introduced (((aliasAfter l).map ([·])).getD (path ++ [i]))]
      else qualifierOf path) ++ mentionsFrom false [] l
  | .space :: l => mentionsFrom introducing path l
  | t :: l => qualifierOf path ++ mentionsFrom t.introduces [] l

def mentions (l : List Token) : List Mention := mentionsFrom false [] l

/-- The names under which tables are introduced, from left to right. -/
def introducedNames (l : List Token) : List (List Identifier) :=
  (mentions l).filterMap Mention.introduced?

/-- What stands before columns, from left to right. -/
def qualifiers (l : List Token) : List (List Identifier) :=
  (mentions l).filterMap Mention.qualifier?

/-! ## Tokens that are read one after the other -/

/-- Whether a name may go on with a token. -/
def Token.goesOn : Token → Bool
  | .word .identifierSeparator | .space => true
  | _ => false

def Token.isIdentifier : Token → Bool
  | .identifier _ => true
  | _ => false

/-- Tokens that go on neither with a path nor with an alias, whatever comes after them. -/
inductive Apart : List Token → Prop where
  | nil : Apart []
  | space {t : Token} {l : List Token} (h : t.isIdentifier = false) : Apart (.space :: t :: l)
  | cons {t : Token} {l : List Token} (h : t.goesOn = false) : Apart (t :: l)

/-- What is found in tokens when others are read after them. -/
structure Reads (l : List Token) (found : List Mention) : Prop where
  apart : Apart l
  mentions_append : ∀ m, Apart m → mentions (l ++ m) = found ++ mentions m

/-- What is found in several sequences of tokens. -/
inductive ReadsEach : List (List Token) → List Mention → Prop where
  | nil : ReadsEach [] []
  | cons {p : List Token} {l : List (List Token)} {found found' : List Mention}
      (h : Reads p found) (hl : ReadsEach l found') : ReadsEach (p :: l) (found ++ found')

variable {l m : List Token} {found found' : List Mention}

theorem Apart.append (hl : Apart l) (hm : Apart m) : Apart (l ++ m) := by
  cases hl with
  | nil => exact hm
  | space h => exact .space h
  | cons h => exact .cons h

theorem Apart.aliasAfter_eq (h : Apart l) : aliasAfter l = none := by
  cases h with
  | nil => rfl
  | @space t l h => cases t <;> first | rfl | cases h
  | @cons t l h => cases t <;> first | rfl | cases h

namespace Reads

theorem nil : Reads [] [] := ⟨.nil, fun _ _ => rfl⟩

theorem append (hl : Reads l found) (hm : Reads m found') : Reads (l ++ m) (found ++ found') where
  apart := hl.apart.append hm.apart
  mentions_append n hn := by
    rw [List.append_assoc, hl.mentions_append _ (hm.apart.append hn), hm.mentions_append n hn,
      List.append_assoc]

theorem append_nothing (hl : Reads l found) (hm : Reads m []) : Reads (l ++ m) found :=
  List.append_nil found ▸ hl.append hm

theorem mentions_eq (h : Reads l found) : mentions l = found := by
  have hl := h.mentions_append [] .nil
  rwa [List.append_nil, show mentions [] = [] from rfl, List.append_nil] at hl

/-- A token that says nothing of tables. -/
theorem cons {t : Token} (ht : t.goesOn = false)
    (hread : ∀ m, mentions (t :: m) = mentions m) (h : Reads l found) : Reads (t :: l) found where
  apart := .cons ht
  mentions_append m hm := by rw [List.cons_append, hread, h.mentions_append m hm]

theorem inParens (h : Reads l found) : Reads (inParens l) found := by
  have hclose : Reads [.rightParen] [] := ⟨.cons rfl, fun _ _ => rfl⟩
  exact (h.append_nothing hclose).cons rfl fun _ => rfl

end Reads

namespace ReadsEach

variable {l m : List (List Token)}

theorem append (hl : ReadsEach l found) (hm : ReadsEach m found') :
    ReadsEach (l ++ m) (found ++ found') := by
  induction hl with
  | nil => exact hm
  | cons h _ ih => rw [List.cons_append, List.append_assoc]; exact .cons h ih

theorem map {α : Type} {f : α → List Token} {g : α → List Mention} {l : List α}
    (h : ∀ a ∈ l, Reads (f a) (g a)) : ReadsEach (l.map f) (l.flatMap g) := by
  induction l with
  | nil => exact .nil
  | cons a l ih =>
    obtain ⟨ha, hl⟩ := List.forall_mem_cons.mp h
    exact .cons ha (ih hl)

theorem map_nothing {α : Type} {f : α → List Token} {l : List α} (h : ∀ a ∈ l, Reads (f a) []) :
    ReadsEach (l.map f) [] :=
  (List.flatMap_eq_nil_iff.mpr fun _ _ => rfl) ▸ map h

theorem singleton {p : List Token} (h : Reads p found) : ReadsEach [p] found := by
  have hp := ReadsEach.cons h .nil
  rwa [List.append_nil] at hp

/-- Nothing is found in what separates. -/
theorem separated {separator : List Token} (hsep : Reads separator []) (h : ReadsEach l found) :
    Reads (separated separator l) found := by
  induction h with
  | nil => exact .nil
  | @cons p l found found' hp hl ih =>
    cases l with
    | nil =>
      cases hl
      rw [separated_singleton, List.append_nil]
      exact hp
    | cons q l =>
      rw [separated_cons_cons]
      exact hp.append (hsep.append ih)

theorem listed (h : ReadsEach l found) : Reads (listed l) found :=
  h.separated ⟨.cons rfl, fun _ _ => rfl⟩

theorem clauses (h : ReadsEach l found) : Reads (clauses l) found :=
  h.separated ⟨.cons rfl, fun _ _ => rfl⟩

theorem connected (c : Connective) (h : ReadsEach l found) : Reads (connected c l) found :=
  h.separated ⟨.space rfl, fun _ _ => rfl⟩

end ReadsEach

/-! ## Paths -/

variable {introducing : Bool} {path : List Identifier}

theorem mentionsFrom_identifier (i : Identifier) (hm : Apart m) :
    mentionsFrom introducing path (.identifier i :: m) =
      (if introducing then [.introduced (path ++ [i])] else qualifierOf path) ++ mentions m := by
  have hfirst : mentionsFrom introducing path (.identifier i :: m) =
      (if introducing then [.introduced (((aliasAfter m).map ([·])).getD (path ++ [i]))]
        else qualifierOf path) ++ mentionsFrom false [] m := by
    cases hm with
    | nil => rfl
    | space => rfl
    | @cons t m h =>
      rcases t with w | _
      · cases w <;> first | rfl | cases h
      all_goals rfl
  rw [hfirst, hm.aliasAfter_eq]
  rfl

theorem pathTokens_cons {p : List Identifier} (hp : p ≠ []) (i : Identifier) :
    pathTokens (i :: p) = .identifier i :: .word .identifierSeparator :: pathTokens p := by
  cases p with
  | nil => exact absurd rfl hp
  | cons j p => simp [pathTokens, separated_cons_cons]

theorem mentionsFrom_pathTokens (p : List Identifier) (i : Identifier) (m : List Token) :
    mentionsFrom introducing path (pathTokens (p ++ [i]) ++ m) =
      mentionsFrom introducing (path ++ p) (.identifier i :: m) := by
  induction p generalizing path with
  | nil => rw [List.append_nil]; rfl
  | cons j p ih =>
    rw [List.cons_append, pathTokens_cons (by simp)]
    show mentionsFrom introducing (path ++ [j]) (pathTokens (p ++ [i]) ++ m) = _
    rw [ih, List.append_assoc]
    rfl

theorem apart_pathTokens (p : List Identifier) (i : Identifier) (m : List Token) :
    Apart (pathTokens (p ++ [i]) ++ m) := by
  cases p with
  | nil => exact .cons rfl
  | cons j p => rw [List.cons_append, pathTokens_cons (by simp)]; exact .cons rfl

theorem Table.exists_qualifiedPath_eq (t : Table) : ∃ p i, t.qualifiedPath = p ++ [i] := by
  unfold qualifiedPath
  split
  · exact ⟨_, _, rfl⟩
  · exact ⟨[], _, rfl⟩

theorem Table.exists_referencePath_eq (t : Table) : ∃ p i, t.referencePath = p ++ [i] := by
  unfold referencePath
  split
  · exact ⟨[], _, rfl⟩
  · exact t.exists_qualifiedPath_eq

/-! ## Tables and columns -/

section Introduction

variable {w : Token} (hw : w.introduces = true)

include hw

theorem mentions_introduction (l : List Token) :
    mentions (w :: .space :: l) = mentionsFrom true [] l := by
  rcases w with w | _
  · cases w <;> first | rfl | cases hw
  all_goals first | rfl | cases hw

theorem apart_introduction (l : List Token) : Apart (w :: l) := by
  refine .cons ?_
  rcases w with w | _
  · cases w <;> first | rfl | cases hw
  all_goals first | rfl | cases hw

theorem reads_qualified (t : Table) :
    Reads (w :: .space :: t.qualified) [.introduced t.qualifiedPath] where
  apart := apart_introduction hw _
  mentions_append m hm := by
    obtain ⟨p, i, hpath⟩ := t.exists_qualifiedPath_eq
    rw [Table.qualified, hpath, List.cons_append, List.cons_append, mentions_introduction hw,
      mentionsFrom_pathTokens, mentionsFrom_identifier i hm]
    rfl

/-- With its alias a table is introduced by the name that stands before its columns. -/
theorem reads_declaration (t : Table) :
    Reads (w :: .space :: t.declaration) [.introduced t.referencePath] := by
  have hqualified := reads_qualified hw t
  rcases t with ⟨schema, ⟨name, _ | aliasName⟩ | aliasName⟩
  · exact hqualified
  · refine ⟨apart_introduction hw _, fun m hm => ?_⟩
    obtain ⟨p, i, hpath⟩ := Table.exists_qualifiedPath_eq ⟨schema, .named name (some aliasName)⟩
    simp only [Table.declaration, Table.qualified, hpath, List.cons_append, List.append_assoc,
      List.nil_append]
    rw [mentions_introduction hw, mentionsFrom_pathTokens]
    -- the name is read up to its last part, and the alias is seen before that is read too
    show [.introduced [aliasName]] ++ mentionsFrom false [] (.identifier aliasName :: m) = _
    rw [mentionsFrom_identifier aliasName hm]
    rfl
  · exact hqualified

end Introduction

/-- What stands before columns of tables. -/
def beforeColumns (l : List Table) : List Mention := l.map fun t => .qualifier t.referencePath

theorem reads_bare (c : Column) : Reads c.bare [] := by
  unfold Column.bare
  split
  · exact ⟨.cons rfl, fun m hm => mentionsFrom_identifier _ hm⟩
  · exact ⟨.cons rfl, fun _ _ => rfl⟩

theorem reads_reference (c : Column) : Reads c.reference (beforeColumns c.table.toList) := by
  have hbare := reads_bare c
  unfold Column.reference
  split
  · rename_i t htable
    obtain ⟨p, i, hpath⟩ := t.exists_referencePath_eq
    have hqualifier : qualifierOf (p ++ [i]) = [.qualifier (p ++ [i])] := if_neg (by simp)
    rw [Table.reference, htable, Option.toList_some, beforeColumns, List.map_singleton, hpath]
    refine ⟨apart_pathTokens p i _, fun m hm => ?_⟩
    rw [List.append_assoc, mentions, mentionsFrom_pathTokens]
    show mentionsFrom false (p ++ [i]) (c.bare ++ m) = _
    unfold Column.bare
    split
    · exact (mentionsFrom_identifier _ hm).trans (congrArg (· ++ mentions m) hqualifier)
    · exact congrArg (· ++ mentions m) hqualifier
  · rename_i htable
    rw [htable]
    exact hbare

theorem reads_projection (c : Column) : Reads c.projection (beforeColumns c.table.toList) := by
  have href := reads_reference c
  unfold Column.projection
  split
  · rename_i aliasName _
    have halias : Reads [.space, .word .named, .space, .identifier aliasName] [] :=
      ⟨.space rfl, fun m hm => mentionsFrom_identifier aliasName hm⟩
    exact href.append_nothing halias
  · exact href

/-- The tables that are named by a sort key. -/
def OrderKey.owners (k : OrderKey) : List Table :=
  if k.column.aliasName = none then k.column.table.toList else []

theorem reads_orderKey (k : OrderKey) : Reads k.tokens (beforeColumns k.owners) := by
  have hdirection : Reads [.space, .word (if k.descending then .descending else .ascending)] [] :=
    ⟨.space rfl, fun m hm => by cases k.descending <;> rfl⟩
  have hshort : Reads k.column.short (beforeColumns k.owners) := by
    unfold Column.short OrderKey.owners
    split
    · rename_i aliasName halias
      rw [halias, if_neg (Option.some_ne_none _)]
      exact ⟨.cons rfl, fun m hm => mentionsFrom_identifier aliasName hm⟩
    · rename_i halias
      rw [if_pos halias]
      exact reads_reference k.column
  exact hshort.append_nothing hdirection

/-! ## Conditions -/

/-- The tables of the columns of a condition, in the order of reading. -/
def Condition.owners (c : Condition) : List Table := c.columns.filterMap (·.table)

theorem reads_values (l : List Datum) :
    Reads (inParens (listed (l.map fun v => [.value v]))) [] := by
  have hvalues : ReadsEach (l.map fun v => [.value v]) [] :=
    .map_nothing fun v _ => ⟨.cons rfl, fun _ _ => rfl⟩
  exact hvalues.listed.inParens

theorem reads_operands (p : Predicate) : Reads p.operands [] := by
  cases p with
  | compare | between | like => exact ⟨.space rfl, fun _ _ => rfl⟩
  | inList negated values => exact ⟨.space rfl, (reads_values values).mentions_append⟩
  | isNull => exact .nil

mutual

theorem reads_condition : ∀ c : Condition, Reads c.tokens (beforeColumns c.owners)
  | .leaf column p => by
    have hoperator : Reads (.space :: .operator p.kind :: p.operands) [] :=
      ⟨.space rfl, (reads_operands p).mentions_append⟩
    have howners : (Condition.leaf column p).owners = column.table.toList := by
      cases h : column.table <;> simp [Condition.owners, Condition.columns, h]
    rw [howners, Condition.tokens]
    exact (reads_reference column).append_nothing hoperator
  | .group c l => by
    rw [Condition.tokens]
    exact ((reads_tokensAll l).connected c).inParens

theorem reads_tokensAll : ∀ l : List Condition, ReadsEach (Condition.tokensAll l)
    (beforeColumns ((Condition.columnsAll l).filterMap (·.table)))
  | [] => .nil
  | c :: l => by
    rw [Condition.tokensAll, Condition.columnsAll, List.filterMap_append, beforeColumns,
      List.map_append]
    exact .cons (reads_condition c) (reads_tokensAll l)

end

theorem owners_columnsAll (l : List Condition) :
    (Condition.columnsAll l).filterMap (·.table) = l.flatMap Condition.owners := by
  induction l with
  | nil => rfl
  | cons c l ih => rw [Condition.columnsAll, List.filterMap_append, ih]; rfl

/-! ## Clauses -/

theorem reads_conditions (l : List Condition) :
    ReadsEach (Condition.clause l) (beforeColumns (l.flatMap Condition.owners)) := by
  rw [← owners_columnsAll]
  cases l with
  | nil => exact .nil
  | cons c l =>
    have hconditions := (reads_tokensAll (c :: l)).connected .and
    exact .singleton ⟨.cons rfl, hconditions.mentions_append⟩

theorem reads_orderBy (l : List OrderKey) :
    ReadsEach (OrderKey.clause l) (beforeColumns (l.flatMap OrderKey.owners)) := by
  have hkeys : ReadsEach (l.map OrderKey.tokens) (beforeColumns (l.flatMap OrderKey.owners)) := by
    rw [beforeColumns, List.map_flatMap]
    exact .map fun k _ => reads_orderKey k
  cases l with
  | nil => exact .nil
  | cons k l => exact .singleton ⟨.cons rfl, hkeys.listed.mentions_append⟩

/-- The tables of the columns of a join, in the order of reading. -/
def Join.owners (j : Join) : List Table :=
  j.left.table :: j.right.table :: j.condition.toList.flatMap Condition.owners

theorem reads_equated {left right : List Token} (hleft : Reads left found)
    (hright : Reads right found') : Reads (equated left right) (found ++ found') := by
  have hequal : Reads [.space, .operator (.comparison .equal), .space] [] :=
    ⟨.space rfl, fun _ _ => rfl⟩
  exact (hleft.append_nothing hequal).append hright

theorem reads_join (j : Join) :
    Reads j.tokens (.introduced j.right.table.referencePath :: beforeColumns j.owners) := by
  have hon : Reads [.space, .word .onEqual, .space] [] := ⟨.space rfl, fun _ _ => rfl⟩
  have hcolumns := reads_equated (reads_reference j.left.column) (reads_reference j.right.column)
  have hcondition : ReadsEach (j.condition.map Condition.tokens).toList
      (beforeColumns (j.condition.toList.flatMap Condition.owners)) := by
    cases j.condition with
    | none => exact .nil
    | some c =>
      rw [Option.toList_some, List.flatMap_singleton]
      exact .singleton (reads_condition c)
  have hjoin := reads_declaration (w := .join j.kind) rfl j.right.table
  exact (hjoin.append_nothing hon).append ((ReadsEach.cons hcolumns hcondition).connected .and)

theorem reads_assignment (a : Assignment) : Reads a.tokens [] := by
  refine reads_equated (reads_bare a.column) ?_
  split <;> exact ⟨.cons rfl, fun _ _ => rfl⟩

/-! ## Expressions -/

theorem reads_select (s : Select) (t : Table) :
    Reads (s.tokens t)
      (beforeColumns (s.columns.flatMap (·.table.toList)) ++
        ([.introduced t.referencePath] ++
          (s.joins.flatMap fun j =>
            .introduced j.right.table.referencePath :: beforeColumns j.owners) ++
          beforeColumns (s.conditions.flatMap Condition.owners) ++
          beforeColumns (s.orderBy.flatMap OrderKey.owners))) := by
  have hfirst : Reads (if s.distinct then [.word .select, .space, .word .distinct, .space]
      else [.word .select, .space]) [] := by
    split <;> exact ⟨.cons rfl, fun _ _ => rfl⟩
  have hcolumns : Reads (if s.columns.isEmpty then [.word .wildcard]
      else listed (s.columns.map Column.projection))
      (beforeColumns (s.columns.flatMap (·.table.toList))) := by
    split
    · rename_i hempty
      rw [List.isEmpty_iff.mp hempty]
      exact ⟨.cons rfl, fun _ _ => rfl⟩
    · rw [beforeColumns, List.map_flatMap]
      exact (ReadsEach.map fun c _ => reads_projection c).listed
  have hpaging : Reads [.paging s.limit s.offset] [] := ⟨.cons rfl, fun _ _ => rfl⟩
  have htable := reads_declaration (w := .word .fromTable) rfl t
  have hjoins := ReadsEach.map (l := s.joins) fun j _ => reads_join j
  have hrest := (((ReadsEach.singleton htable).append hjoins).append
    (reads_conditions s.conditions)).append (reads_orderBy s.orderBy)
  have hall := (ReadsEach.cons (hfirst.append hcolumns) hrest).clauses.append_nothing hpaging
  cases hdistinct : s.distinct <;> simpa [Select.tokens, hdistinct] using hall

theorem reads_insert (s : Insert) (t : Table) :
    Reads (s.tokens t) [.introduced t.qualifiedPath] := by
  have htable := reads_qualified (w := .word .insertInto) rfl t
  have hcolumns : Reads (inParens (listed (s.columns.map Column.bare))) [] :=
    (ReadsEach.map_nothing fun c _ => reads_bare c).listed.inParens
  have hrows : Reads (listed (s.rows.map fun row =>
      inParens (listed (row.map fun v => [.value v])))) [] :=
    (ReadsEach.map_nothing fun row _ => reads_values row).listed
  have hspace : Reads (.space :: inParens (listed (s.columns.map Column.bare))) [] :=
    ⟨.space rfl, hcolumns.mentions_append⟩
  have hvalues : Reads (.word .values :: .space :: listed (s.rows.map fun row =>
      inParens (listed (row.map fun v => [.value v])))) [] :=
    ⟨.cons rfl, hrows.mentions_append⟩
  exact (ReadsEach.cons (htable.append_nothing hspace) (.singleton hvalues)).clauses

theorem reads_update (s : Update) (t : Table) :
    Reads (s.tokens t)
      (.introduced t.qualifiedPath :: beforeColumns (s.conditions.flatMap Condition.owners)) := by
  have htable := reads_qualified (w := .word .update) rfl t
  have hassignments : Reads (listed (s.assignments.map Assignment.tokens)) [] :=
    (ReadsEach.map_nothing fun a _ => reads_assignment a).listed
  have hset : Reads (.word .setTo :: .space :: listed (s.assignments.map Assignment.tokens)) [] :=
    ⟨.cons rfl, hassignments.mentions_append⟩
  exact (ReadsEach.cons htable (.cons hset (reads_conditions s.conditions))).clauses

theorem reads_delete (s : Delete) :
    Reads s.tokens (.introduced s.table.qualifiedPath ::
      beforeColumns (s.conditions.flatMap Condition.owners)) := by
  have htable := reads_qualified (w := .word .deleteFrom) rfl s.table
  exact (ReadsEach.cons htable (reads_conditions s.conditions)).clauses

/-! ## Names -/

theorem introduced_beforeColumns (l : List Table) :
    (beforeColumns l).filterMap Mention.introduced? = [] := by
  rw [beforeColumns, List.filterMap_map]
  exact List.filterMap_eq_nil_iff.mpr fun _ _ => rfl

theorem qualifier_beforeColumns (l : List Table) :
    (beforeColumns l).filterMap Mention.qualifier? = l.map (·.referencePath) := by
  rw [beforeColumns, List.filterMap_map]
  exact List.filterMap_eq_map' (f := Table.referencePath) ▸ rfl

namespace Expression

/-- The tables that an expression is about, in the order in which it introduces them. -/
def tables : Expression → List Table
  | .select s => s.tables
  | .insert s => s.target.toOption.toList
  | .update s => s.target.toOption.toList
  | .delete s => [s.table]

/-- The tables of the columns that are written after a table if they have one, in the order of
reading. -/
def owners : Expression → List Table
  | .select s =>
    s.columns.flatMap (·.table.toList) ++ s.joins.flatMap Join.owners
      ++ s.conditions.flatMap Condition.owners ++ s.orderBy.flatMap OrderKey.owners
  | .insert _ => []
  | .update s => s.conditions.flatMap Condition.owners
  | .delete s => s.conditions.flatMap Condition.owners

/-- The name under which an expression introduces a table. Only queries write the alias. -/
def introducedName (t : Table) : Expression → List Identifier
  | .select _ => t.referencePath
  | _ => t.qualifiedPath

variable {x : Expression} {d : Dialect} {statement : Statement}

theorem names_of_build (h : x.build d = .ok statement) :
    introducedNames x.tokens = x.tables.map (introducedName · x) ∧
      qualifiers x.tokens = x.owners.map (·.referencePath) := by
  have hone : ∀ (name : List Identifier) (l : List Table),
      (Mention.introduced name :: beforeColumns l).filterMap Mention.introduced? = [name] ∧
        (Mention.introduced name :: beforeColumns l).filterMap Mention.qualifier? =
          l.map (·.referencePath) := fun name l =>
    ⟨congrArg (name :: ·) (introduced_beforeColumns l), qualifier_beforeColumns l⟩
  unfold introducedNames qualifiers
  cases x with
  | select s =>
    obtain ⟨t, htable, -⟩ := s.eq_of_build h
    rw [tokens, tables, Select.tables, owners, htable, Option.map_some, Option.getD_some,
      (reads_select s t).mentions_eq]
    simp only [List.filterMap_append, List.filterMap_flatMap, hone, introduced_beforeColumns,
      qualifier_beforeColumns]
    simp [introducedName, Mention.introduced?, Mention.qualifier?, List.map_flatMap,
      ← List.map_eq_flatMap]
  | insert s =>
    obtain ⟨t, htarget, -⟩ := s.eq_of_build h
    have htokens : (Expression.insert s).tokens = s.tokens t := by rw [tokens, htarget]; rfl
    rw [htokens, (reads_insert s t).mentions_eq, tables, htarget]
    exact ⟨rfl, rfl⟩
  | update s =>
    obtain ⟨t, htarget, -⟩ := s.eq_of_build h
    have htokens : (Expression.update s).tokens = s.tokens t := by rw [tokens, htarget]; rfl
    rw [htokens, (reads_update s t).mentions_eq, tables, htarget]
    exact hone _ _
  | delete s =>
    rw [tokens, (reads_delete s).mentions_eq]
    exact hone _ _

end Expression

/-- A table whose alias, if it has one, is no other name than its own. -/
def Table.UnderOwnName (t : Table) : Prop :=
  ∀ i, t.alias? = some i → t.name? = none ∨ (t.schema = none ∧ t.name? = some i)

theorem Table.referencePath_eq_qualifiedPath_iff {t : Table} :
    t.referencePath = t.qualifiedPath ↔ t.UnderOwnName := by
  rcases t with ⟨schema, ⟨name, _ | aliasName⟩ | aliasName⟩
  · simp [UnderOwnName, referencePath, alias?]
  · cases schema <;>
      simp [UnderOwnName, referencePath, qualifiedPath, alias?, name?, eq_comm]
  · simp [UnderOwnName, referencePath, qualifiedPath, alias?, name?]

/-- In every dialect, what stands before columns stands there for the tables that these belong to, one
after the other. If the expression introduces the table of a column, then what stands before the
column is the name under which it does so, exactly if the expression is a query, or the table has no
other alias than its own name. -/
theorem qualifiers_are_introduced {x : Expression} {d : Dialect} {statement : Statement}
    (h : x.build d = .ok statement) :
    ∃ l, statement = .ofTokens d l ∧
      (introducedNames l).length = x.tables.length ∧ (qualifiers l).length = x.owners.length ∧
      ∀ (j k : Nat) (t : Table), x.tables[j]? = some t → x.owners[k]? = some t →
        ((qualifiers l)[k]? = (introducedNames l)[j]? ↔ (∃ s, x = .select s) ∨ t.UnderOwnName) := by
  obtain ⟨hintroduced, hqualifiers⟩ := Expression.names_of_build h
  refine ⟨x.tokens, Expression.eq_ofTokens_of_build h, by rw [hintroduced, List.length_map],
    by rw [hqualifiers, List.length_map], fun j k t hj hk => ?_⟩
  rw [hintroduced, hqualifiers, List.getElem?_map, List.getElem?_map, hj, hk, Option.map_some,
    Option.map_some, Option.some_inj]
  cases x with
  | select s => exact iff_of_true rfl (Or.inl ⟨s, rfl⟩)
  | insert s => cases hk
  | update | delete =>
    rw [or_iff_right (by rintro ⟨s, hs⟩; cases hs)]
    exact Table.referencePath_eq_qualifiedPath_iff

/-- Orders are joined under their alias, and users under their name. -/
theorem someOrders_qualifiers :
    ∃ statement, (Expression.select someOrders).build .postgres = .ok statement ∧
      ∃ l, statement = .ofTokens .postgres l ∧ (introducedNames l).length = 2 ∧
        (qualifiers l)[0]? = (introducedNames l)[0]? ∧
        (qualifiers l)[1]? = (introducedNames l)[1]? := by
  have hbuild : (Expression.select someOrders).build .postgres =
      .ok (.ofTokens .postgres (someOrders.tokens orders)) := someOrders.build_eq .postgres
  obtain ⟨l, hl, hlength, -, hnames⟩ := qualifiers_are_introduced hbuild
  exact ⟨_, hbuild, l, hl, hlength, (hnames 0 0 orders rfl rfl).mpr (Or.inl ⟨_, rfl⟩),
    (hnames 1 1 users rfl rfl).mpr (Or.inl ⟨_, rfl⟩)⟩

/-- An update of orders, by a condition on one of their columns. -/
def raisedOrders : Update where
  assignments := [⟨orderTotal, some (.integer 2), rfl⟩]
  conditions := [.compare .equal orderTotal (.integer 1)]

def removedOrders : Delete where
  table := orders
  conditions := [.compare .equal orderTotal (.integer 1)]

theorem aliases_not_introduced :
    ((Expression.update raisedOrders).build .generic).map (·.text) =
        .ok "UPDATE Orders\nSET Total = @p0\nWHERE o.Total = @p1" ∧
      (introducedNames (Expression.update raisedOrders).tokens).map (·.map (·.text)) =
        [["Orders"]] ∧
      (qualifiers (Expression.update raisedOrders).tokens).map (·.map (·.text)) = [["o"]] ∧
    ((Expression.delete removedOrders).build .generic).map (·.text) =
        .ok "DELETE FROM Orders\nWHERE o.Total = @p0" ∧
      (introducedNames (Expression.delete removedOrders).tokens).map (·.map (·.text)) =
        [["Orders"]] ∧
      (qualifiers (Expression.delete removedOrders).tokens).map (·.map (·.text)) = [["o"]] :=
  ⟨by decide +kernel, rfl, rfl, by decide +kernel, rfl, rfl⟩

end EventStore.Sql
