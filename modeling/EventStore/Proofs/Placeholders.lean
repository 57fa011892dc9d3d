import EventStore.Proofs.Phrases

/-!
# The placeholders in the text of a statement

A placeholder is read from a text as a mark and the letters and digits after it. The words of a
dialect have no marks, so if no identifier has one, all placeholders are markers of parameters.

Proved here, for every dialect that has a name:

* `placeholders_spellAll`: the placeholders in the text of a phrase are the markers of its values;
* `placeholders_follow_values`: the placeholders of a statement are the markers of its parameters,
  each once and in order, and its values are those of the expression in the order of reading.
-/

namespace EventStore.Sql

open Text

/-! ## Reading placeholders -/

/-- A character that a placeholder starts with. -/
def IsMark (c : Char) : Prop := c = '@' ∨ c = '$'

instance (c : Char) : Decidable (IsMark c) := inferInstanceAs (Decidable (_ ∨ _))

/-- Each mark in a text, with the letters and digits after it. -/
def placeholdersIn : List Char → List (List Char)
  | [] => []
  | c :: l =>
    if IsMark c then (c :: l.takeWhile Char.isAlphanum) :: placeholdersIn l else placeholdersIn l

/-- The placeholders in the text of a statement, from left to right. -/
def Statement.placeholders (s : Statement) : List String :=
  (placeholdersIn s.text.toList).map String.ofList

/-- A text without marks. -/
def Unmarked (l : List Char) : Prop := ∀ c ∈ l, ¬IsMark c

instance (l : List Char) : Decidable (Unmarked l) := List.decidableBAll _ l

/-- A text that no placeholder goes on with. -/
def Breaks (l : List Char) : Prop := ∀ c ∈ l.head?, c.isAlphanum = false

theorem breaks_nil : Breaks [] := fun _ h => absurd h (by simp)

theorem unmarked_append {l m : List Char} (hl : Unmarked l) (hm : Unmarked m) :
    Unmarked (l ++ m) := by
  intro c hc
  rcases List.mem_append.mp hc with hc | hc
  · exact hl c hc
  · exact hm c hc

theorem unmarked_of_isAlphanum {l : List Char} (h : ∀ c ∈ l, c.isAlphanum = true) :
    Unmarked l := by
  rintro c hc (rfl | rfl)
  · exact absurd (h _ hc) (by decide)
  · exact absurd (h _ hc) (by decide)

theorem isAlphanum_decimal (n : Nat) : ∀ c ∈ decimal n, c.isAlphanum = true := by
  intro c hc
  rw [Char.isAlphanum, decimal_isDigit n c hc, Bool.or_true]

theorem placeholdersIn_unmarked_append {l : List Char} (hl : Unmarked l) (m : List Char) :
    placeholdersIn (l ++ m) = placeholdersIn m := by
  induction l with
  | nil => rfl
  | cons c l ih =>
    rw [List.cons_append, placeholdersIn, if_neg (hl c List.mem_cons_self)]
    exact ih fun c hc => hl c (List.mem_cons_of_mem _ hc)

theorem placeholdersIn_cons_append {c : Char} (hc : IsMark c) {l : List Char}
    (hl : ∀ c ∈ l, c.isAlphanum = true) {m : List Char} (hm : Breaks m) :
    placeholdersIn (c :: l ++ m) = (c :: l) :: placeholdersIn m := by
  have hbreak : m.takeWhile Char.isAlphanum = [] := by
    cases m with
    | nil => rfl
    | cons d m => rw [List.takeWhile_cons_of_neg]; simp [hm d rfl]
  rw [List.cons_append, placeholdersIn, if_pos hc, List.takeWhile_append_of_pos hl, hbreak,
    List.append_nil, placeholdersIn_unmarked_append (unmarked_of_isAlphanum hl)]

/-! ## Markers -/

variable (k : DialectKind) (n : Nat)

theorem marker_toList :
    (k.dialect.marker n).toList =
      match k with
      | .postgres => '$' :: decimal (n + 1)
      | _ => '@' :: 'p' :: decimal n := by
  cases k <;> simp [DialectKind.dialect, Dialect.generic, Dialect.sqlServer, Dialect.postgres,
    parameterName, decimalText]

theorem exists_marker_eq :
    ∃ c l, (k.dialect.marker n).toList = c :: l ∧ IsMark c ∧ ∀ c ∈ l, c.isAlphanum = true := by
  have hnamed : ∀ c ∈ 'p' :: decimal n, c.isAlphanum = true :=
    List.forall_mem_cons.mpr ⟨rfl, isAlphanum_decimal n⟩
  rw [marker_toList]
  cases k with
  | generic => exact ⟨'@', _, rfl, by decide, hnamed⟩
  | sqlServer => exact ⟨'@', _, rfl, by decide, hnamed⟩
  | postgres => exact ⟨'$', _, rfl, by decide, isAlphanum_decimal (n + 1)⟩

theorem marker_injective : Function.Injective k.dialect.marker := by
  intro i j h
  have hdecimal : Function.Injective decimal := Function.LeftInverse.injective ofDigits_decimal
  have hlist := congrArg String.toList h
  rw [marker_toList, marker_toList] at hlist
  cases k with
  | generic => exact hdecimal (List.cons.inj (List.cons.inj hlist).2).2
  | sqlServer => exact hdecimal (List.cons.inj (List.cons.inj hlist).2).2
  | postgres => exact Nat.succ.inj (hdecimal (List.cons.inj hlist).2)

/-! ## The spelling of other tokens -/

theorem unmarked_word (w : Word) : Unmarked (k.dialect.word w).toList := by
  have hword : k.dialect.word w = w.usual := by cases k <;> rfl
  rw [hword]
  cases w <;> decide

theorem unmarked_operator (o : OperatorKind) :
    Unmarked ((k.dialect.operator o).getD o.usual).toList := by
  have hoperator : (k.dialect.operator o).getD o.usual = o.usual := by
    cases k <;> cases o <;> rfl
  rw [hoperator]
  cases o with
  | comparison c => cases c <;> decide
  | _ => decide

theorem unmarked_connective (c : Connective) :
    Unmarked ((k.dialect.connective c).getD c.tag).toList := by
  cases k <;> cases c <;> decide

theorem unmarked_join (j : JoinKind) : Unmarked ((k.dialect.join j).getD "JOIN").toList := by
  cases k <;> cases j <;> decide

theorem mem_doubled {quote l : List Char} {c : Char} (h : c ∈ doubled quote l) :
    c ∈ quote ∨ c ∈ l := by
  fun_induction doubled quote l with
  | case1 => exact Or.inr h
  | case2 d l hquote ih =>
    rcases List.mem_append.mp h with h | h
    · rcases List.mem_append.mp h with h | h <;> exact Or.inl h
    · exact (ih h).imp_right fun h => List.mem_cons_of_mem _ (List.mem_of_mem_drop h)
  | case3 d l hquote ih =>
    rcases List.mem_cons.mp h with rfl | h
    · exact Or.inr List.mem_cons_self
    · exact (ih h).imp_right (List.mem_cons_of_mem _)

theorem unmarked_quote {s : List Char} (hs : Unmarked s) : Unmarked (k.dialect.quote s) := by
  have hopen : Unmarked k.dialect.openQuote.toList := by cases k <;> decide
  have hclose : Unmarked k.dialect.closeQuote.toList := by cases k <;> decide
  refine unmarked_append (unmarked_append hopen fun c hc => ?_) hclose
  exact (mem_doubled hc).elim (hclose c) (hs c)

/-- A word before a number. -/
theorem unmarked_number {s : String} (hs : Unmarked s.toList) (n : Nat) :
    Unmarked (s ++ decimalText n).toList := by
  rw [String.toList_append, decimalText, String.toList_ofList]
  exact unmarked_append hs (unmarked_of_isAlphanum (isAlphanum_decimal n))

theorem unmarked_usualPaging {limit offset : Option Nat} {s : String}
    (h : usualPaging limit offset = some s) : Unmarked s.toList := by
  have hlimit := unmarked_number (s := "LIMIT ") (by decide)
  have hoffset := unmarked_number (s := "OFFSET ") (by decide)
  cases limit with
  | none =>
    cases offset with
    | none => cases h
    | some offset => exact Option.some.inj h ▸ hoffset offset
  | some limit =>
    cases offset with
    | none => exact Option.some.inj h ▸ hlimit limit
    | some offset =>
      rw [← Option.some.inj h]
      refine unmarked_number ?_ offset
      rw [String.toList_append]
      exact unmarked_append (hlimit limit) (by decide)

theorem unmarked_paging {limit offset : Option Nat} {s : String}
    (h : k.dialect.paging limit offset = some s) : Unmarked s.toList := by
  cases k with
  | generic => exact unmarked_usualPaging h
  | postgres => exact unmarked_usualPaging h
  | sqlServer =>
    have hskip : Unmarked ("OFFSET " ++ decimalText (offset.getD 0) ++ " ROWS").toList := by
      rw [String.toList_append]
      exact unmarked_append (unmarked_number (by decide) _) (by decide)
    simp only [DialectKind.dialect, Dialect.sqlServer] at h
    split at h
    · cases h
    · rw [← Option.some.inj h]
      cases limit with
      | none => exact hskip
      | some limit =>
        rw [String.toList_append]
        refine unmarked_append (unmarked_number ?_ limit) (by decide)
        rw [String.toList_append]
        exact unmarked_append hskip (by decide)

/-- A token that is no value has a spelling without marks. -/
theorem unmarked_spell {t : Token} (hvalue : ∀ v, t ≠ .value v)
    (hidentifier : ∀ i, t = .identifier i → Unmarked i.text.toList) :
    Unmarked (k.dialect.spell n t) := by
  cases t with
  | word w => exact unmarked_word k w
  | identifier i => exact unmarked_quote k (hidentifier i rfl)
  | operator o => exact unmarked_operator k o
  | connective c => exact unmarked_connective k c
  | join j => exact unmarked_join k j
  | value v => exact absurd rfl (hvalue v)
  | paging limit offset =>
    rw [Dialect.spell]
    cases hpaging : k.dialect.paging limit offset with
    | none => exact fun c hc => absurd hc List.not_mem_nil
    | some s => exact unmarked_append (unmarked_word k .clauseSeparator) (unmarked_paging k hpaging)
  | space => exact List.forall_mem_singleton.mpr (by decide)
  | leftParen => exact List.forall_mem_singleton.mpr (by decide)
  | rightParen => exact List.forall_mem_singleton.mpr (by decide)

theorem breaks_cons_append {c : Char} (hc : c.isAlphanum = false) (l m : List Char) :
    Breaks (c :: l ++ m) :=
  fun _ hmem => Option.some.inj hmem ▸ hc

theorem breaks_spell_append {t : Token} (ht : t.Parts) (m : List Char) :
    Breaks (k.dialect.spell n t ++ m) := by
  have hword : ∀ w : Word, (k.dialect.word w).toList = w.usual.toList := by
    intro w
    cases k <;> rfl
  cases t with
  | space => exact breaks_cons_append (by decide) [] m
  | rightParen => exact breaks_cons_append (by decide) [] m
  | word w =>
    rw [Dialect.spell, hword]
    cases w with
    | identifierSeparator => exact breaks_cons_append (by decide) [] m
    | listSeparator => exact breaks_cons_append (by decide) [' '] m
    | clauseSeparator => exact breaks_cons_append (by decide) [] m
    | _ => exact ht.elim
  | _ => exact ht.elim

/-- A clause that may be empty starts with a separator if it is not. -/
theorem breaks_paging (limit offset : Option Nat) :
    Breaks (k.dialect.spell n (.paging limit offset)) := by
  rw [Dialect.spell]
  cases k.dialect.paging limit offset with
  | none => exact breaks_nil
  | some s => exact breaks_spell_append k n (t := .word .clauseSeparator) trivial _

/-! ## Phrases -/

/-- The markers of so many parameters, from the given position. -/
def markers (n count : Nat) : List (List Char) :=
  (List.range' n count).map fun i => (k.dialect.marker i).toList

theorem breaks_spellAll_append {l : List Token} (hl : Parted l) {m : List Char} (hm : Breaks m) :
    Breaks (k.dialect.spellAll n l ++ m) := by
  cases l with
  | nil => exact hm
  | cons t l =>
    have ht : t.Parts := hl
    rw [spellAll_cons _ n (by rintro v rfl; exact ht), List.append_assoc]
    exact breaks_spell_append k n ht _

/-- The placeholders in the text of a phrase are the markers of its values. -/
theorem placeholders_spellAll {l : List Token}
    (hl : Phrase (fun i => Unmarked i.text.toList) l) {m : List Char} (hm : Breaks m) :
    placeholdersIn (k.dialect.spellAll n l ++ m) =
      markers k n (tokenValues l).length ++ placeholdersIn m := by
  induction l generalizing n with
  | nil => rfl
  | cons t l ih =>
    obtain ⟨hfits, hrest⟩ := hl
    rcases t.value_or_ne with ⟨v, rfl⟩ | hvalue
    · -- the marker ends where the rest of the phrase begins
      have hbreaks := breaks_spellAll_append k (n + 1) hfits hm
      obtain ⟨c, word, hmarker, hc, hword⟩ := exists_marker_eq k n
      rw [Dialect.spellAll, List.append_assoc, Dialect.spell, tokenValues_cons_value, hmarker,
        placeholdersIn_cons_append hc hword hbreaks, ih (n + 1) hrest, ← hmarker]
      rfl
    · have hspell : Unmarked (k.dialect.spell n t) :=
        unmarked_spell k n hvalue fun i hi => by rw [hi] at hfits; exact hfits.1
      rw [spellAll_cons _ n hvalue, List.append_assoc, placeholdersIn_unmarked_append hspell,
        tokenValues_cons t l hvalue, ih n hrest]

/-! ## Expressions -/

inductive Expression where
  | select (s : Select)
  | insert (s : Insert)
  | update (s : Update)
  | delete (s : Delete)

namespace Expression

def build (d : Dialect) : Expression → Except SqlError Statement
  | .select s => s.build d
  | .insert s => s.build d
  | .update s => s.build d
  | .delete s => s.build d

/-- The identifiers of the tables, the columns and their aliases. -/
def identifiers : Expression → List Identifier
  | .select s => s.identifiers
  | .insert s => s.identifiers
  | .update s => s.identifiers
  | .delete s => s.identifiers

/-- The values in the order of reading. -/
def values : Expression → List Datum
  | .select s => s.values
  | .insert s => s.values
  | .update s => s.values
  | .delete s => s.values

/-- What an expression is written with. It is empty if there is no table to write to. -/
def tokens : Expression → List Token
  | .select s => (s.table.map s.tokens).getD []
  | .insert s => (s.target.toOption.map s.tokens).getD []
  | .update s => (s.target.toOption.map s.tokens).getD []
  | .delete s => s.tokens

theorem eq_ofTokens_of_build {x : Expression} {d : Dialect} {statement : Statement}
    (h : x.build d = .ok statement) : statement = .ofTokens d x.tokens := by
  cases x with
  | select s =>
    obtain ⟨t, htable, rfl⟩ := s.eq_of_build h
    rw [tokens, htable]
    rfl
  | insert s =>
    obtain ⟨t, htarget, rfl⟩ := s.eq_of_build h
    rw [tokens, htarget]
    rfl
  | update s =>
    obtain ⟨t, htarget, rfl⟩ := s.eq_of_build h
    rw [tokens, htarget]
    rfl
  | delete s => exact s.eq_of_build h

/-- The tokens of an expression are a phrase, and perhaps a clause that limits the rows. -/
theorem tokens_of_build {x : Expression} {d : Dialect} {statement : Statement}
    (h : x.build d = .ok statement) {P : Identifier → Prop} (hx : ∀ i ∈ x.identifiers, P i) :
    ∃ l paging, x.tokens = l ++ paging ∧ Phrase P l ∧
      (paging = [] ∨ ∃ limit offset, paging = [.paging limit offset]) ∧
      tokenValues x.tokens = x.values := by
  cases x with
  | select s =>
    obtain ⟨t, htable, -⟩ := s.eq_of_build h
    obtain ⟨l, htokens, hl⟩ := phrase_select htable hx
    rw [tokens, htable]
    exact ⟨l, _, htokens, hl, Or.inr ⟨_, _, rfl⟩, tokenValues_select s t⟩
  | insert s =>
    obtain ⟨t, htarget, -⟩ := s.eq_of_build h
    rw [tokens, htarget]
    exact ⟨s.tokens t, [], (List.append_nil _).symm, phrase_insert htarget hx, Or.inl rfl,
      tokenValues_insert s t⟩
  | update s =>
    obtain ⟨t, htarget, -⟩ := s.eq_of_build h
    rw [tokens, htarget]
    exact ⟨s.tokens t, [], (List.append_nil _).symm, phrase_update htarget hx, Or.inl rfl,
      tokenValues_update s t⟩
  | delete s =>
    exact ⟨s.tokens, [], (List.append_nil _).symm, phrase_delete hx, Or.inl rfl,
      tokenValues_delete s⟩

/-- A statement is a phrase, and perhaps a clause that limits the rows. -/
theorem exists_tokens_of_build {x : Expression} {d : Dialect} {statement : Statement}
    (h : x.build d = .ok statement) {P : Identifier → Prop} (hx : ∀ i ∈ x.identifiers, P i) :
    ∃ l paging, statement = .ofTokens d (l ++ paging) ∧ Phrase P l ∧
      (paging = [] ∨ ∃ limit offset, paging = [.paging limit offset]) ∧
      tokenValues (l ++ paging) = x.values := by
  obtain ⟨l, paging, htokens, hl, hpaging, hvalues⟩ := tokens_of_build h hx
  exact ⟨l, paging, htokens ▸ eq_ofTokens_of_build h, hl, hpaging, htokens ▸ hvalues⟩

end Expression

/-- What limits the rows has no placeholders. -/
theorem placeholdersIn_paging {paging : List Token}
    (h : paging = [] ∨ ∃ limit offset, paging = [.paging limit offset]) :
    Breaks (k.dialect.spellAll n paging) ∧ placeholdersIn (k.dialect.spellAll n paging) = [] ∧
      tokenValues paging = [] := by
  rcases h with rfl | ⟨limit, offset, rfl⟩
  · exact ⟨breaks_nil, rfl, rfl⟩
  · have hspell : k.dialect.spellAll n [.paging limit offset] =
        k.dialect.spell n (.paging limit offset) := List.append_nil _
    have hunmarked := unmarked_spell k n (t := .paging limit offset) (by simp) (by simp)
    refine ⟨hspell ▸ breaks_paging k n limit offset, ?_, rfl⟩
    exact placeholdersIn_unmarked_append hunmarked []

theorem Statement.placeholders_ofTokens {l paging : List Token}
    (hl : Phrase (fun i => Unmarked i.text.toList) l)
    (hpaging : paging = [] ∨ ∃ limit offset, paging = [.paging limit offset]) :
    (Statement.ofTokens k.dialect (l ++ paging)).placeholders =
      (List.range (tokenValues (l ++ paging)).length).map k.dialect.marker := by
  obtain ⟨hbreaks, hnone, hvalues⟩ :=
    placeholdersIn_paging k (0 + (tokenValues l).length) hpaging
  rw [placeholders, ofTokens, String.toList_ofList, spellAll_append,
    placeholders_spellAll k 0 hl hbreaks, hnone, List.append_nil, tokenValues_append, hvalues,
    List.append_nil, markers, List.range_eq_range', List.map_map]
  exact List.map_congr_left fun i _ => String.ofList_toList

theorem Statement.parameters_ofTokens (d : Dialect) (l : List Token) :
    (Statement.ofTokens d l).parameters.map (·.name) =
      (List.range (tokenValues l).length).map d.parameter := by
  rw [ofTokens, List.mapIdx_eq_zipIdx_map, List.map_map, List.range_eq_range',
    ← List.zipIdx_map_snd, List.map_map]
  rfl

theorem Statement.names_ofTokens (k : DialectKind) (l : List Token) :
    (Statement.ofTokens k.dialect l).parameters.map (·.name) =
      (List.range (tokenValues l).length).map parameterName := by
  have hparameter : k.dialect.parameter = parameterName := by cases k <;> rfl
  rw [parameters_ofTokens, hparameter]

/-- The placeholders in the text of a statement are the markers of its parameters, each once and in
order; and its values are those of the expression, in the order of reading. -/
theorem placeholders_follow_values (x : Expression)
    (hx : ∀ i ∈ x.identifiers, Unmarked i.text.toList) {statement : Statement}
    (h : x.build k.dialect = .ok statement) :
    statement.placeholders =
        (List.range statement.parameters.length).map k.dialect.marker ∧
      statement.placeholders.Nodup ∧
      statement.parameters.map (·.name) =
        (List.range statement.parameters.length).map parameterName ∧
      statement.values = x.values := by
  obtain ⟨l, paging, rfl, hl, hpaging, hvalues⟩ := Expression.exists_tokens_of_build h hx
  have hcount : (Statement.ofTokens k.dialect (l ++ paging)).parameters.length =
      (tokenValues (l ++ paging)).length := List.length_mapIdx
  have hplaceholders := Statement.placeholders_ofTokens k hl hpaging
  rw [hcount]
  refine ⟨hplaceholders, ?_, Statement.names_ofTokens _ _, ?_⟩
  · rw [hplaceholders]
    exact List.nodup_range.map (marker_injective k)
  · rw [Statement.values_ofTokens, hvalues]

def orders : Table :=
  ⟨none, .named ⟨"Orders", by decide, by decide⟩ (some ⟨"o", by decide, by decide⟩)⟩

def users : Table := ⟨none, .named ⟨"Users", by decide, by decide⟩ none⟩

def userId : QualifiedColumn := ⟨⟨"Id", by decide, by decide⟩, users, none⟩

def orderUser : QualifiedColumn := ⟨⟨"User", by decide, by decide⟩, orders, none⟩

def orderTotal : Column := ⟨some ⟨"Total", by decide, by decide⟩, some orders, none⟩

/-- A query with values in a join, in a group and in a list. -/
def someOrders : Select where
  table := some orders
  joins := [⟨.inner, orderUser, userId, some (.compare .greater userId.column (.integer 7))⟩]
  conditions :=
    [.group .or
      [.leaf orderTotal (.between false (.integer 5) (.integer 9)),
       .leaf orderUser.column (.like false false "a%"), .leaf orderTotal (.isNull false)],
     .inList orderTotal [.integer 1, .null]]
  limit := some 3

theorem someOrders_placeholders :
    ∃ statement, (Expression.select someOrders).build Dialect.postgres = .ok statement ∧
      statement.placeholders = (List.range 6).map Dialect.postgres.marker ∧
      statement.values =
        [.integer 7, .integer 5, .integer 9, .text "a%", .integer 1, .null] := by
  have hbuild : (Expression.select someOrders).build Dialect.postgres =
      .ok (.ofTokens .postgres (someOrders.tokens orders)) := someOrders.build_eq .postgres
  obtain ⟨hplaceholders, -, -, hvalues⟩ :=
    placeholders_follow_values .postgres (.select someOrders) (by decide) hbuild
  exact ⟨_, hbuild, hplaceholders, hvalues⟩

end EventStore.Sql
