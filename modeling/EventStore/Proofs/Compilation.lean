import EventStore.Proofs.TokenValues

/-!
# The compiler writes tokens

The compiler puts texts together part by part and numbers values as it meets them. The tokens of an
expression say nothing of this order: they are what is read from left to right. Proved here is that
both descriptions agree. Each function of the compiler, run when parameters have been bound to any
values, writes the tokens of its argument as they are spelled after these values, and binds the
values among the tokens, in their order.

* `spellAll_append`, `spellAll_separated`: how sequences of tokens are spelled part by part;
* `writes_condition`, `writes_join`, `writes_assignment`, `writes_row`: the parts of statements, by
  recursion over a condition;
* `Select.build_eq`, `Insert.build_eq`, `Update.build_eq`, `Delete.build_eq`: an expression is
  compiled to the statement of its tokens, unless a check fails, and then for that reason.
-/

namespace EventStore.Sql

/-! ## Spelling -/

theorem spellAll_cons (d : Dialect) (n : Nat) {t : Token} (ht : ∀ v, t ≠ .value v)
    (l : List Token) : d.spellAll n (t :: l) = d.spell n t ++ d.spellAll n l := by
  cases t with
  | value v => exact absurd rfl (ht v)
  | _ => rfl

theorem Token.value_or_ne (t : Token) : (∃ v, t = .value v) ∨ ∀ v, t ≠ .value v := by
  cases t with
  | value v => exact Or.inl ⟨v, rfl⟩
  | _ => exact Or.inr (by simp)

theorem spellAll_append (d : Dialect) (n : Nat) (l m : List Token) :
    d.spellAll n (l ++ m) = d.spellAll n l ++ d.spellAll (n + (tokenValues l).length) m := by
  induction l generalizing n with
  | nil => rfl
  | cons t l ih =>
    rcases t.value_or_ne with ⟨v, rfl⟩ | hvalue
    · have hcount : n + (v :: tokenValues l).length = n + 1 + (tokenValues l).length := by
        rw [List.length_cons]
        omega
      rw [List.cons_append, Dialect.spellAll, ih, tokenValues_cons_value, hcount,
        ← List.append_assoc]
      rfl
    · rw [List.cons_append, spellAll_cons d n hvalue, spellAll_cons d n hvalue, ih,
        tokenValues_cons t l hvalue, List.append_assoc]

/-- Only values are spelled by their place. -/
theorem spell_eq_of_ne (d : Dialect) (m n : Nat) {t : Token} (h : ∀ v, t ≠ .value v) :
    d.spell m t = d.spell n t := by
  cases t <;> first | rfl | exact absurd rfl (h _)

section Phrases

variable (d : Dialect) (n : Nat)

/-- Tokens without values are spelled the same everywhere. -/
theorem spellAll_of_no_values {l : List Token} (h : tokenValues l = []) :
    d.spellAll n l = d.spellAll 0 l := by
  induction l with
  | nil => rfl
  | cons t l ih =>
    rcases t.value_or_ne with ⟨v, rfl⟩ | ht
    · rw [tokenValues_cons_value] at h
      cases h
    · rw [tokenValues_cons t l ht] at h
      rw [spellAll_cons d n ht, spellAll_cons d 0 ht, ih h, spell_eq_of_ne d n 0 ht]

/-- An append whose first part has no values. -/
theorem spellAll_append_of_no_values {l : List Token} (h : tokenValues l = []) (m : List Token) :
    d.spellAll n (l ++ m) = d.spellAll 0 l ++ d.spellAll n m := by
  rw [spellAll_append, h, spellAll_of_no_values d n h]
  rfl

theorem spellEach_append (ls ms : List (List Token)) :
    d.spellEach n (ls ++ ms) =
      d.spellEach n ls ++ d.spellEach (n + (ls.flatMap tokenValues).length) ms := by
  induction ls generalizing n with
  | nil => rfl
  | cons l ls ih =>
    rw [List.cons_append, Dialect.spellEach, Dialect.spellEach, ih, List.flatMap_cons,
      List.length_append, Nat.add_assoc, List.cons_append]

theorem spellAll_separated {separator : List Token} (hsep : tokenValues separator = [])
    (ls : List (List Token)) :
    d.spellAll n (separated separator ls) =
      (d.spellAll 0 separator).intercalate (d.spellEach n ls) := by
  induction ls generalizing n with
  | nil => rfl
  | cons l ls ih =>
    cases ls with
    | nil => rw [separated_singleton, Dialect.spellEach, Dialect.spellEach,
        List.intercalate_singleton]
    | cons l' ls =>
      rw [separated_cons_cons, spellAll_append, spellAll_append_of_no_values d _ hsep, ih,
        Dialect.spellEach]
      simp only [Dialect.spellEach, List.intercalate_cons_cons, List.append_assoc]

theorem spellAll_listed (ls : List (List Token)) :
    d.spellAll n (listed ls) = (d.word .listSeparator).toList.intercalate (d.spellEach n ls) := by
  have hseparator : d.spellAll 0 [.word .listSeparator] = (d.word .listSeparator).toList :=
    List.append_nil _
  rw [listed, spellAll_separated d n rfl, hseparator]

theorem spellAll_clauses (ls : List (List Token)) :
    d.spellAll n (clauses ls) =
      (d.word .clauseSeparator).toList.intercalate (d.spellEach n ls) := by
  have hseparator : d.spellAll 0 [.word .clauseSeparator] = (d.word .clauseSeparator).toList :=
    List.append_nil _
  rw [clauses, spellAll_separated d n rfl, hseparator]

end Phrases

/-! ## Names -/

section Names

variable (d : Dialect) (n : Nat)

theorem spellAll_qualified (t : Table) : d.spellAll n t.qualified = t.text d .qualified := by
  obtain ⟨schema, ⟨name, aliasName⟩ | aliasName⟩ := t
  · cases schema <;>
      simp [Table.qualified, Table.qualifiedPath, pathTokens, separated, List.intercalate,
        Dialect.spellAll, Dialect.spell, Table.text, Dialect.identifier]
  · simp [Table.qualified, Table.qualifiedPath, pathTokens, separated, List.intercalate,
      Dialect.spellAll, Dialect.spell, Table.text, Dialect.identifier]

theorem spellAll_declaration (t : Table) :
    d.spellAll n t.declaration = t.text d .declaration := by
  obtain ⟨schema, ⟨name, _ | aliasName⟩ | aliasName⟩ := t
  · exact spellAll_qualified d n _
  · rw [Table.declaration, spellAll_append, spellAll_qualified]
    simp [Dialect.spellAll, Dialect.spell, Table.text, Dialect.identifier]
  · exact spellAll_qualified d n _

theorem spellAll_tableReference (t : Table) :
    d.spellAll n t.reference = t.text d .reference := by
  obtain ⟨schema, ⟨name, _ | aliasName⟩ | aliasName⟩ := t
  · exact spellAll_qualified d n ⟨schema, .named name none⟩
  · simp [Table.reference, Table.referencePath, Table.alias?, pathTokens, separated,
      List.intercalate, Dialect.spellAll, Dialect.spell, Table.text, Dialect.identifier]
  · simp [Table.reference, Table.referencePath, Table.alias?, pathTokens, separated,
      List.intercalate, Dialect.spellAll, Dialect.spell, Table.text, Dialect.identifier]

theorem spellAll_bare (c : Column) : d.spellAll n c.bare = c.text d .bare := by
  obtain ⟨_ | name, _ | table, aliasName⟩ := c <;>
    simp [Column.bare, Dialect.spellAll, Dialect.spell, Column.text, Dialect.identifier]

theorem spellAll_reference (c : Column) : d.spellAll n c.reference = c.text d .reference := by
  obtain ⟨name, _ | t, aliasName⟩ := c
  · exact spellAll_bare d n _
  · rw [Column.reference, spellAll_append, spellAll_tableReference, Dialect.spellAll,
      spellAll_bare]
    · simp [Dialect.spell, Column.text]
    · simp

theorem spellAll_projection (c : Column) : d.spellAll n c.projection = c.text d .projection := by
  obtain ⟨name, table, _ | aliasName⟩ := c
  · rw [Column.projection, spellAll_reference]
    cases table <;> rfl
  · rw [Column.projection, spellAll_append, spellAll_reference]
    simp [Dialect.spellAll, Dialect.spell, Column.text, Dialect.identifier]

theorem spellAll_short (c : Column) : d.spellAll n c.short = c.text d .short := by
  obtain ⟨name, table, _ | aliasName⟩ := c
  · rw [Column.short, spellAll_reference]
    cases table <;> rfl
  · simp [Column.short, Dialect.spellAll, Dialect.spell, Column.text, Dialect.identifier]

end Names

/-! ## Runs of the compiler -/

/-- The parameters that values are bound to, in their order. -/
def Dialect.bound (d : Dialect) (values : List Datum) : List Parameter :=
  values.mapIdx fun k v => ⟨d.parameter k, v⟩

/-- Whatever values have been bound before, `x` binds the given values after them, and its result
depends on the number of those before. If the check fails so does `x`. -/
def Compiles {α : Type} (d : Dialect) (x : Compiler α) (check : Except SqlError Unit)
    (result : Nat → α) (values : List Datum) : Prop :=
  ∀ before, x.run (d.bound before) =
    check.map fun _ => (result before.length, d.bound (before ++ values))

/-- A compilation that writes the given tokens. -/
def Writes (d : Dialect) (x : Compiler (List Char)) (check : Except SqlError Unit)
    (l : List Token) : Prop :=
  Compiles d x check (fun n => d.spellAll n l) (tokenValues l)

/-- A compilation that writes parts, one after the other. -/
def WritesEach (d : Dialect) (x : Compiler (List (List Char))) (check : Except SqlError Unit)
    (ls : List (List Token)) : Prop :=
  Compiles d x check (fun n => d.spellEach n ls) (ls.flatMap tokenValues)

section Compiles

variable {d : Dialect} {α β γ : Type} {x : Compiler α} {g : α → β}
  {check check' : Except SqlError Unit} {result : Nat → α} {values values' : List Datum}

theorem compiles_pure (a : α) : Compiles d (pure a) (.ok ()) (fun _ => a) [] := by
  intro before
  rw [List.append_nil]
  rfl

theorem compiles_throw (e : SqlError) :
    Compiles d (throw e : Compiler α) (.error e) result values :=
  fun _ => rfl

theorem Compiles.map {result' : Nat → β} (h : Compiles d x check result values)
    (hg : ∀ n, g (result n) = result' n) (hvalues : values = values') :
    Compiles d (do return g (← x)) check result' values' := by
  intro before
  rw [StateT.run_bind, h before, ← hvalues, ← hg]
  cases check <;> rfl

/-- The values of the first are bound before those of the second. -/
theorem Compiles.both {y : Compiler β} {f : α → β → γ} {result' : Nat → β}
    (hx : Compiles d x check result values) (hy : Compiles d y check' result' values') :
    Compiles d (do let a ← x; let b ← y; return f a b) (do check; check')
      (fun n => f (result n) (result' (n + values.length))) (values ++ values') := by
  intro before
  rw [StateT.run_bind, hx before]
  cases check with
  | error e => rfl
  | ok =>
    have hrest := hy.map (g := f (result before.length)) (fun _ => rfl) rfl (before ++ values)
    rw [List.length_append, List.append_assoc] at hrest
    exact hrest

theorem Compiles.congr {result' : Nat → α} (h : Compiles d x check result values)
    (hresult : ∀ n, result n = result' n) (hvalues : values = values') :
    Compiles d x check result' values' := by
  obtain rfl : result = result' := funext hresult
  exact hvalues ▸ h

/-- A value becomes the parameter after those that have been bound. -/
theorem writes_value (v : Datum) : Writes d (v.write d) (.ok ()) [.value v] := by
  intro before
  have hlength : (d.bound before).length = before.length := List.length_mapIdx
  have hbound : d.bound before ++ [⟨d.parameter before.length, v⟩] = d.bound (before ++ [v]) := by
    rw [Dialect.bound, Dialect.bound, List.mapIdx_concat]
  have htext : d.spellAll before.length [.value v] = (d.marker before.length).toList :=
    List.append_nil _
  simp only [Datum.write, StateT.run_bind, StateT.run_get, pure_bind, StateT.run_modify, hlength,
    StateT.run_pure, hbound, htext]
  rfl

end Compiles

/-! ## Parts one after the other -/

section Writes

variable {d : Dialect} {x : Compiler (List Char)} {xs : Compiler (List (List Char))}
  {check check' : Except SqlError Unit} {l : List Token} {ls : List (List Token)}

theorem writesEach_nil : WritesEach d (return []) (.ok ()) [] := compiles_pure []

theorem Writes.cons (h : Writes d x check l) (hs : WritesEach d xs check' ls) :
    WritesEach d (do let text ← x; let texts ← xs; return text :: texts)
      (do check; check') (l :: ls) :=
  Compiles.both h hs

theorem writesEach_mapM {α : Type} {f : α → Compiler (List Char)} {g : α → Except SqlError Unit}
    {tokens : α → List Token} (h : ∀ a, Writes d (f a) (g a) (tokens a)) (as : List α) :
    WritesEach d (as.mapM f) (forM as g) (as.map tokens) := by
  induction as with
  | nil => exact writesEach_nil
  | cons a as ih =>
    rw [List.mapM_cons, List.forM_cons]
    exact (h a).cons ih

theorem writesEach_mapM_ok {α : Type} {f : α → Compiler (List Char)} {tokens : α → List Token}
    (h : ∀ a, Writes d (f a) (.ok ()) (tokens a)) (as : List α) :
    WritesEach d (as.mapM f) (.ok ()) (as.map tokens) := by
  have hchecks : (forM as fun _ => .ok () : Except SqlError Unit) = .ok () := by
    induction as with
    | nil => rfl
    | cons a as ih => rw [List.forM_cons, ih]; rfl
  exact hchecks ▸ writesEach_mapM h as

theorem spellAll_inParens (d : Dialect) (n : Nat) (l : List Token) :
    d.spellAll n (inParens l) = parenthesized (d.spellAll n l) := by
  rw [inParens, List.cons_append, Dialect.spellAll, spellAll_append]
  · rfl
  · simp

theorem spellAll_connected (d : Dialect) (n : Nat) (c : Connective) (ls : List (List Token)) :
    d.spellAll n (connected c ls) = d.connecting c (d.spellEach n ls) := by
  rw [connected, spellAll_separated d n rfl, Dialect.connecting]
  simp [Dialect.spellAll, Dialect.spell, Dialect.connectiveWord]

theorem writesEach_values (values : List Datum) :
    WritesEach d (values.mapM (Datum.write d)) (.ok ()) (values.map fun v => [.value v]) :=
  writesEach_mapM_ok writes_value values

theorem writes_row (row : List Datum) :
    Writes d (Insert.writeRow d row) (.ok ())
      (inParens (listed (row.map fun v => [.value v]))) := by
  refine (writesEach_values row).map (fun n => ?_) (by simp)
  rw [spellAll_inParens, spellAll_listed, Dialect.listing]

/-! ## Conditions -/

theorem spellAll_predicate (column : Column) {p : Predicate} {operator : String}
    (h : d.operator p.kind = some operator) (n : Nat) :
    d.spellAll n (column.reference ++ .space :: .operator p.kind :: p.operands) =
      column.text d .reference ++ ' ' :: operator.toList ++ d.spellAll n p.operands := by
  rw [spellAll_append, spellAll_reference, tokenValues_reference]
  simp [Dialect.spellAll, Dialect.spell, h]

theorem writes_predicate (column : Column) (p : Predicate) :
    Writes d (p.write d column) (Condition.checkLeaf d column p)
      (column.reference ++ .space :: .operator p.kind :: p.operands) := by
  unfold Predicate.write Condition.checkLeaf
  split
  · exact compiles_throw _
  · cases hoperator : d.operator p.kind with
    | none => exact compiles_throw _
    | some operator =>
      have htext := spellAll_predicate column hoperator
      have hvalues : p.values =
          tokenValues (column.reference ++ .space :: .operator p.kind :: p.operands) := by
        simp [tokenValues_cons]
      cases p with
      | compare comparison value =>
        refine (writes_value value).map (fun n => ?_) hvalues
        rw [htext]
        simp [Predicate.operands, Dialect.spellAll, Dialect.spell]
      | between negated low high =>
        refine ((writes_value low).both (writes_value high)).congr (fun n => ?_) hvalues
        rw [htext]
        simp [Predicate.operands, Dialect.spellAll, Dialect.spell]
      | inList negated list =>
        cases list with
        | nil => exact compiles_throw _
        | cons v l =>
          refine (writesEach_values (v :: l)).map (fun n => ?_) ?_
          · rw [htext, Predicate.operands, Dialect.spellAll, spellAll_inParens, spellAll_listed]
            · rfl
            · simp
          · rw [← hvalues]
            simp [Predicate.values, List.flatMap_map]
      | like negated ignoreCase pattern =>
        refine (writes_value (.text pattern)).map (fun n => ?_) hvalues
        rw [htext]
        simp [Predicate.operands, Dialect.spellAll, Dialect.spell]
      | isNull negated =>
        refine (compiles_pure _).congr (fun n => ?_) hvalues
        rw [htext, Predicate.operands, Dialect.spellAll, List.append_nil]

mutual

theorem writes_condition : ∀ c : Condition, Writes d (c.write d) (c.check d) c.tokens
  | .leaf column p => by
    rw [Condition.write, Condition.check, Condition.tokens]
    exact writes_predicate column p
  | .group c [] => by
    rw [Condition.write, Condition.check]
    exact compiles_throw _
  | .group c (c' :: l) => by
    rw [Condition.write, Condition.check, Condition.tokens]
    refine (writesEach_conditions (c' :: l)).map (fun n => ?_) ?_
    · rw [spellAll_inParens, spellAll_connected]
    · rw [tokenValues_inParens, tokenValues_connected]

theorem writesEach_conditions : ∀ l : List Condition,
    WritesEach d (Condition.writeAll d l) (Condition.checkAll d l) (Condition.tokensAll l)
  | [] => by
    rw [Condition.writeAll, Condition.checkAll, Condition.tokensAll]
    exact writesEach_nil
  | c :: l => by
    rw [Condition.writeAll, Condition.checkAll, Condition.tokensAll]
    exact (writes_condition c).cons (writesEach_conditions l)

end

/-- The clause of conditions is there if there are any. -/
theorem compiles_where (l : List Condition) :
    Compiles d (Condition.writeWhere d l) (Condition.checkAll d l)
      (fun n => (d.spellEach n (Condition.clause l)).head?)
      ((Condition.clause l).flatMap tokenValues) := by
  cases l with
  | nil => exact compiles_pure none
  | cons c l =>
    refine (writesEach_conditions (c :: l)).map (fun n => ?_) ?_
    · simp [Condition.clause, Dialect.spellEach, Dialect.spellAll, Dialect.spell,
        spellAll_connected]
    · simp [Condition.clause, tokenValues_cons]

theorem toList_head?_clause (d : Dialect) (n : Nat) (l : List Condition) :
    (d.spellEach n (Condition.clause l)).head?.toList = d.spellEach n (Condition.clause l) := by
  cases l <;> rfl

/-! ## Joins, sort keys and assignments -/

/-- Of a join only the condition is checked. -/
def Join.checked (d : Dialect) (j : Join) : Except SqlError Unit :=
  match j.condition with
  | none => .ok ()
  | some c => c.check d

theorem spellAll_equated {left : List Token} (h : tokenValues left = []) (n : Nat)
    (right : List Token) :
    d.spellAll n (equated left right) =
      d.spellAll 0 left ++ ' ' :: d.equalSign.toList ++ ' ' :: d.spellAll n right := by
  rw [equated, List.append_assoc, spellAll_append_of_no_values d n h]
  simp [Dialect.spellAll, Dialect.spell, Dialect.equalSign, OperatorKind.usual]

theorem writes_join (j : Join) : Writes d (j.write d) (j.checked d) j.tokens := by
  have hequated : ∀ n, d.spellAll n (equated j.left.column.reference j.right.column.reference) =
      j.left.column.text d .reference ++ ' ' :: d.equalSign.toList
        ++ ' ' :: j.right.column.text d .reference := by
    intro n
    rw [spellAll_equated (tokenValues_reference _), spellAll_reference, spellAll_reference]
  obtain ⟨kind, left, right, _ | c⟩ := j
  · refine (compiles_pure _).congr (fun n => ?_) ?_
    · simp [Join.tokens, connected, separated_singleton, spellAll_append, Dialect.spellAll,
        Dialect.spell, spellAll_declaration, hequated, Dialect.joinWord]
    · simp [Join.tokens, tokenValues_cons, tokenValues_equated]
  · refine (writes_condition c).map (fun n => ?_) ?_
    · simp [Join.tokens, connected, separated_cons_cons, separated_singleton, spellAll_append,
        tokenValues_equated, Dialect.spellAll, Dialect.spell,
        spellAll_declaration, hequated, Dialect.joinWord, Dialect.connectiveWord]
    · simp [Join.tokens, tokenValues_cons, tokenValues_equated]

theorem exists_writes_newValue (a : Assignment) :
    ∃ t, a.tokens = equated a.column.bare [t] ∧ Writes d (a.writeValue d) (.ok ()) [t] := by
  obtain ⟨column, _ | v, named⟩ := a
  · exact ⟨_, rfl, (compiles_pure _).congr (fun n => (List.append_nil _).symm) rfl⟩
  · cases v with
    | null => exact ⟨_, rfl, (compiles_pure _).congr (fun n => (List.append_nil _).symm) rfl⟩
    | _ => exact ⟨_, rfl, writes_value _⟩

theorem writes_assignment (a : Assignment) : Writes d (a.write d) (.ok ()) a.tokens := by
  obtain ⟨t, htokens, hvalue⟩ := exists_writes_newValue (d := d) a
  rw [htokens]
  refine hvalue.map (fun n => ?_) ?_
  · rw [spellAll_equated (tokenValues_bare _), spellAll_bare]
  · rw [tokenValues_equated, tokenValues_bare, List.nil_append]

/-- Parts whose texts do not depend on their places. -/
theorem spellEach_map {α : Type} {tokens : α → List Token} {text : α → List Char}
    (h : ∀ n a, d.spellAll n (tokens a) = text a) (n : Nat) (l : List α) :
    d.spellEach n (l.map tokens) = l.map text := by
  induction l generalizing n with
  | nil => rfl
  | cons a l ih => rw [List.map_cons, Dialect.spellEach, ih, h, List.map_cons]

theorem spellEach_orderBy (d : Dialect) (n : Nat) (l : List OrderKey) :
    d.spellEach n (OrderKey.clause l) = (OrderKey.sorting d l).toList := by
  have hkey : ∀ n (k : OrderKey), d.spellAll n k.tokens = k.text d := by
    intro n k
    rw [OrderKey.tokens, spellAll_append, spellAll_short]
    simp [Dialect.spellAll, Dialect.spell, OrderKey.text]
  cases l with
  | nil => rfl
  | cons k l =>
    have htext : d.spellAll n (.word .orderBy :: .space :: listed ((k :: l).map OrderKey.tokens)) =
        (d.word .orderBy).toList ++ ' ' :: d.listing ((k :: l).map (OrderKey.text d)) := by
      rw [← spellEach_map hkey n, Dialect.listing, ← spellAll_listed]
      rfl
    exact congrArg List.singleton htext

/-! ## Expressions -/

/-- The clauses are put together to the text of tokens if they are what the tokens spell. -/
theorem Compiles.compile {texts : Nat → List (List Char)} {values : List Datum} {l : List Token}
    (h : Compiles d xs check texts values)
    (htext : (d.word .clauseSeparator).toList.intercalate (texts 0) = d.spellAll 0 l)
    (hvalues : values = tokenValues l) :
    d.compile xs = check.map fun _ => .ofTokens d l := by
  have hrun : xs.run [] = check.map fun _ => (texts 0, d.bound values) := h []
  rw [Dialect.compile, hrun, Statement.ofTokens, ← htext, ← hvalues]
  cases check <;> rfl

/-- Clauses as tokens. -/
theorem WritesEach.compile (h : WritesEach d xs check ls) :
    d.compile xs = check.map fun _ => .ofTokens d (clauses ls) :=
  Compiles.compile h (spellAll_clauses d 0 ls).symm (tokenValues_clauses ls).symm

theorem forM_checked (l : List Join) :
    forM l (Join.checked d) = Condition.checkAll d (l.filterMap (·.condition)) := by
  induction l with
  | nil => rfl
  | cons j l ih =>
    rw [List.forM_cons, ih]
    obtain ⟨kind, left, right, _ | c⟩ := j <;> rfl

theorem intercalate_concat {α : Type} {separator : List α} {ls : List (List α)} (hls : ls ≠ [])
    (l : List α) :
    separator.intercalate (ls ++ [l]) = separator.intercalate ls ++ (separator ++ l) := by
  induction ls with
  | nil => exact absurd rfl hls
  | cons m ls ih =>
    cases ls with
    | nil => simp
    | cons m' ls =>
      rw [List.cons_append, List.cons_append, List.intercalate_cons_cons, ← List.cons_append,
        ih (List.cons_ne_nil _ _), List.intercalate_cons_cons, List.append_assoc, List.append_assoc,
        List.append_assoc]

/-- The clause that limits the rows brings a separator if it is there. -/
theorem spellAll_paging (d : Dialect) (n : Nat) {ls : List (List Token)} (hls : ls ≠ [])
    (limit offset : Option Nat) :
    d.spellAll n (clauses ls ++ [.paging limit offset]) =
      (d.word .clauseSeparator).toList.intercalate
        (d.spellEach n ls ++ ((d.paging limit offset).map String.toList).toList) := by
  have hspell : ∀ m, d.spellAll m [.paging limit offset] = d.spell m (.paging limit offset) :=
    fun m => List.append_nil _
  rw [spellAll_append, spellAll_clauses, hspell, Dialect.spell]
  cases d.paging limit offset with
  | none => simp
  | some s =>
    have hspelled : d.spellEach n ls ≠ [] := by
      cases ls with
      | nil => exact absurd rfl hls
      | cons l ls => exact List.cons_ne_nil _ _
    rw [Option.map_some, Option.toList_some, intercalate_concat hspelled]

end Writes

section Expressions

variable (d : Dialect)

theorem Delete.writes_clauses (s : Delete) :
    WritesEach d (s.writeClauses d) (Condition.checkAll d s.conditions)
      ([[.word .deleteFrom, .space] ++ s.table.qualified] ++ Condition.clause s.conditions) := by
  refine (compiles_where s.conditions).map (fun n => ?_) ?_
  · rw [toList_head?_clause]
    simp [Dialect.spellEach, Dialect.spellAll, Dialect.spell, spellAll_qualified, tokenValues_cons]
  · simp [tokenValues_cons]

theorem Delete.build_eq (s : Delete) :
    s.build d = do
      Condition.checkAll d s.conditions
      return .ofTokens d s.tokens := by
  rw [build, (s.writes_clauses d).compile]
  cases Condition.checkAll d s.conditions <;> rfl

theorem Update.writes_clauses (s : Update) (t : Table) :
    WritesEach d (s.writeClauses d t) (Condition.checkAll d s.conditions)
      ([[.word .update, .space] ++ t.qualified,
        .word .setTo :: .space :: listed (s.assignments.map Assignment.tokens)]
          ++ Condition.clause s.conditions) := by
  have hassignments := writesEach_mapM_ok (d := d) writes_assignment s.assignments
  refine (hassignments.both (compiles_where s.conditions)).congr (fun n => ?_) ?_
  · rw [toList_head?_clause]
    simp [Dialect.spellEach, Dialect.spellAll, Dialect.spell, spellAll_qualified, tokenValues_cons,
      spellAll_listed, Dialect.listing]
  · simp [tokenValues_cons]

theorem Update.build_eq (s : Update) :
    s.build d = do
      let t ← s.target
      Condition.checkAll d s.conditions
      return .ofTokens d (s.tokens t) := by
  rw [build]
  cases s.target with
  | error e => rfl
  | ok t =>
    refine (s.writes_clauses d t).compile.trans ?_
    cases Condition.checkAll d s.conditions <;> rfl

theorem Insert.spellAll_heading (s : Insert) (t : Table) (n : Nat) :
    d.spellAll n (s.heading t) = s.headingText d t := by
  simp [heading, headingText, Dialect.spellAll, Dialect.spell, spellAll_append,
    spellAll_qualified, spellAll_inParens, spellAll_listed, spellEach_map (spellAll_bare d),
    Dialect.listing]

theorem Insert.writes_clauses (s : Insert) (t : Table) :
    WritesEach d (s.writeClauses d t) (.ok ())
      [s.heading t, .word .values :: .space
        :: listed (s.rows.map fun row => inParens (listed (row.map fun v => [.value v])))] := by
  refine (writesEach_mapM_ok writes_row s.rows).map (fun n => ?_) ?_
  · rw [Dialect.spellEach, s.spellAll_heading d t n, s.tokenValues_heading t]
    simp [Dialect.spellEach, Dialect.spellAll, Dialect.spell, spellAll_listed, Dialect.listing]
  · simp [s.tokenValues_heading t, tokenValues_cons]

theorem Insert.build_eq (s : Insert) :
    s.build d = do
      let t ← s.target
      if s.rows.isEmpty then .error .insertWithoutRows
      else
        checkWidths s.columns.length 0 s.rows
        return .ofTokens d (s.tokens t) := by
  rw [build]
  cases s.target with
  | error e => rfl
  | ok t =>
    cases s.rows.isEmpty with
    | true => rfl
    | false =>
      cases checkWidths s.columns.length 0 s.rows with
      | error e => rfl
      | ok => exact (s.writes_clauses d t).compile

theorem Select.spellAll_heading (s : Select) (n : Nat) :
    d.spellAll n s.heading = s.headingText d := by
  have hcolumns : ∀ n, d.spellAll n (listed (s.columns.map Column.projection)) =
      d.listing (s.columns.map (Column.text d .projection)) := by
    intro n
    rw [spellAll_listed, spellEach_map (spellAll_projection d), Dialect.listing]
  unfold heading headingText
  split <;> split <;> simp [Dialect.spellAll, Dialect.spell, hcolumns]

/-- The clauses of a query that are phrases, without what limits the rows. -/
def Select.phrases (s : Select) (t : Table) : List (List Token) :=
  s.heading :: (.word .fromTable :: .space :: t.declaration)
    :: (s.joins.map Join.tokens ++ (Condition.clause s.conditions ++ OrderKey.clause s.orderBy))

theorem Select.compiles_clauses (s : Select) (t : Table) :
    Compiles d (s.writeClauses d t)
      (do
        Condition.checkAll d (s.joins.filterMap (·.condition))
        Condition.checkAll d s.conditions)
      (fun n => d.spellEach n (s.phrases t)
        ++ ((d.paging s.limit s.offset).map String.toList).toList)
      ((s.phrases t).flatMap tokenValues) := by
  have hjoins := writesEach_mapM (d := d) writes_join s.joins
  rw [forM_checked] at hjoins
  refine (hjoins.both (compiles_where s.conditions)).congr (fun n => ?_) ?_
  · rw [toList_head?_clause, ← s.spellAll_heading d n]
    simp [phrases, Dialect.spellEach, spellEach_append, Dialect.spellAll, Dialect.spell,
      spellAll_declaration, spellEach_orderBy, tokenValues_cons]
  · simp [phrases, tokenValues_cons, flatMap_orderBy]

theorem Select.build_eq (s : Select) :
    s.build d =
      match s.table with
      | none => .error .queryWithoutTable
      | some t => do
        Condition.checkAll d (s.joins.filterMap (·.condition))
        Condition.checkAll d s.conditions
        return .ofTokens d (s.tokens t) := by
  rw [build]
  cases s.table with
  | none => rfl
  | some t =>
    refine ((s.compiles_clauses d t).compile (l := s.tokens t) ?_ ?_).trans ?_
    · rw [s.tokens_eq_clauses t]
      exact (spellAll_paging d 0 (List.cons_ne_nil _ _) s.limit s.offset).symm
    · rw [s.tokens_eq_clauses t, tokenValues_append, tokenValues_clauses]
      exact (List.append_nil _).symm
    · cases Condition.checkAll d (s.joins.filterMap (·.condition)) with
      | error e => rfl
      | ok => cases Condition.checkAll d s.conditions <;> rfl

variable {d} {statement : Statement}

theorem Condition.checkAll_eq_ok_iff {l : List Condition} :
    Condition.checkAll d l = .ok () ↔ ∀ c ∈ l, c.check d = .ok () := by
  induction l with
  | nil => simp [Condition.checkAll]
  | cons c l ih =>
    rw [Condition.checkAll, except_bind_eq_ok_iff, List.forall_mem_cons, ← ih]
    exact ⟨fun ⟨⟨⟩, hc, hl⟩ => ⟨hc, hl⟩, fun ⟨hc, hl⟩ => ⟨(), hc, hl⟩⟩

theorem Condition.check_compare {c : Column} (hc : c.isAll = false) {comparison : Comparison}
    (hd : d.operator (.comparison comparison) ≠ none) (v : Datum) :
    (Condition.compare comparison c v).check d = .ok () := by
  simp [Condition.compare, Condition.check, Condition.checkLeaf, Predicate.kind, hc, hd]

theorem Condition.check_inList {c : Column} (hc : c.isAll = false) (hd : d.operator .inList ≠ none)
    (v : Datum) (l : List Datum) : (Condition.inList c (v :: l)).check d = .ok () := by
  simp [Condition.inList, Condition.check, Condition.checkLeaf, Predicate.kind, hc, hd]

/-- A query of a table is built if its conditions can be written. -/
theorem Select.build_of_checked {s : Select} {t : Table} (htable : s.table = some t)
    (hjoins : Condition.checkAll d (s.joins.filterMap (·.condition)) = .ok ())
    (hconditions : Condition.checkAll d s.conditions = .ok ()) :
    s.build d = .ok (.ofTokens d (s.tokens t)) := by
  simp only [build_eq, htable, hjoins, hconditions]
  rfl

theorem Select.eq_of_build {s : Select} (h : s.build d = .ok statement) :
    ∃ t, s.table = some t ∧ statement = .ofTokens d (s.tokens t) := by
  rw [build_eq] at h
  cases htable : s.table with
  | none => simp only [htable] at h; cases h
  | some t =>
    simp only [htable] at h
    obtain ⟨-, -, h⟩ := except_bind_eq_ok_iff.mp h
    obtain ⟨-, -, h⟩ := except_bind_eq_ok_iff.mp h
    exact ⟨t, rfl, (Except.ok.inj h).symm⟩

theorem Insert.eq_of_build {s : Insert} (h : s.build d = .ok statement) :
    ∃ t, s.target = .ok t ∧ statement = .ofTokens d (s.tokens t) := by
  rw [build_eq] at h
  obtain ⟨t, htarget, h⟩ := except_bind_eq_ok_iff.mp h
  split at h
  · cases h
  · obtain ⟨-, -, h⟩ := except_bind_eq_ok_iff.mp h
    exact ⟨t, htarget, (Except.ok.inj h).symm⟩

theorem Update.eq_of_build {s : Update} (h : s.build d = .ok statement) :
    ∃ t, s.target = .ok t ∧ statement = .ofTokens d (s.tokens t) := by
  rw [build_eq] at h
  obtain ⟨t, htarget, h⟩ := except_bind_eq_ok_iff.mp h
  obtain ⟨-, -, h⟩ := except_bind_eq_ok_iff.mp h
  exact ⟨t, htarget, (Except.ok.inj h).symm⟩

theorem Delete.eq_of_build {s : Delete} (h : s.build d = .ok statement) :
    statement = .ofTokens d s.tokens := by
  rw [build_eq] at h
  obtain ⟨-, -, h⟩ := except_bind_eq_ok_iff.mp h
  exact (Except.ok.inj h).symm

end Expressions

end EventStore.Sql
