import EventStore.Proofs.BoundValues

/-!
# A dialect only spells

What stands in the text of a statement is the same in every dialect: a sequence of signs, among
them the parameters by their indices. A dialect spells each sign on its own.

Proved here:

* `spellAll_eq_flatMap`: tokens are spelled one by one, once their values are numbered;
* `check_same`: of two dialects that have the same operators, both can write a condition or neither
  can, for the same reason;
* `dialect_only_spells`: so a statement is what its dialect makes of the signs of the expression,
  its values are those of the expression, and dialects with the same operators build alike.
-/

namespace EventStore.Sql

/-! ## Signs -/

/-- A token in its place: a value stands there as a parameter of some index. -/
inductive Sign where
  | parameter (index : Nat)
  | token (t : Token)

/-- The parameters are numbered in their order, from a given index on. -/
def signsFrom (index : Nat) : List Token → List Sign
  | [] => []
  | .value _ :: l => .parameter index :: signsFrom (index + 1) l
  | t :: l => .token t :: signsFrom index l

def Sign.index? : Sign → Option Nat
  | .parameter index => some index
  | .token _ => none

/-- The spelling of a sign. -/
def Dialect.write (d : Dialect) : Sign → List Char
  | .parameter index => (d.marker index).toList
  | .token t => d.spell 0 t

theorem signsFrom_cons (index : Nat) {t : Token} (h : ∀ v, t ≠ .value v) (l : List Token) :
    signsFrom index (t :: l) = .token t :: signsFrom index l := by
  cases t <;> first | rfl | exact absurd rfl (h _)

theorem spellAll_eq_flatMap (d : Dialect) (index : Nat) (l : List Token) :
    d.spellAll index l = (signsFrom index l).flatMap d.write := by
  induction l generalizing index with
  | nil => rfl
  | cons t l ih =>
    rcases t.value_or_ne with ⟨v, rfl⟩ | ht
    · rw [Dialect.spellAll, signsFrom, List.flatMap_cons, ih]
      rfl
    · rw [spellAll_cons d index ht, signsFrom_cons index ht, List.flatMap_cons, ih,
        spell_eq_of_ne d index 0 ht]
      rfl

/-- Each value has a parameter, and no other sign is one. -/
theorem indices_signsFrom (index : Nat) (l : List Token) :
    (signsFrom index l).filterMap Sign.index? = List.range' index (tokenValues l).length := by
  induction l generalizing index with
  | nil => rfl
  | cons t l ih =>
    rcases t.value_or_ne with ⟨v, rfl⟩ | ht
    · rw [signsFrom, tokenValues_cons_value, List.length_cons, List.range'_succ, ← ih (index + 1)]
      rfl
    · rw [signsFrom_cons index ht, tokenValues_cons t l ht, ← ih index]
      rfl

/-! ## Dialects with the same operators -/

def Dialect.SameOperators (d d' : Dialect) : Prop :=
  ∀ k, (d.operator k).isSome = (d'.operator k).isSome

/-- The same error as another dialect reports it. -/
def SqlError.inDialect (name : String) : SqlError → SqlError
  | .unsupportedOperator operator column _ => .unsupportedOperator operator column name
  | e => e

/-- Two attempts in two dialects: both succeed, or both fail for the same reason. -/
inductive SameOutcome (d' : Dialect) {α β : Type} :
    Except SqlError α → Except SqlError β → Prop where
  | error (e : SqlError) : SameOutcome d' (.error e) (.error (e.inDialect d'.name))
  | ok (a : α) (b : β) : SameOutcome d' (.ok a) (.ok b)

section SameOutcome

variable {d d' : Dialect} {α β γ δ : Type}

theorem SameOutcome.bind {x : Except SqlError α} {y : Except SqlError β}
    {f : α → Except SqlError γ} {g : β → Except SqlError δ} (h : SameOutcome d' x y)
    (hfg : ∀ a b, SameOutcome d' (f a) (g b)) : SameOutcome d' (x >>= f) (y >>= g) := by
  cases h with
  | error e => exact .error e
  | ok a b => exact hfg a b

/-- An attempt in which no dialect has a part. -/
theorem SameOutcome.of_inDialect {x : Except SqlError α}
    (h : ∀ e, x = .error e → e.inDialect d'.name = e) : SameOutcome d' x x := by
  cases x with
  | error e =>
    have herror : SameOutcome d' (.error e : Except SqlError α)
      (.error (e.inDialect d'.name) : Except SqlError α) := .error e
    rwa [h e rfl] at herror
  | ok a => exact .ok a a

theorem checkLeaf_same (h : d.SameOperators d') (column : Column) (p : Predicate) :
    SameOutcome d' (Condition.checkLeaf d column p) (Condition.checkLeaf d' column p) := by
  have hkind : (d.operator p.kind).isNone = (d'.operator p.kind).isNone := by
    rw [← Option.not_isSome, ← Option.not_isSome, h p.kind]
  unfold Condition.checkLeaf
  rw [hkind]
  split
  · exact .error _
  · split
    · exact .error _
    · split
      · exact .error _
      · exact .ok () ()

mutual

theorem check_same (h : d.SameOperators d') :
    ∀ c : Condition, SameOutcome d' (c.check d) (c.check d')
  | .leaf column p => by
    rw [Condition.check, Condition.check]
    exact checkLeaf_same h column p
  | .group c l => by
    rw [Condition.check, Condition.check]
    split
    · exact .error _
    · exact checkAll_same h l

theorem checkAll_same (h : d.SameOperators d') :
    ∀ l : List Condition, SameOutcome d' (Condition.checkAll d l) (Condition.checkAll d' l)
  | [] => .ok () ()
  | c :: l => by
    rw [Condition.checkAll, Condition.checkAll]
    exact (check_same h c).bind fun _ _ => checkAll_same h l

end

end SameOutcome

/-! ## The shape of insertions and updates -/

section Shape

variable {name : String} {e : SqlError}

theorem insertTarget_inDialect {s : Insert} (h : s.target = .error e) : e.inDialect name = e := by
  have hexplains := Insert.explains_of_target h
  cases e <;> first | rfl | exact hexplains.elim

theorem checkWidths_inDialect {width row : Nat} {l : List (List Datum)}
    (h : Insert.checkWidths width row l = .error e) : e.inDialect name = e := by
  induction l generalizing row with
  | nil => cases h
  | cons values l ih =>
    rw [Insert.checkWidths] at h
    split at h
    · exact ih h
    · cases h
      rfl

theorem updateTarget_inDialect {s : Update} (h : s.target = .error e) : e.inDialect name = e := by
  have hexplains := Update.explains_of_target h
  cases e <;> first | rfl | exact hexplains.elim

end Shape

/-! ## Expressions -/

namespace Expression

/-- What stands in the text of an expression, whatever the dialect. -/
def signs (x : Expression) : List Sign := signsFrom 0 x.tokens

theorem build_same {d d' : Dialect} (h : d.SameOperators d') (x : Expression) :
    SameOutcome d' (x.build d) (x.build d') := by
  cases x with
  | select s =>
    simp only [build, Select.build_eq]
    split
    · exact .error _
    · exact (checkAll_same h _).bind fun _ _ => (checkAll_same h _).bind fun _ _ => .ok _ _
  | insert s =>
    simp only [build, Insert.build_eq]
    refine (SameOutcome.of_inDialect fun e => insertTarget_inDialect).bind fun t t' => ?_
    split
    · exact .error _
    · exact (SameOutcome.of_inDialect fun e => checkWidths_inDialect).bind fun _ _ => .ok _ _
  | update s =>
    simp only [build, Update.build_eq]
    refine (SameOutcome.of_inDialect fun e => updateTarget_inDialect).bind fun t t' => ?_
    exact (checkAll_same h _).bind fun _ _ => .ok _ _
  | delete s =>
    simp only [build, Delete.build_eq]
    exact (checkAll_same h _).bind fun _ _ => .ok _ _

/-- In every dialect that an expression can be written in, its text is made of the same signs, each
spelled by the dialect on its own, and its values are those of the expression. If two dialects have
the same operators, then the expression can be written in both of them, or it fails in both with the
same error but for the name of the dialect. -/
theorem dialect_only_spells (x : Expression) :
    (∀ d statement, x.build d = .ok statement →
      statement.text = String.ofList (x.signs.flatMap d.write) ∧
        x.signs.filterMap Sign.index? = List.range statement.parameters.length ∧
        statement.values = x.values) ∧
      ∀ d d' : Dialect, d.SameOperators d' →
        (∀ e, x.build d = .error e → x.build d' = .error (e.inDialect d'.name)) ∧
          ∀ statement, x.build d = .ok statement → ∃ statement', x.build d' = .ok statement' := by
  refine ⟨fun d statement h => ⟨?_, ?_, values_of_build h⟩, fun d d' hsame => ?_⟩
  · rw [eq_ofTokens_of_build h, signs, ← spellAll_eq_flatMap]
    rfl
  · have hcount : statement.parameters.length = (tokenValues x.tokens).length := by
      rw [eq_ofTokens_of_build h]
      exact List.length_mapIdx
    rw [signs, indices_signsFrom, hcount, List.range_eq_range']
  · have hbuild := build_same hsame x
    generalize x.build d = built, x.build d' = built' at hbuild
    cases hbuild with
    | error e => exact ⟨fun e' he => by cases he; rfl, nofun⟩
    | ok s s' => exact ⟨nofun, fun _ _ => ⟨s', rfl⟩⟩

/-- A dialect with the operators of most databases that spells as little as it can. -/
def terse : Dialect where
  name := "terse"
  word _ := ""
  operator k := (Dialect.commonOperator k).map fun _ => "?"
  connective _ := none
  join _ := none
  paging _ _ := none

theorem someOrders_signs :
    let x := Expression.select someOrders
    Dialect.sqlServer.SameOperators terse ∧
      ∃ s t, x.build .sqlServer = .ok s ∧ x.build terse = .ok t ∧
        s.text = String.ofList (x.signs.flatMap Dialect.sqlServer.write) ∧
        t.text = String.ofList (x.signs.flatMap terse.write) ∧ t.values = s.values := by
  intro x
  have hsame : Dialect.sqlServer.SameOperators terse := fun k => (Option.isSome_map ..).symm
  have hbuild : x.build .sqlServer = .ok (.ofTokens .sqlServer (someOrders.tokens orders)) :=
    someOrders.build_eq .sqlServer
  obtain ⟨hspelled, hoperators⟩ := dialect_only_spells x
  obtain ⟨t, ht⟩ := (hoperators .sqlServer terse hsame).2 _ hbuild
  obtain ⟨hs, -, hvalues⟩ := hspelled _ _ hbuild
  obtain ⟨ht', -, hvalues'⟩ := hspelled _ _ ht
  exact ⟨hsame, _, t, hbuild, ht, hs, ht', hvalues'.trans hvalues.symm⟩

end Expression

end EventStore.Sql
