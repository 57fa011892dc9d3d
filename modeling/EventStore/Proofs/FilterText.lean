import EventStore.Proofs.QuotedNames

/-!
# The text of a filter determines the filter

Where identifiers are quoted, the text of a clause is read in one way only: each part of it ends at
a place that does not depend on what comes next. So two clauses with one text have one tree, up to
the values, whatever their identifiers look like.

Proved here, for the dialects that quote:

* `quote_unique`: a quoted identifier ends at its closing quote, whatever is inside;
* `leaf_unique`: the text of a predicate determines its column, its operator and its values' number;
* `whereText_unique`: the text of a clause determines its tree.
-/

namespace EventStore.Sql

open Text

/-! ## Trees -/

/-- The identifiers that a column is written with, from the outermost name to the innermost. -/
def Column.path (c : Column) : List Identifier :=
  (c.table.map Table.referencePath).getD [] ++ c.name.toList

/-- Conditions with the same columns and operators at the same places and as many values. The
connective of a group of one is left out, since it is not written. -/
inductive Condition.SameTree : Condition → Condition → Prop where
  | leaf {c c' : Column} {p q : Predicate} (path : c.path = c'.path) (kind : p.kind = q.kind)
      (count : p.values.length = q.values.length) : SameTree (.leaf c p) (.leaf c' q)
  | group {c c' : Connective} {l l' : List Condition} (connective : 2 ≤ l.length → c = c')
      (conditions : List.Forall₂ SameTree l l') : SameTree (.group c l) (.group c' l')

/-- The clause of the conditions that rows must meet, where so many values stand before it. -/
def Dialect.whereText (d : Dialect) (n : Nat) (l : List Condition) : String :=
  String.ofList (d.spellAll n (clauses (Condition.clause l)))

/-! ## Texts and what follows them -/

/-- A text that goes on with no condition. -/
def Ends (l : List Char) : Prop := ∀ c ∈ l.head?, c = ')'

/-- A text that may follow a condition. -/
def Follows (l : List Char) : Prop := ∀ c ∈ l.head?, c = ' ' ∨ c = ')'

theorem Ends.follows {l : List Char} (h : Ends l) : Follows l := fun c hc => Or.inr (h c hc)

theorem Follows.breaks {l : List Char} (h : Follows l) : Breaks l := by
  intro c hc
  rcases h c hc with rfl | rfl <;> decide

theorem follows_space (l : List Char) : Follows (' ' :: l) :=
  fun _ hc => Or.inl (Option.some.inj hc).symm

theorem ends_nil : Ends [] := nofun

theorem ends_paren (l : List Char) : Ends (')' :: l) := fun _ hc => (Option.some.inj hc).symm

section Text

variable {l l' r r' : List Char}

/-- Words end where another kind of character comes. -/
theorem word_unique {p : Char → Bool} (hl : ∀ c ∈ l, p c = true) (hl' : ∀ c ∈ l', p c = true)
    (hr : ∀ c ∈ r.head?, p c = false) (hr' : ∀ c ∈ r'.head?, p c = false)
    (h : l ++ r = l' ++ r') : l = l' ∧ r = r' := by
  induction l generalizing l' with
  | nil =>
    cases l' with
    | nil => exact ⟨rfl, h⟩
    | cons c' l' =>
      rw [List.nil_append] at h
      have hc := hr c' (by rw [h]; rfl)
      rw [hl' c' List.mem_cons_self] at hc
      cases hc
  | cons c l ih =>
    cases l' with
    | nil =>
      rw [List.nil_append] at h
      have hc := hr' c (by rw [← h]; rfl)
      rw [hl c List.mem_cons_self] at hc
      cases hc
    | cons c' l' =>
      obtain ⟨rfl, htail⟩ := List.cons.inj h
      obtain ⟨rfl, hrest⟩ := ih (fun c hc => hl c (List.mem_cons_of_mem _ hc))
        (fun c hc => hl' c (List.mem_cons_of_mem _ hc)) htail
      exact ⟨rfl, hrest⟩

/-- A quote ends at the first quote character that is not doubled. -/
theorem doubled_unique {q : Char} (hr : r.head? ≠ some q) (hr' : r'.head? ≠ some q)
    (h : doubled [q] l ++ q :: r = doubled [q] l' ++ q :: r') : l = l' ∧ r = r' := by
  have hread : some (l, r) = some (l', r') := by
    rw [← unquote_doubled_of_ne l hr, h, unquote_doubled_of_ne l' hr']
  exact Prod.mk.inj (Option.some.inj hread)

/-! ## Operators, connectives and markers -/

theorem OperatorKind.mem_all (o : OperatorKind) : o ∈ OperatorKind.all := by
  cases o with
  | comparison c => cases c <;> decide
  | _ => decide

/-- No operator is another one and more after a character that ends it. -/
theorem usual_not_begins : ∀ o ∈ OperatorKind.all, ∀ o' ∈ OperatorKind.all,
    ¬o.usual.toList ++ [' '] <+: o'.usual.toList ∧
      ¬o.usual.toList ++ [')'] <+: o'.usual.toList := by decide +kernel

theorem usual_injective : ∀ o ∈ OperatorKind.all, ∀ o' ∈ OperatorKind.all,
    o.usual = o'.usual → o = o' := by decide +kernel

theorem operator_eq_of_begins {o o' : OperatorKind} (hr : Follows r)
    (hbegins : o.usual.toList <+: o'.usual.toList)
    (h : o.usual.toList ++ r = o'.usual.toList ++ r') : o = o' := by
  obtain ⟨t, ht⟩ := hbegins
  cases t with
  | nil =>
    rw [List.append_nil] at ht
    exact usual_injective o o.mem_all o' o'.mem_all (String.toList_inj.mp ht)
  | cons c t =>
    rw [← ht, List.append_assoc] at h
    have hbegins : o.usual.toList ++ [c] <+: o'.usual.toList :=
      ⟨t, by rw [← ht, List.append_assoc]; rfl⟩
    obtain ⟨hspace, hparen⟩ := usual_not_begins o o.mem_all o' o'.mem_all
    rcases hr c (by rw [List.append_cancel_left h]; rfl) with rfl | rfl
    · exact absurd hbegins hspace
    · exact absurd hbegins hparen

theorem operator_unique {o o' : OperatorKind} (hr : Follows r) (hr' : Follows r')
    (h : o.usual.toList ++ r = o'.usual.toList ++ r') : o = o' ∧ r = r' := by
  have heq : o = o' := by
    have hleft : o.usual.toList <+: o'.usual.toList ++ r' := h ▸ List.prefix_append _ _
    rcases List.prefix_or_prefix_of_prefix hleft (List.prefix_append _ _) with hp | hp
    · exact operator_eq_of_begins hr hp h
    · exact (operator_eq_of_begins hr' hp h.symm).symm
  subst heq
  exact ⟨rfl, List.append_cancel_left h⟩

theorem connective_unique {c c' : Connective} (h : c.tag.toList ++ r = c'.tag.toList ++ r') :
    c = c' ∧ r = r' := by
  have hand : Connective.and.tag.toList = ['A', 'N', 'D'] := by decide
  have hor : Connective.or.tag.toList = ['O', 'R'] := by decide
  cases c <;> cases c'
  · exact ⟨rfl, List.append_cancel_left h⟩
  · rw [hand, hor] at h
    exact absurd (List.cons.inj h).1 (by decide)
  · rw [hand, hor] at h
    exact absurd (List.cons.inj h).1 (by decide)
  · exact ⟨rfl, List.append_cancel_left h⟩

variable (k : DialectKind)

theorem marker_unique {n m : Nat} (hr : Breaks r) (hr' : Breaks r')
    (h : (k.dialect.marker n).toList ++ r = (k.dialect.marker m).toList ++ r') : r = r' := by
  obtain ⟨c, l, hmarker, -, hl⟩ := exists_marker_eq k n
  obtain ⟨c', l', hmarker', -, hl'⟩ := exists_marker_eq k m
  rw [hmarker, hmarker'] at h
  exact (word_unique hl hl' hr hr' (List.cons.inj h).2).2

end Text

/-! ## Parts with separators -/

/-- A list of parts is read in one way if each part is, and if what follows the list does not start
as a separator does. -/
theorem separated_unique {α : Type} (d : Dialect) {f : α → List Token} {S : α → α → Prop}
    {C : Prop} {F : List Char → Prop} {separator separator' : List Token} {r r' : List Char}
    (hr : F r) (hr' : F r') (hnext : ∀ n x, F (d.spellAll n separator ++ x))
    (hnext' : ∀ n x, F (d.spellAll n separator' ++ x))
    (hend : ∀ n x, r ≠ d.spellAll n separator' ++ x)
    (hend' : ∀ n x, r' ≠ d.spellAll n separator ++ x)
    (hseparator : ∀ n m x x', d.spellAll n separator ++ x = d.spellAll m separator' ++ x' →
      C ∧ x = x') {l l' : List α} (hl : l ≠ []) (hl' : l' ≠ [])
    (hparts : ∀ a ∈ l, ∀ b ∈ l', ∀ n m x x', F x → F x' →
      d.spellAll n (f a) ++ x = d.spellAll m (f b) ++ x' → S a b ∧ x = x') {n m : Nat}
    (h : d.spellAll n (separated separator (l.map f)) ++ r =
      d.spellAll m (separated separator' (l'.map f)) ++ r') :
    List.Forall₂ S l l' ∧ (2 ≤ l.length → C) ∧ r = r' := by
  induction l generalizing l' n m with
  | nil => exact absurd rfl hl
  | cons a l ih =>
    obtain ⟨b, l', rfl⟩ := List.exists_cons_of_ne_nil hl'
    have hfirst := hparts a List.mem_cons_self b List.mem_cons_self
    cases l with
    | nil =>
      cases l' with
      | nil =>
        simp only [List.map_cons, List.map_nil, separated_singleton] at h
        obtain ⟨hab, hrest⟩ := hfirst _ _ _ _ hr hr' h
        exact ⟨.cons hab .nil, fun hlength => absurd hlength (by simp), hrest⟩
      | cons b' l' =>
        simp only [List.map_cons, List.map_nil, separated_singleton, separated_cons_cons,
          spellAll_append, List.append_assoc] at h
        exact absurd (hfirst _ _ _ _ hr (hnext' _ _) h).2 (hend _ _)
    | cons a' l =>
      cases l' with
      | nil =>
        simp only [List.map_cons, List.map_nil, separated_singleton, separated_cons_cons,
          spellAll_append, List.append_assoc] at h
        exact absurd (hfirst _ _ _ _ (hnext _ _) hr' h).2.symm (hend' _ _)
      | cons b' l' =>
        simp only [List.map_cons, separated_cons_cons, spellAll_append, List.append_assoc] at h
        obtain ⟨hab, hrest⟩ := hfirst _ _ _ _ (hnext _ _) (hnext' _ _) h
        obtain ⟨hc, hrest⟩ := hseparator _ _ _ _ hrest
        obtain ⟨htail, -, hrest⟩ := ih (List.cons_ne_nil _ _) (List.cons_ne_nil _ _)
          (fun a ha b hb => hparts a (List.mem_cons_of_mem _ ha) b (List.mem_cons_of_mem _ hb))
          hrest
        exact ⟨.cons hab htail, fun _ => hc, hrest⟩

/-! ## Columns -/

section Quoted

variable (k : DialectKind) {n m : Nat} {r r' : List Char}

theorem path_ne_nil (t : Table) : t.referencePath ≠ [] := by
  rcases t with ⟨schema, ⟨name, _ | aliasName⟩ | ⟨aliasName⟩⟩ <;>
    simp [Table.referencePath, Table.alias?, Table.qualifiedPath]

theorem pathTokens_append_singleton {l : List Identifier} (hl : l ≠ []) (i : Identifier) :
    pathTokens (l ++ [i]) = pathTokens l ++ [.word .identifierSeparator, .identifier i] := by
  induction l with
  | nil => exact absurd rfl hl
  | cons j l ih =>
    cases l with
    | nil => rfl
    | cons j' l =>
      have hrest := ih (List.cons_ne_nil _ _)
      simp only [pathTokens, List.cons_append, List.map_cons, separated_cons_cons] at hrest ⊢
      rw [hrest]
      rfl

/-- A column with a name is written as its path. -/
theorem reference_eq_pathTokens {c : Column} (hc : c.name.isSome = true) :
    c.reference = pathTokens c.path ∧ c.path ≠ [] := by
  obtain ⟨name, table, aliasName⟩ := c
  obtain ⟨name, rfl⟩ := Option.isSome_iff_exists.mp hc
  cases table with
  | none => exact ⟨rfl, by simp [Column.path]⟩
  | some t =>
    refine ⟨?_, by simp [Column.path]⟩
    exact (pathTokens_append_singleton (path_ne_nil t) name).symm

/-- The dialects that quote have single characters for it, none of which is used otherwise. -/
theorem exists_quote (hk : k ≠ .generic) :
    ∃ o q, (∀ s, k.dialect.quote s = o :: doubled [q] s ++ [q]) ∧ o ≠ '(' ∧ q ≠ '.' ∧ q ≠ ' ' := by
  cases k with
  | generic => exact absurd rfl hk
  | sqlServer => exact ⟨'[', ']', fun _ => rfl, by decide, by decide, by decide⟩
  | postgres => exact ⟨'"', '"', fun _ => rfl, by decide, by decide, by decide⟩

theorem quote_unique (hk : k ≠ .generic) {i i' : Identifier}
    (hr : ∀ c ∈ r.head?, c = '.' ∨ c = ' ') (hr' : ∀ c ∈ r'.head?, c = '.' ∨ c = ' ')
    (h : k.dialect.quote i.text.toList ++ r = k.dialect.quote i'.text.toList ++ r') :
    i = i' ∧ r = r' := by
  obtain ⟨o, q, hquote, -, hdot, hspace⟩ := exists_quote k hk
  have hopen : ∀ {r : List Char}, (∀ c ∈ r.head?, c = '.' ∨ c = ' ') → r.head? ≠ some q := by
    intro r hr hq
    rcases hr q hq with rfl | rfl
    · exact hdot rfl
    · exact hspace rfl
  rw [hquote, hquote, List.append_assoc, List.append_assoc] at h
  obtain ⟨htext, hrest⟩ := doubled_unique (hopen hr) (hopen hr') (List.cons.inj h).2
  exact ⟨Identifier.ext (String.toList_inj.mp htext), hrest⟩

/-- A path ends where a space comes. -/
theorem path_unique (hk : k ≠ .generic) {l l' : List Identifier} (hl : l ≠ []) (hl' : l' ≠ [])
    (h : k.dialect.spellAll n (pathTokens l) ++ ' ' :: r =
      k.dialect.spellAll m (pathTokens l') ++ ' ' :: r') : l = l' ∧ r = r' := by
  have hdot : ∀ n, k.dialect.spellAll n [.word .identifierSeparator] = ['.'] := by
    intro n
    cases k <;> rfl
  have hparts : ∀ i ∈ l, ∀ i' ∈ l', ∀ n m x x', (∀ c ∈ x.head?, c = '.' ∨ c = ' ') →
      (∀ c ∈ x'.head?, c = '.' ∨ c = ' ') →
      k.dialect.spellAll n [.identifier i] ++ x = k.dialect.spellAll m [.identifier i'] ++ x' →
      i = i' ∧ x = x' := by
    intro i _ i' _ n m x x' hx hx' h
    simp only [Dialect.spellAll, Dialect.spell, List.append_nil] at h
    exact quote_unique k hk hx hx' h
  obtain ⟨hpath, -, hrest⟩ := separated_unique k.dialect (C := True)
    (by simp) (by simp) (by simp [hdot]) (by simp [hdot]) (by simp [hdot]) (by simp [hdot])
    (by simp [hdot]) hl hl' hparts h
  exact ⟨List.forall₂_eq_eq_eq ▸ hpath, (List.cons.inj hrest).2⟩

/-! ## Predicates -/

theorem kind_eq_cases {p q : Predicate} (h : p.kind = q.kind) :
    (∃ c v w, p = .compare c v ∧ q = .compare c w) ∨
      (∃ b v w v' w', p = .between b v w ∧ q = .between b v' w') ∨
      (∃ b l l', p = .inList b l ∧ q = .inList b l') ∨
      (∃ b i s s', p = .like b i s ∧ q = .like b i s') ∨ ∃ b, p = .isNull b ∧ q = .isNull b := by
  rcases p with ⟨c, v⟩ | ⟨_ | _, v, w⟩ | ⟨_ | _, l⟩ | ⟨_ | _, _ | _, s⟩ | _ | _ <;>
    rcases q with ⟨c', v'⟩ | ⟨_ | _, v', w'⟩ | ⟨_ | _, l'⟩ | ⟨_ | _, _ | _, s'⟩ | _ | _ <;>
    simp_all [Predicate.kind]

/-- A list of values ends where a bracket comes. -/
theorem values_unique {l l' : List Datum} (hl : l ≠ []) (hl' : l' ≠ [])
    (h : k.dialect.spellAll n (listed (l.map fun v => [.value v])) ++ ')' :: r =
      k.dialect.spellAll m (listed (l'.map fun v => [.value v])) ++ ')' :: r') :
    l.length = l'.length ∧ r = r' := by
  have hcomma : ∀ n, k.dialect.spellAll n [.word .listSeparator] = [',', ' '] := by
    intro n
    cases k <;> rfl
  have hparts : ∀ v ∈ l, ∀ w ∈ l', ∀ n m x x', Breaks x → Breaks x' →
      k.dialect.spellAll n [.value v] ++ x = k.dialect.spellAll m [.value w] ++ x' →
      True ∧ x = x' := by
    intro v _ w _ n m x x' hx hx' h
    simp only [Dialect.spellAll, Dialect.spell, List.append_nil] at h
    exact ⟨trivial, marker_unique k hx hx' h⟩
  obtain ⟨hvalues, -, hrest⟩ := separated_unique k.dialect (S := fun _ _ => True) (C := True)
    (ends_paren r).follows.breaks (ends_paren r').follows.breaks (by simp [hcomma, Breaks])
    (by simp [hcomma, Breaks]) (by simp [hcomma]) (by simp [hcomma]) (by simp [hcomma]) hl hl'
    hparts h
  exact ⟨hvalues.length_eq, (List.cons.inj hrest).2⟩

/-- What follows an operator starts with a space if there is anything. -/
theorem follows_operands (p : Predicate) (hr : Follows r) :
    Follows (k.dialect.spellAll n p.operands ++ r) := by
  cases p with
  | isNull => exact hr
  | _ => exact follows_space _

theorem operands_unique {p q : Predicate} (hp : ∀ b, p ≠ .inList b []) (hq : ∀ b, q ≠ .inList b [])
    (hkind : p.kind = q.kind) (hr : Follows r) (hr' : Follows r')
    (h : k.dialect.spellAll n p.operands ++ r = k.dialect.spellAll m q.operands ++ r') :
    p.values.length = q.values.length ∧ r = r' := by
  have hone : ∀ {v w : Datum}, k.dialect.spellAll n [.space, .value v] ++ r =
      k.dialect.spellAll m [.space, .value w] ++ r' → r = r' := by
    intro v w h
    simp only [Dialect.spellAll, Dialect.spell, List.append_nil, List.cons_append,
      List.nil_append] at h
    exact marker_unique k hr.breaks hr'.breaks (List.cons.inj h).2
  rcases kind_eq_cases hkind with ⟨c, v, w, rfl, rfl⟩ | ⟨b, v, w, v', w', rfl, rfl⟩ |
    ⟨b, l, l', rfl, rfl⟩ | ⟨b, i, s, s', rfl, rfl⟩ | ⟨b, rfl, rfl⟩
  · exact ⟨rfl, hone h⟩
  · simp only [Predicate.operands, Dialect.spellAll, Dialect.spell, List.append_assoc,
      List.cons_append, List.nil_append, List.append_nil] at h
    -- the word between the bounds is the same, so only the markers are to be told from the rest
    have hlow := marker_unique k (follows_space _).breaks (follows_space _).breaks
      (List.cons.inj h).2
    have hhigh := List.append_cancel_left (List.cons.inj hlow).2
    exact ⟨rfl, marker_unique k hr.breaks hr'.breaks (List.cons.inj hhigh).2⟩
  · simp only [Predicate.operands, inParens, spellAll_append, Dialect.spellAll, Dialect.spell,
      List.append_assoc, List.cons_append, List.nil_append, List.append_nil] at h
    exact values_unique k (fun hl => hp b (congrArg _ hl)) (fun hl => hq b (congrArg _ hl))
      (List.cons.inj (List.cons.inj h).2).2
  · exact ⟨rfl, hone h⟩
  · exact ⟨rfl, h⟩

theorem usual_operator (o : OperatorKind) : (k.dialect.operator o).getD o.usual = o.usual := by
  cases k <;> cases o <;> rfl

theorem of_checkLeaf {d : Dialect} {c : Column} {p : Predicate}
    (h : Condition.checkLeaf d c p = .ok ()) :
    c.name.isSome = true ∧ ∀ b, p ≠ .inList b [] := by
  unfold Condition.checkLeaf at h
  split at h
  · cases h
  · rename_i hall
    split at h
    · cases h
    · refine ⟨by simpa [Column.isAll, Option.isSome_iff_ne_none] using hall, ?_⟩
      rintro b rfl
      cases h

/-- The text of a predicate determines its column, its operator and the number of its values. -/
theorem leaf_unique (hk : k ≠ .generic) {c c' : Column} {p q : Predicate}
    (hc : Condition.checkLeaf k.dialect c p = .ok ())
    (hc' : Condition.checkLeaf k.dialect c' q = .ok ()) (hr : Follows r) (hr' : Follows r')
    (h : k.dialect.spellAll n (Condition.leaf c p).tokens ++ r =
      k.dialect.spellAll m (Condition.leaf c' q).tokens ++ r') :
    (Condition.leaf c p).SameTree (.leaf c' q) ∧ r = r' := by
  obtain ⟨hname, hp⟩ := of_checkLeaf hc
  obtain ⟨hname', hq⟩ := of_checkLeaf hc'
  obtain ⟨href, hpath⟩ := reference_eq_pathTokens hname
  obtain ⟨href', hpath'⟩ := reference_eq_pathTokens hname'
  simp only [Condition.tokens, href, href', spellAll_append, Dialect.spellAll, Dialect.spell,
    usual_operator, List.append_assoc, List.cons_append, List.nil_append] at h
  obtain ⟨hpaths, h⟩ := path_unique k hk hpath hpath' h
  obtain ⟨hkind, h⟩ := operator_unique (follows_operands k p hr) (follows_operands k q hr') h
  obtain ⟨hcount, hrest⟩ := operands_unique k hp hq hkind hr hr' h
  exact ⟨.leaf hpaths hkind hcount, hrest⟩

/-! ## Conditions -/

/-- What the text of a condition determines: its tree, and where it ends. -/
def Condition.Unique (c : Condition) : Prop :=
  ∀ c' : Condition, c.check k.dialect = .ok () → c'.check k.dialect = .ok () →
    ∀ n m r r', Follows r → Follows r' →
      k.dialect.spellAll n c.tokens ++ r = k.dialect.spellAll m c'.tokens ++ r' →
      c.SameTree c' ∧ r = r'

theorem tokensAll_eq_map (l : List Condition) : Condition.tokensAll l = l.map Condition.tokens := by
  induction l with
  | nil => rfl
  | cons c l ih => rw [Condition.tokensAll, ih, List.map_cons]

/-- A list of conditions ends where a bracket comes that is none of theirs. -/
theorem connected_unique {c c' : Connective} {l l' : List Condition} (hl : l ≠ []) (hl' : l' ≠ [])
    (hunique : ∀ x ∈ l, x.Unique k) (hcheck : Condition.checkAll k.dialect l = .ok ())
    (hcheck' : Condition.checkAll k.dialect l' = .ok ()) (hr : Ends r) (hr' : Ends r')
    (h : k.dialect.spellAll n (connected c (Condition.tokensAll l)) ++ r =
      k.dialect.spellAll m (connected c' (Condition.tokensAll l')) ++ r') :
    List.Forall₂ Condition.SameTree l l' ∧ (2 ≤ l.length → c = c') ∧ r = r' := by
  have htag : ∀ (n : Nat) (c : Connective),
      k.dialect.spellAll n [.space, .connective c, .space] = ' ' :: c.tag.toList ++ [' '] := by
    intro n c
    cases k <;> rfl
  have hnext : ∀ (c : Connective) (n : Nat) (x : List Char),
      Follows (k.dialect.spellAll n [.space, .connective c, .space] ++ x) := by
    intro c n x
    rw [htag]
    exact follows_space _
  have hend : ∀ {r : List Char}, Ends r → ∀ (c : Connective) (n : Nat) (x : List Char),
      r ≠ k.dialect.spellAll n [.space, .connective c, .space] ++ x := by
    intro r hr c n x h
    rw [htag] at h
    exact absurd (hr ' ' (by rw [h]; rfl)) (by decide)
  rw [tokensAll_eq_map, tokensAll_eq_map] at h
  refine separated_unique k.dialect hr.follows hr'.follows (hnext c) (hnext c') (hend hr c')
    (hend hr' c) (fun n m x x' h => ?_) hl hl' (fun a ha b hb n m x x' hx hx' h => ?_) h
  · rw [htag, htag] at h
    simp only [List.cons_append, List.append_assoc] at h
    obtain ⟨hc, hrest⟩ := connective_unique (List.cons.inj h).2
    exact ⟨hc, (List.cons.inj hrest).2⟩
  · exact hunique a ha b (Condition.checkAll_eq_ok_iff.mp hcheck a ha)
      (Condition.checkAll_eq_ok_iff.mp hcheck' b hb) n m x x' hx hx' h

theorem of_check_group {d : Dialect} {c : Connective} {l : List Condition}
    (h : (Condition.group c l).check d = .ok ()) : l ≠ [] ∧ Condition.checkAll d l = .ok () := by
  rw [Condition.check] at h
  split at h
  · cases h
  · rename_i hl
    exact ⟨by simpa using hl, h⟩

/-- A predicate starts with a quote, and a group with a bracket. -/
theorem leaf_ne_group (hk : k ≠ .generic) {c : Column} {p : Predicate} {o : Connective}
    {l : List Condition} (hc : Condition.checkLeaf k.dialect c p = .ok ()) :
    k.dialect.spellAll n (Condition.leaf c p).tokens ++ r ≠
      k.dialect.spellAll m (Condition.group o l).tokens ++ r' := by
  intro h
  obtain ⟨href, hpath⟩ := reference_eq_pathTokens (of_checkLeaf hc).1
  obtain ⟨i, path, hi⟩ := List.exists_cons_of_ne_nil hpath
  obtain ⟨opening, closing, hquote, hopen, -, -⟩ := exists_quote k hk
  have hfirst : ∃ l, pathTokens c.path = .identifier i :: l := by
    rw [hi, pathTokens]
    cases path with
    | nil => exact ⟨_, rfl⟩
    | cons j path => exact ⟨_, separated_cons_cons _ _ _ _⟩
  obtain ⟨rest, hrest⟩ := hfirst
  simp only [Condition.tokens, inParens, href, hrest, List.cons_append, Dialect.spellAll,
    Dialect.spell, hquote] at h
  exact hopen (List.cons.inj h).1

theorem group_unique (hk : k ≠ .generic) (c : Connective) {l : List Condition}
    (hunique : ∀ x ∈ l, x.Unique k) : (Condition.group c l).Unique k := by
  intro x hcheck hcheck' n m r r' hr hr' h
  cases x with
  | leaf c' p =>
    rw [Condition.check] at hcheck'
    exact absurd h.symm (leaf_ne_group k hk hcheck')
  | group c' l' =>
    obtain ⟨hl, hcheck⟩ := of_check_group hcheck
    obtain ⟨hl', hcheck'⟩ := of_check_group hcheck'
    simp only [Condition.tokens, inParens, List.cons_append, spellAll_append, Dialect.spellAll,
      Dialect.spell, List.append_assoc, List.nil_append] at h
    obtain ⟨hconditions, hconnective, hrest⟩ := connected_unique k hl hl' hunique hcheck hcheck'
      (ends_paren r) (ends_paren r') (List.cons.inj h).2
    exact ⟨.group hconnective hconditions, (List.cons.inj hrest).2⟩

mutual

theorem condition_unique (hk : k ≠ .generic) : ∀ c : Condition, c.Unique k
  | .leaf c p => by
    intro x hcheck hcheck' n m r r' hr hr' h
    rw [Condition.check] at hcheck
    cases x with
    | leaf c' q =>
      rw [Condition.check] at hcheck'
      exact leaf_unique k hk hcheck hcheck' hr hr' h
    | group c' l' => exact absurd h (leaf_ne_group k hk hcheck)
  | .group c l => group_unique k hk c (conditions_unique hk l)

theorem conditions_unique (hk : k ≠ .generic) : ∀ l : List Condition, ∀ c ∈ l, c.Unique k
  | [] => nofun
  | c :: l => List.forall_mem_cons.mpr ⟨condition_unique hk c, conditions_unique hk l⟩

end

/-- Clauses of conditions that can be written, with one text, have one tree: no identifier changes
it, and no group is lost. -/
theorem whereText_unique (hk : k ≠ .generic) {l l' : List Condition}
    (hl : l ≠ []) (hl' : l' ≠ [])
    (hcheck : Condition.checkAll k.dialect l = .ok ())
    (hcheck' : Condition.checkAll k.dialect l' = .ok ()) (n m : Nat)
    (h : k.dialect.whereText n l = k.dialect.whereText m l') :
    List.Forall₂ Condition.SameTree l l' := by
  obtain ⟨c, l, rfl⟩ := List.exists_cons_of_ne_nil hl
  obtain ⟨c', l', rfl⟩ := List.exists_cons_of_ne_nil hl'
  have htext := congrArg String.toList h
  simp only [Dialect.whereText, String.toList_ofList, Condition.clause, clauses,
    separated_singleton, Dialect.spellAll] at htext
  have hconditions : k.dialect.spellAll n (connected .and (Condition.tokensAll (c :: l))) ++ [] =
      k.dialect.spellAll m (connected .and (Condition.tokensAll (c' :: l'))) ++ [] := by
    rw [List.append_nil, List.append_nil]
    exact List.append_cancel_left (List.append_cancel_left htext)
  exact (connected_unique k hl hl' (conditions_unique k hk _) hcheck hcheck' ends_nil ends_nil
    hconditions).1

end Quoted

/-- A name that two tables are known by. -/
def sharedName : Identifier := ⟨"shared", by decide, by decide⟩

/-- A column of a table, whose name looks like a part of a filter. -/
def oddColumn (t : Table) : Column :=
  ⟨some ⟨"a] IS NULL OR [b", by decide, by decide⟩, some t, none⟩

def oddFilter : List Condition :=
  [.leaf (oddColumn ⟨none, .named sharedName none⟩) (.between false (.integer 5) (.integer 9)),
   .group .or [.leaf orderTotal (.isNull true)]]

/-- The filter with other values, on another table of the same name. -/
def oddFilter' : List Condition :=
  [.leaf (oddColumn ⟨none, .derived sharedName⟩) (.between false .null (.text "b")),
   .group .and [.leaf orderTotal (.isNull true)]]

theorem oddFilter_sameTree : Condition.checkAll Dialect.sqlServer oddFilter = .ok () ∧
    Condition.checkAll Dialect.sqlServer oddFilter' = .ok () ∧
    Dialect.sqlServer.whereText 0 oddFilter = Dialect.sqlServer.whereText 0 oddFilter' ∧
    List.Forall₂ Condition.SameTree oddFilter oddFilter' :=
  ⟨rfl, rfl, rfl, whereText_unique .sqlServer nofun nofun nofun rfl rfl 0 0 rfl⟩

end EventStore.Sql
