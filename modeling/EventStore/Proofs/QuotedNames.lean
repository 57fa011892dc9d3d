import EventStore.Proofs.Placeholders

/-!
# Quoted names delimit themselves

A quoted name is read up to the first closing quote that is not doubled, where a doubled quote
stands for one character of the name. A closing quote inside a name is written doubled, so reading
stays in step with writing: it goes through the whole name and ends at the quote written after it.

Proved here, for every dialect whose closing quote is one character:

* `unquote_doubled`: reading goes through a name whatever comes after it;
* `head?_spellAll_ne`: no closing quote follows a name in the tokens of an expression;
* `names_stay_quoted`: a quoted name is read back with what follows it, wherever it stands.
-/

namespace EventStore.Sql

/-! ## Reading a quoted text -/

/-- The text before the first closing quote that is not doubled, and what follows that quote. A
doubled quote is read as one character. -/
def unquote (q : Char) : List Char → Option (List Char × List Char)
  | [] => none
  | [c] => if c = q then some ([], []) else none
  | c :: d :: l =>
    if c ≠ q then (unquote q (d :: l)).map (Prod.map (c :: ·) id)
    else if d = q then (unquote q l).map (Prod.map (c :: ·) id)
    else some ([], d :: l)

/-- A name at the start of a text, from after its opening quote, and what follows the name. -/
def Dialect.readName (d : Dialect) (q : Char) (l : List Char) : Option (List Char × List Char) :=
  unquote q (l.drop d.openQuote.toList.length)

section Unquote

variable {q : Char}

theorem unquote_cons {c : Char} (hc : c ≠ q) (l : List Char) :
    unquote q (c :: l) = (unquote q l).map (Prod.map (c :: ·) id) := by
  cases l with
  | nil => simp [unquote, hc]
  | cons d l => rw [unquote, if_pos hc]

theorem unquote_twice (l : List Char) :
    unquote q (q :: q :: l) = (unquote q l).map (Prod.map (q :: ·) id) := by
  rw [unquote, if_neg (not_not.mpr rfl), if_pos rfl]

/-- A quote that is not doubled is the end. -/
theorem unquote_once {rest : List Char} (hrest : rest.head? ≠ some q) :
    unquote q (q :: rest) = some ([], rest) := by
  cases rest with
  | nil => rw [unquote, if_pos rfl]
  | cons d l =>
    have hd : d ≠ q := fun h => hrest (congrArg some h)
    rw [unquote, if_neg (not_not.mpr rfl), if_neg hd]

theorem doubled_cons (q c : Char) (l : List Char) :
    doubled [q] (c :: l) = if c = q then q :: q :: doubled [q] l else c :: doubled [q] l := by
  have hbegins : [q] <+: c :: l ↔ c = q := by simp [eq_comm]
  rw [doubled]
  simp [hbegins]

/-- A name whose quotes are doubled is read through, whatever comes after it. -/
theorem unquote_doubled (s l : List Char) :
    unquote q (doubled [q] s ++ l) = (unquote q l).map (Prod.map (s ++ ·) id) := by
  induction s with
  | nil =>
    rw [doubled]
    exact Option.map_id.symm ▸ rfl
  | cons c s ih =>
    have hstep : (unquote q (doubled [q] s ++ l)).map (Prod.map (c :: ·) id) =
        (unquote q l).map (Prod.map (c :: s ++ ·) id) := by
      rw [ih, Option.map_map]
      rfl
    rw [doubled_cons]
    split
    · rename_i hc
      subst hc
      exact (unquote_twice _).trans hstep
    · rename_i hc
      exact (unquote_cons hc _).trans hstep

/-- A name ends at the first quote that is not doubled. -/
theorem unquote_doubled_of_ne (s : List Char) {rest : List Char} (hrest : rest.head? ≠ some q) :
    unquote q (doubled [q] s ++ q :: rest) = some (s, rest) := by
  rw [unquote_doubled, unquote_once hrest, Option.map_some, Prod.map_apply, List.append_nil]
  rfl

end Unquote

/-! ## Quoted names -/

namespace Dialect

variable {d : Dialect} {q : Char}

theorem readName_quote (hclose : d.closeQuote.toList = [q]) (s rest : List Char) :
    d.readName q (d.quote s ++ rest) = unquote q (doubled [q] s ++ q :: rest) := by
  have hquote : d.quote s ++ rest = d.openQuote.toList ++ (doubled [q] s ++ q :: rest) := by
    rw [quote, hclose, List.append_assoc, List.append_assoc]
    rfl
  rw [readName, hquote, List.drop_left]

theorem readName_quote_of_ne (hclose : d.closeQuote.toList = [q]) (s : List Char)
    {rest : List Char} (hrest : rest.head? ≠ some q) :
    d.readName q (d.quote s ++ rest) = some (s, rest) := by
  rw [readName_quote hclose, unquote_doubled_of_ne s hrest]

/-- A name ends no quotation that was opened for it. -/
theorem prefix_of_readName_quote (hclose : d.closeQuote.toList = [q]) {s rest name left : List Char}
    (h : d.readName q (d.quote s ++ rest) = some (name, left)) : s <+: name := by
  rw [readName_quote hclose, unquote_doubled] at h
  obtain ⟨⟨more, _⟩, -, heq⟩ := Option.map_eq_some_iff.mp h
  exact ⟨more, congrArg Prod.fst heq⟩

theorem quote_injective (hclose : d.closeQuote.toList = [q]) : Function.Injective d.quote := by
  intro s s' h
  have hread : ∀ s, d.readName q (d.quote s) = some (s, []) := fun s => by
    have hnil : d.readName q (d.quote s ++ []) = some (s, []) :=
      readName_quote_of_ne hclose s nofun
    rwa [List.append_nil] at hnil
  have hsome := (hread s).symm.trans (h ▸ hread s')
  exact congrArg Prod.fst (Option.some.inj hsome)

/-- In a dialect that parts names, no token that may follow a name starts with a closing quote. -/
def PartsNames (d : Dialect) (q : Char) : Prop :=
  ∀ t : Token, t.Parts → ∀ n, ∃ c l, d.spell n t = c :: l ∧ c ≠ q

end Dialect

/-- The dialects that have a name and quote part names. -/
theorem DialectKind.partsNames (k : DialectKind) {q : Char}
    (hclose : k.dialect.closeQuote.toList = [q]) : k.dialect.PartsNames q := by
  have hword : ∀ w : Word, (k.dialect.word w).toList = w.usual.toList := fun w => by
    cases k <;> rfl
  have hother : q ≠ ' ' ∧ q ≠ ')' ∧ q ≠ '.' ∧ q ≠ ',' ∧ q ≠ '\n' := by
    cases k with
    | generic => cases hclose
    | sqlServer => obtain rfl : ']' = q := (List.cons.inj hclose).1; decide
    | postgres => obtain rfl : '"' = q := (List.cons.inj hclose).1; decide
  obtain ⟨hspace, hparen, hdot, hcomma, hline⟩ := hother
  intro t ht n
  cases t with
  | space => exact ⟨_, _, rfl, hspace.symm⟩
  | rightParen => exact ⟨_, _, rfl, hparen.symm⟩
  | word w =>
    rw [Dialect.spell, hword]
    cases w with
    | identifierSeparator => exact ⟨'.', [], rfl, hdot.symm⟩
    | listSeparator => exact ⟨',', [' '], rfl, hcomma.symm⟩
    | clauseSeparator => exact ⟨'\n', [], rfl, hline.symm⟩
    | _ => exact ht.elim
  | _ => exact ht.elim

/-! ## What follows a name -/

theorem Phrase.fits {P : Identifier → Prop} {before after : List Token} {t : Token}
    (h : Phrase P (before ++ t :: after)) : t.Fits P after := by
  induction before with
  | nil => exact h.1
  | cons _ _ ih => exact ih h.2

section Follows

variable {d : Dialect} {q : Char} (hparts : d.PartsNames q) (n : Nat)

include hparts

theorem head?_spell_append_ne {t : Token} (ht : t.Parts) (l : List Char) :
    (d.spell n t ++ l).head? ≠ some q := by
  obtain ⟨c, m, hspell, hc⟩ := hparts t ht n
  rw [hspell]
  exact fun h => hc (Option.some.inj h)

theorem head?_spell_paging_ne (limit offset : Option Nat) :
    (d.spell n (.paging limit offset)).head? ≠ some q := by
  rw [Dialect.spell]
  cases d.paging limit offset with
  | none => simp
  | some s => exact head?_spell_append_ne hparts n (t := .word .clauseSeparator) trivial _

/-- After tokens that part names, and perhaps a clause that limits the rows, no closing quote
stands where the name ends. -/
theorem head?_spellAll_ne {l paging : List Token} (hl : Parted l)
    (hpaging : paging = [] ∨ ∃ limit offset, paging = [.paging limit offset]) :
    (d.spellAll n (l ++ paging)).head? ≠ some q := by
  cases l with
  | cons t l =>
    have ht : t.Parts := hl
    rw [List.cons_append, spellAll_cons d n (by rintro v rfl; exact ht)]
    exact head?_spell_append_ne hparts n ht _
  | nil =>
    rcases hpaging with rfl | ⟨limit, offset, rfl⟩
    · simp [Dialect.spellAll]
    · rw [List.nil_append, spellAll_cons d n (by simp), Dialect.spellAll, List.append_nil]
      exact head?_spell_paging_ne hparts n limit offset

end Follows

namespace Expression

variable {x : Expression} {d : Dialect} {statement : Statement} {before after : List Token}
  {i : Identifier}

/-- What follows a name is parted from it. -/
theorem parted_of_build (h : x.build d = .ok statement)
    (hx : x.tokens = before ++ .identifier i :: after) :
    ∃ l paging, after = l ++ paging ∧ Parted l ∧
      (paging = [] ∨ ∃ limit offset, paging = [.paging limit offset]) := by
  obtain ⟨l, paging, htokens, hl, hpaging, -⟩ :=
    tokens_of_build h (P := fun _ => True) fun _ _ => trivial
  have hnone : .identifier i ∉ paging := by
    rcases hpaging with rfl | ⟨limit, offset, rfl⟩ <;> simp
  rw [hx] at htokens
  -- the name stands in the phrase, since the clause that limits the rows has none
  rcases List.append_eq_append_iff.mp htokens with ⟨m, rfl, hm⟩ | ⟨m, -, hm⟩
  · cases m with
    | nil =>
      rw [List.nil_append] at hm
      exact absurd (hm ▸ List.mem_cons_self) hnone
    | cons t m =>
      obtain ⟨rfl, hafter⟩ := List.cons.inj hm
      exact ⟨m, paging, hafter, hl.fits.2, hpaging⟩
  · exact absurd (hm ▸ List.mem_append_right _ List.mem_cons_self) hnone

theorem text_of_build (h : x.build d = .ok statement)
    (hx : x.tokens = before ++ .identifier i :: after) :
    statement.text.toList = d.spellAll 0 before ++
      (d.quote i.text.toList ++ d.spellAll (tokenValues before).length after) := by
  rw [eq_ofTokens_of_build h, hx, Statement.ofTokens, String.toList_ofList, spellAll_append,
    Nat.zero_add, spellAll_cons d _ (by simp)]
  rfl

end Expression

/-- A quoted name is read back whole, with what comes after it, unless that starts with a closing
quote, and then reading only goes on after the name. So no two names are quoted alike, and no name
ends its own quotation, in whichever clause it stands: it is read back whole there too, if the
dialect parts names, as the dialects that have a name do. -/
theorem names_stay_quoted (d : Dialect) {q : Char} (hclose : d.closeQuote.toList = [q]) :
    (∀ s rest : List Char, rest.head? ≠ some q →
      d.readName q (d.quote s ++ rest) = some (s, rest)) ∧
      (∀ s rest name left : List Char, d.readName q (d.quote s ++ rest) = some (name, left) →
        s <+: name) ∧
      Function.Injective d.quote ∧
      (∀ (x : Expression) (statement : Statement), x.build d = .ok statement →
        ∀ before i after, x.tokens = before ++ .identifier i :: after →
          ∃ rest, statement.text.toList =
              d.spellAll 0 before ++ (d.quote i.text.toList ++ rest) ∧
            (∀ name left, d.readName q (d.quote i.text.toList ++ rest) = some (name, left) →
              i.text.toList <+: name) ∧
            (d.PartsNames q →
              d.readName q (d.quote i.text.toList ++ rest) = some (i.text.toList, rest))) ∧
      ∀ k : DialectKind, k.dialect = d → d.PartsNames q := by
  refine ⟨fun s _ hrest => Dialect.readName_quote_of_ne hclose s hrest,
    fun _ _ _ _ h => Dialect.prefix_of_readName_quote hclose h, Dialect.quote_injective hclose,
    fun x statement h before i after hx => ?_, fun k hk => hk ▸ k.partsNames (hk ▸ hclose)⟩
  refine ⟨_, Expression.text_of_build h hx,
    fun _ _ h => Dialect.prefix_of_readName_quote hclose h, fun hparts => ?_⟩
  obtain ⟨l, paging, rfl, hl, hpaging⟩ := Expression.parted_of_build h hx
  exact Dialect.readName_quote_of_ne hclose _ (head?_spellAll_ne hparts _ hl hpaging)

/-- A deletion from a table whose schema is all closing quotes. -/
def bracketed : Delete :=
  ⟨⟨some ⟨"]]", by decide, by decide⟩, .named ⟨"a]b", by decide, by decide⟩ none⟩, []⟩

theorem bracketed_stays_quoted :
    let schema := "]]".toList
    Dialect.sqlServer.closeQuote.toList = [']'] ∧
      ∃ statement, (Expression.delete bracketed).build .sqlServer = .ok statement ∧
        ∃ rest, statement.text.toList =
            "DELETE FROM ".toList ++ (Dialect.sqlServer.quote schema ++ rest) ∧
          Dialect.sqlServer.readName ']' (Dialect.sqlServer.quote schema ++ rest) =
            some (schema, rest) := by
  intro schema
  have hbuild : (Expression.delete bracketed).build .sqlServer =
      .ok (.ofTokens .sqlServer bracketed.tokens) := bracketed.build_eq .sqlServer
  obtain ⟨-, -, -, hplaces, hparts⟩ := names_stay_quoted .sqlServer (q := ']') rfl
  obtain ⟨rest, htext, -, hread⟩ :=
    hplaces _ _ hbuild [.word .deleteFrom, .space] ⟨"]]", by decide, by decide⟩ _ rfl
  exact ⟨rfl, _, hbuild, rest, htext, hread (hparts .sqlServer rfl)⟩

end EventStore.Sql
