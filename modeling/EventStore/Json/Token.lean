import EventStore.Json.Number

/-! The words of a JSON text.

A text is cut into tokens until a place where no token can be read; there the last token says so. A
string keeps its meaning only if its escapes spell characters: half of a surrogate pair does not. -/

namespace EventStore.Json

open Text

inductive Token where
  | openArray
  | closeArray
  | openObject
  | closeObject
  | comma
  | colon
  | null
  | boolean (b : Bool)
  /-- A number, or `none` for a numeral out of range. -/
  | number (n : Option Number)
  /-- A string, or `none` if its escapes spell no characters. -/
  | string (s : Option String)
  /-- A place where no token can be read. -/
  | unreadable

namespace Token

/-- A piece of a string: a character, or the code unit of an escape. -/
inductive Piece where
  | char (c : Char)
  | unit (n : Nat)
deriving DecidableEq, Repr

/-- Joins surrogate pairs; fails on a surrogate without its partner. -/
def joinPieces : List Piece → Option (List Char)
  | [] => some []
  | .char c :: l => (joinPieces l).map (c :: ·)
  | .unit n :: l =>
    if n < 0xD800 ∨ 0xDFFF < n then (joinPieces l).map (Char.ofNat n :: ·)
    else
      match l with
      | .unit m :: l =>
        if n ≤ 0xDBFF ∧ 0xDC00 ≤ m ∧ m ≤ 0xDFFF then
          (joinPieces l).map (Char.ofNat (0x10000 + (n - 0xD800) * 0x400 + (m - 0xDC00)) :: ·)
        else none
      | _ => none

/-- The character of a short escape. -/
def shortEscape? (c : Char) : Option Char :=
  if c = '"' ∨ c = '\\' ∨ c = '/' then some c
  else if c = 'b' then some '\x08'
  else if c = 'f' then some '\x0c'
  else if c = 'n' then some '\n'
  else if c = 'r' then some '\r'
  else if c = 't' then some '\t'
  else none

/-- Reads the rest of a string up to its closing quote. -/
def pieces? : List Char → Option (List Piece × List Char)
  | [] => none
  | '"' :: l => some ([], l)
  | '\\' :: 'u' :: a :: b :: c :: d :: l =>
    if [a, b, c, d].all (fun x => (digitValue? x).isSome) then
      (pieces? l).map fun (ps, r) => (.unit (ofDigits 16 [a, b, c, d]) :: ps, r)
    else none
  | '\\' :: c :: l =>
    match shortEscape? c with
    | some e => (pieces? l).map fun (ps, r) => (.char e :: ps, r)
    | none => none
  | c :: l =>
    if c = '\\' ∨ c.toNat < 32 then none
    else (pieces? l).map fun (ps, r) => (.char c :: ps, r)

theorem length_of_pieces?_eq_some {l r : List Char} {ps : List Piece}
    (h : pieces? l = some (ps, r)) :
    r.length < l.length := by
  fun_induction pieces? l generalizing ps with
  | case1 => simp at h
  | case2 l => simp_all
  | case3 a b c d l _ ih =>
    obtain ⟨⟨qs, r'⟩, hq, he⟩ := Option.map_eq_some_iff.mp h
    simp only [Prod.mk.injEq] at he
    have := ih (he.2 ▸ hq)
    simp only [List.length_cons]
    omega
  | case4 => simp at h
  | case5 c l e _ _ ih =>
    obtain ⟨⟨qs, r'⟩, hq, he⟩ := Option.map_eq_some_iff.mp h
    simp only [Prod.mk.injEq] at he
    have := ih (he.2 ▸ hq)
    simp only [List.length_cons]
    omega
  | case6 => simp at h
  | case7 => simp at h
  | case8 c l _ _ _ _ ih =>
    obtain ⟨⟨qs, r'⟩, hq, he⟩ := Option.map_eq_some_iff.mp h
    simp only [Prod.mk.injEq] at he
    have := ih (he.2 ▸ hq)
    simp only [List.length_cons]
    omega

/-- Splits off the digits at the start. -/
def spanDigits (l : List Char) : List Char × List Char :=
  (l.takeWhile Char.isDigit, l.dropWhile Char.isDigit)

/-- Reads at least one digit. -/
def digits? (l : List Char) : Option (List Char × List Char) :=
  if (spanDigits l).1 = [] then none else some (spanDigits l)

/-- Reads the fraction of a numeral, if a point follows. -/
def fraction? : List Char → Option (Option (List Char) × List Char)
  | '.' :: l => (digits? l).map fun (ds, r) => (some ds, r)
  | l => some (none, l)

/-- Splits off a minus sign, and says whether there is one. -/
def spanMinus : List Char → Bool × List Char
  | '-' :: l => (true, l)
  | l => (false, l)

/-- Splits off a sign, and says whether it is a minus. -/
def spanSign : List Char → Bool × List Char
  | '+' :: l => (false, l)
  | l => spanMinus l

/-- Reads the exponent of a numeral, if its mark follows. -/
def exponent? : List Char → Option (Option (Bool × List Char) × List Char)
  | [] => some (none, [])
  | c :: l =>
    if c = 'e' ∨ c = 'E' then
      (digits? (spanSign l).2).map fun (ds, r) => (some ((spanSign l).1, ds), r)
    else some (none, c :: l)

/-- Reads a numeral. A leading zero stands alone. -/
def numeral? (l : List Char) : Option (Numeral × List Char) := do
  let (whole, r) ← digits? (spanMinus l).2
  if whole.head? = some '0' ∧ whole.length ≠ 1 then none
  let (fraction, r) ← fraction? r
  let (exponent, r) ← exponent? r
  some (⟨(spanMinus l).1, whole, fraction, exponent⟩, r)

/-- Reads a given word. -/
def word? (w : String) (l : List Char) : Option (List Char) :=
  if w.toList.isPrefixOf l then some (l.drop w.length) else none

/-- Blanks between tokens. -/
def isSpace (c : Char) : Bool := c = ' ' || c = '\t' || c = '\n' || c = '\r'

/-- Reads one token at the start of a text that does not start with a blank. -/
def next? (l : List Char) : Option (Token × List Char) :=
  match l with
  | [] => none
  | '[' :: l => some (.openArray, l)
  | ']' :: l => some (.closeArray, l)
  | '\x7b' :: l => some (.openObject, l)
  | '\x7d' :: l => some (.closeObject, l)
  | ',' :: l => some (.comma, l)
  | ':' :: l => some (.colon, l)
  | '"' :: l => (pieces? l).map fun (ps, r) => (.string ((joinPieces ps).map String.ofList), r)
  | 'n' :: _ => (word? "null" l).map (.null, ·)
  | 't' :: _ => (word? "true" l).map (.boolean true, ·)
  | 'f' :: _ => (word? "false" l).map (.boolean false, ·)
  | _ => (numeral? l).map fun (n, r) => (.number n.number?, r)

theorem length_of_digits?_eq_some {l ds r : List Char} (h : digits? l = some (ds, r)) :
    r.length < l.length := by
  have happ : ds ++ r = l ∧ ds ≠ [] := by
    unfold digits? at h
    split at h
    · simp at h
    · rename_i hne
      simp only [Option.some.injEq] at h
      rw [h] at hne
      exact ⟨by simpa [spanDigits] using congrArg (fun p => p.1 ++ p.2) h.symm, hne⟩
  have := List.length_pos_iff.mpr happ.2
  rw [← happ.1, List.length_append]
  omega

theorem length_of_fraction?_eq_some {l r : List Char} {f : Option (List Char)}
    (h : fraction? l = some (f, r)) : r.length ≤ l.length := by
  unfold fraction? at h
  split at h
  · obtain ⟨⟨ds, r'⟩, hd, he⟩ := Option.map_eq_some_iff.mp h
    simp only [Prod.mk.injEq] at he
    have := length_of_digits?_eq_some (he.2 ▸ hd)
    simp only [List.length_cons]
    omega
  · simp_all

theorem length_spanMinus_le (l : List Char) : (spanMinus l).2.length ≤ l.length := by
  unfold spanMinus
  split <;> simp

theorem length_spanSign_le (l : List Char) : (spanSign l).2.length ≤ l.length := by
  unfold spanSign
  split
  · simp
  · exact length_spanMinus_le _

theorem length_of_exponent?_eq_some {l r : List Char} {e : Option (Bool × List Char)}
    (h : exponent? l = some (e, r)) : r.length ≤ l.length := by
  unfold exponent? at h
  split at h
  · simp_all
  · rename_i c l
    split at h
    · obtain ⟨⟨ds, r'⟩, hd, he⟩ := Option.map_eq_some_iff.mp h
      simp only [Prod.mk.injEq] at he
      have := length_of_digits?_eq_some (he.2 ▸ hd)
      have := length_spanSign_le l
      simp only [List.length_cons]
      omega
    · simp_all

theorem length_of_numeral?_eq_some {l r : List Char} {n : Numeral}
    (h : numeral? l = some (n, r)) : r.length < l.length := by
  obtain ⟨⟨whole, r₁⟩, hd, h⟩ := Option.bind_eq_some_iff.mp h
  dsimp only at h
  split at h
  · simp at h
  obtain ⟨⟨fraction, r₂⟩, hf, h⟩ := Option.bind_eq_some_iff.mp h
  obtain ⟨⟨exponent, r₃⟩, he, h⟩ := Option.bind_eq_some_iff.mp h
  dsimp only at he
  simp only [Option.some.injEq, Prod.mk.injEq] at h
  have h1 := length_of_digits?_eq_some hd
  have h2 := length_of_fraction?_eq_some hf
  have h3 := length_of_exponent?_eq_some he
  have h4 := length_spanMinus_le l
  rw [← h.2]
  omega

theorem length_of_word?_eq_some {w : String} {l r : List Char} (hw : 0 < w.length)
    (h : word? w l = some r) : r.length < l.length := by
  unfold word? at h
  split at h
  · rename_i hp
    have := (List.isPrefixOf_iff_prefix.mp hp).length_le
    simp only [String.length_toList] at this
    simp only [Option.some.injEq] at h
    rw [← h, List.length_drop]
    omega
  · simp at h

/-- Each token takes at least one character. -/
theorem length_of_next?_eq_some {l r : List Char} {t : Token} (h : next? l = some (t, r)) :
    r.length < l.length := by
  have word {w : String} {t' : Token} {l : List Char} (hw : 0 < w.length)
      (h : (word? w l).map (t', ·) = some (t, r)) : r.length < l.length := by
    obtain ⟨r', hr, he⟩ := Option.map_eq_some_iff.mp h
    simp only [Prod.mk.injEq] at he
    exact length_of_word?_eq_some hw (he.2 ▸ hr)
  unfold next? at h
  split at h
  · simp at h
  iterate 6 (· simp_all)
  · obtain ⟨⟨ps, r'⟩, hp, he⟩ := Option.map_eq_some_iff.mp h
    simp only [Prod.mk.injEq] at he
    have := length_of_pieces?_eq_some (he.2 ▸ hp)
    simp only [List.length_cons]
    omega
  iterate 3 exact word (by decide) h
  · obtain ⟨⟨n, r'⟩, hn, he⟩ := Option.map_eq_some_iff.mp h
    simp only [Prod.mk.injEq] at he
    exact length_of_numeral?_eq_some (he.2 ▸ hn)

/-- The tokens of a text, blanks between them left out. -/
def tokens (l : List Char) : List Token :=
  match _hl : l.dropWhile isSpace with
  | [] => []
  | c :: t =>
    match _hn : next? (c :: t) with
    | none => [.unreadable]
    | some (token, r) => token :: tokens r
termination_by l.length
decreasing_by
  have := length_of_next?_eq_some _hn
  have := congrArg List.length _hl
  have := (List.dropWhile_suffix (l := l) isSpace).length_le
  omega

end Token

end EventStore.Json
