import EventStore.Json.Token
import EventStore.Json.Value

/-!
# The tokens of a value's text

Proved here:

* `tokens_integer`, `tokens_string`: a number and a string are read back as they are written;
* `tokens_chars`: the text of a value is cut into the tokens of the value (`Value.tokens`), if its
  numbers are integers of 64 bits (`Value.Whole`).
-/

namespace EventStore

namespace Text

theorem decimal_of_lt {n : Nat} (h : n < 10) : decimal n = [digit n] := by
  rw [decimal, if_pos h]

theorem decimal_of_le {n : Nat} (h : 10 ≤ n) :
    decimal n = decimal (n / 10) ++ [digit (n % 10)] := by
  rw [decimal, if_neg (by omega)]

/-- Only zero is written with a zero in front. -/
theorem head?_decimal {n : Nat} (h : 0 < n) : (decimal n).head? ≠ some '0' := by
  induction n using Nat.strongRecOn with
  | ind n ih =>
    by_cases hn : n < 10
    · have hdigit : ∀ n < 10, 0 < n → digit n ≠ '0' := by decide
      rw [decimal_of_lt hn, List.head?_cons]
      exact fun hzero => hdigit n hn h (Option.some.inj hzero)
    · have hhead := ih (n / 10) (by omega) (by omega)
      obtain ⟨c, l, hcons⟩ := List.exists_cons_of_ne_nil (decimal_ne_nil (n / 10))
      rw [hcons] at hhead
      rw [decimal_of_le (by omega), hcons]
      exact hhead

end Text

namespace Json

open Text

namespace Token

/-! ## One token -/

/-- Where a value may end: at the end of the text, or before a comma or a closing bracket. -/
def Ends (rest : List Char) : Prop := ∀ c ∈ rest.head?, c = ',' ∨ c = ']' ∨ c = '\x7d'

theorem ends_nil : Ends [] := by simp [Ends]

theorem ends_cons {c : Char} (h : c = ',' ∨ c = ']' ∨ c = '\x7d') (l : List Char) :
    Ends (c :: l) := by
  simpa [Ends] using h

theorem Ends.not_isDigit {c : Char} {l : List Char} (h : Ends (c :: l)) :
    c.isDigit = false ∧ c ≠ '.' ∧ c ≠ 'e' ∧ c ≠ 'E' := by
  rcases h c rfl with rfl | rfl | rfl <;> decide

theorem tokens_of_next? {c : Char} {l r : List Char} {t : Token} (hc : isSpace c = false)
    (h : next? (c :: l) = some (t, r)) : tokens (c :: l) = t :: tokens r := by
  rw [tokens]
  have hdrop : (c :: l).dropWhile isSpace = c :: l := List.dropWhile_cons_of_neg (by simp [hc])
  split
  · rename_i hnil
    rw [hdrop] at hnil
    cases hnil
  · rename_i c' l' hcons
    rw [hdrop] at hcons
    obtain ⟨rfl, rfl⟩ := List.cons.inj hcons
    split
    · rename_i hnone
      rw [h] at hnone
      cases hnone
    · rename_i t' r' hsome
      rw [h] at hsome
      cases hsome
      rfl

/-! ## Numbers -/

theorem spanDigits_decimal (n : Nat) {rest : List Char} (h : Ends rest) :
    spanDigits (decimal n ++ rest) = (decimal n, rest) := by
  have hrest : rest.takeWhile Char.isDigit = [] ∧ rest.dropWhile Char.isDigit = rest := by
    cases rest with
    | nil => exact ⟨rfl, rfl⟩
    | cons c l => simp [h.not_isDigit.1]
  have hall := decimal_isDigit n
  rw [spanDigits, List.takeWhile_append_of_pos hall, List.dropWhile_append_of_pos hall, hrest.1,
    hrest.2, List.append_nil]

theorem fraction?_of_ends {rest : List Char} (h : Ends rest) :
    fraction? rest = some (none, rest) := by
  unfold fraction?
  split
  · exact absurd rfl h.not_isDigit.2.1
  · rfl

theorem exponent?_of_ends {rest : List Char} (h : Ends rest) :
    exponent? rest = some (none, rest) := by
  cases rest with
  | nil => rfl
  | cons c l =>
    obtain ⟨-, -, hlower, hupper⟩ := h.not_isDigit
    simp [exponent?, hlower, hupper]

/-- The numeral of an integer. -/
def numeralOf (z : Int) : Numeral := ⟨decide (z < 0), decimal z.natAbs, none, none⟩

theorem numeral?_decimal (n : Nat) {rest : List Char} (h : Ends rest) :
    numeral? (decimal n ++ rest) = some (numeralOf n, rest) := by
  have hminus : spanMinus (decimal n ++ rest) = (false, decimal n ++ rest) := by
    obtain ⟨c, l, hcons⟩ := List.exists_cons_of_ne_nil (decimal_ne_nil n)
    have hdigit := decimal_isDigit n c (by simp [hcons])
    rw [hcons, List.cons_append]
    unfold spanMinus
    split
    · rename_i hminus
      obtain ⟨rfl, -⟩ := List.cons.inj hminus
      exact absurd hdigit (by decide)
    · rfl
  have hdigits : digits? (decimal n ++ rest) = some (decimal n, rest) := by
    rw [digits?, spanDigits_decimal n h, if_neg (decimal_ne_nil n)]
  have hzero : ¬ ((decimal n).head? = some '0' ∧ (decimal n).length ≠ 1) := by
    rintro ⟨hhead, hlength⟩
    rcases Nat.eq_zero_or_pos n with rfl | hpos
    · exact hlength (by rw [decimal_of_lt (by decide)]; rfl)
    · exact head?_decimal hpos hhead
  simp only [numeral?, hminus, hdigits, bind, Option.bind, hzero, if_false, fraction?_of_ends h,
    exponent?_of_ends h]
  rfl

theorem numeral?_integer (z : Int) {rest : List Char} (h : Ends rest) :
    numeral? (integer z ++ rest) = some (numeralOf z, rest) := by
  cases z with
  | ofNat n => exact numeral?_decimal n h
  | negSucc n =>
    have hdigits : digits? (decimal (n + 1) ++ rest) = some (decimal (n + 1), rest) := by
      rw [digits?, spanDigits_decimal _ h, if_neg (decimal_ne_nil _)]
    have hhead := head?_decimal (Nat.succ_pos n)
    have hminus : spanMinus (integer (.negSucc n) ++ rest) = (true, decimal (n + 1) ++ rest) := rfl
    have hnumeral : numeralOf (.negSucc n) = ⟨true, decimal (n + 1), none, none⟩ := by
      simp [numeralOf, Int.negSucc_lt_zero]
    simp only [numeral?, hminus, hdigits, bind, Option.bind, hhead, false_and, if_false,
      fraction?_of_ends h, exponent?_of_ends h, hnumeral]

theorem number?_numeralOf {z : Int} (hlow : -0x8000000000000000 ≤ z) (hhigh : z ≤ maxWord) :
    (numeralOf z).number? = some (.integer z) := by
  have hvalue : ofDigits 10 (decimal z.natAbs) = z.natAbs := ofDigits_decimal _
  unfold Numeral.number?
  simp only [numeralOf, hvalue, Option.isSome_none, Bool.false_eq_true, false_or]
  have hword : maxWord = 0xFFFFFFFFFFFFFFFF := rfl
  rw [if_neg (by omega)]
  by_cases hneg : z < 0
  · rw [if_neg (by simpa using hneg), if_pos (by omega)]
    congr 2
    omega
  · rw [if_pos (by simpa using hneg)]
    congr 2
    omega

/-- An integer starts with a digit or a minus sign. -/
theorem exists_integer_eq_cons (z : Int) :
    ∃ c l, integer z = c :: l ∧ (c.isDigit = true ∨ c = '-') := by
  cases z with
  | ofNat n =>
    obtain ⟨c, l, hcons⟩ := List.exists_cons_of_ne_nil (decimal_ne_nil n)
    exact ⟨c, l, hcons, Or.inl (decimal_isDigit n c (by simp [hcons]))⟩
  | negSucc n => exact ⟨'-', decimal (n + 1), rfl, Or.inr rfl⟩

theorem next?_of_numeral {c : Char} {l : List Char} (h : c.isDigit = true ∨ c = '-') :
    next? (c :: l) = (numeral? (c :: l)).map fun (n, r) => (.number n.number?, r) := by
  unfold next?
  split
  case h_12 => rfl
  all_goals simp_all

theorem tokens_integer {z : Int} (hlow : -0x8000000000000000 ≤ z) (hhigh : z ≤ maxWord) {rest : List Char}
    (h : Ends rest) :
    tokens (integer z ++ rest) = .number (some (.integer z)) :: tokens rest := by
  have hnumeral := numeral?_integer z h
  obtain ⟨c, l, hcons, hc⟩ := exists_integer_eq_cons z
  rw [hcons, List.cons_append] at hnumeral ⊢
  have hspace : isSpace c = false := by
    rcases hc with hc | rfl
    · cases hspace : isSpace c with
      | false => rfl
      | true =>
        simp only [isSpace, Bool.or_eq_true, decide_eq_true_eq] at hspace
        rcases hspace with ((rfl | rfl) | rfl) | rfl <;> exact absurd hc (by decide)
    · rfl
  refine tokens_of_next? hspace ?_
  rw [next?_of_numeral hc, hnumeral, Option.map_some]
  simp only [number?_numeralOf hlow hhigh]

/-! ## Strings -/

/-- A character is read back from its escape. -/
theorem pieces?_escapedChar (c : Char) (l : List Char) :
    ∃ p, pieces? (Value.escapedChar c ++ l) = (pieces? l).map (fun (ps, r) => (p :: ps, r)) ∧
      ∀ ps, joinPieces (p :: ps) = (joinPieces ps).map (c :: ·) := by
  have hchar : ∀ ps, joinPieces (.char c :: ps) = (joinPieces ps).map (c :: ·) := fun ps => by
    rw [joinPieces]
  unfold Value.escapedChar
  iterate 7
    split
    · rename_i hc
      subst hc
      exact ⟨_, rfl, hchar⟩
  split
  · rename_i hc
    refine ⟨.unit c.toNat, ?_, fun ps => ?_⟩
    · have hvalue : ofDigits 16 (fixedDigits 16 4 c.toNat) = c.toNat := by
        have hfits : c.toNat < Nat.pow 16 4 := Nat.lt_trans hc (by decide)
        rw [ofDigits_fixedDigits 16 4 _ (by decide) (by decide), Nat.mod_eq_of_lt hfits]
      have hdigit : ∀ n, (digitValue? (digit (n % 16))).isSome := fun n => by
        rw [digitValue?_digit _ (Nat.mod_lt n (by decide))]
        rfl
      have hfour : fixedDigits 16 4 c.toNat = [digit (c.toNat / 16 / 16 / 16 % 16),
          digit (c.toNat / 16 / 16 % 16), digit (c.toNat / 16 % 16), digit (c.toNat % 16)] := rfl
      rw [hfour] at hvalue ⊢
      simp only [List.cons_append, List.nil_append, pieces?, List.all_cons, List.all_nil, hdigit,
        Bool.and_self, if_true, hvalue]
    · rw [joinPieces.eq_def (.unit c.toNat :: ps)]
      dsimp only
      rw [if_pos (by omega), Char.ofNat_toNat]
  · rename_i h₁ h₂ h₃ h₄ h₅ h₆ h₇ hc
    refine ⟨.char c, ?_, hchar⟩
    rw [List.singleton_append]
    rw [pieces?.eq_def (c :: l)]
    split
    all_goals simp_all [Nat.not_lt_of_le]

theorem pieces?_flatMap (cs rest : List Char) :
    ∃ ps, pieces? (cs.flatMap Value.escapedChar ++ '"' :: rest) = some (ps, rest) ∧
      joinPieces ps = some cs := by
  induction cs with
  | nil => exact ⟨[], by simp [pieces?], rfl⟩
  | cons c cs ih =>
    obtain ⟨ps, hpieces, hjoin⟩ := ih
    obtain ⟨p, hp, hpjoin⟩ := pieces?_escapedChar c (cs.flatMap Value.escapedChar ++ '"' :: rest)
    refine ⟨p :: ps, ?_, ?_⟩
    · rw [List.flatMap_cons, List.append_assoc, hp, hpieces]
      rfl
    · rw [hpjoin, hjoin]
      rfl

theorem tokens_string (s : String) (rest : List Char) :
    tokens (Value.stringChars s ++ rest) = .string (some s) :: tokens rest := by
  obtain ⟨ps, hpieces, hjoin⟩ := pieces?_flatMap s.toList rest
  have hchars : Value.stringChars s ++ rest =
      '"' :: (s.toList.flatMap Value.escapedChar ++ '"' :: rest) := by
    simp [Value.stringChars]
  rw [hchars]
  refine tokens_of_next? rfl ?_
  rw [next?, hpieces, Option.map_some]
  simp only [hjoin, Option.map_some, String.ofList_toList]

/-! ## Words -/

theorem word?_append (w : String) (rest : List Char) : word? w (w.toList ++ rest) = some rest := by
  rw [word?, if_pos (by simp), ← String.length_toList, List.drop_left]

theorem tokens_null (rest : List Char) : tokens ("null".toList ++ rest) = .null :: tokens rest :=
  tokens_of_next? (c := 'n') rfl (congrArg (Option.map _) (word?_append "null" rest))

theorem tokens_true (rest : List Char) :
    tokens ("true".toList ++ rest) = .boolean true :: tokens rest :=
  tokens_of_next? (c := 't') rfl (congrArg (Option.map _) (word?_append "true" rest))

theorem tokens_false (rest : List Char) :
    tokens ("false".toList ++ rest) = .boolean false :: tokens rest :=
  tokens_of_next? (c := 'f') rfl (congrArg (Option.map _) (word?_append "false" rest))

end Token

/-! ## Values -/

namespace Value

mutual

/-- The tokens of a value. -/
def tokens : Value → List Token
  | .null => [.null]
  | .boolean b => [.boolean b]
  | .number n => [.number (some n)]
  | .string s => [.string (some s)]
  | .array l => .openArray :: itemsTokens l ++ [.closeArray]
  | .object l => .openObject :: membersTokens l ++ [.closeObject]

def itemsTokens : List Value → List Token
  | [] => []
  | [v] => v.tokens
  | v :: w :: l => v.tokens ++ .comma :: itemsTokens (w :: l)

def membersTokens : List (String × Value) → List Token
  | [] => []
  | [(k, v)] => .string (some k) :: .colon :: v.tokens
  | (k, v) :: m :: l => .string (some k) :: .colon :: v.tokens ++ .comma :: membersTokens (m :: l)

end

mutual

/-- Whether all numbers are integers of 64 bits. -/
def Whole : Value → Prop
  | .number (.integer z) => -0x8000000000000000 ≤ z ∧ z ≤ maxWord
  | .number (.float _) => False
  | .array l => WholeItems l
  | .object l => WholeMembers l
  | _ => True

def WholeItems : List Value → Prop
  | [] => True
  | v :: l => v.Whole ∧ WholeItems l

def WholeMembers : List (String × Value) → Prop
  | [] => True
  | (_, v) :: l => v.Whole ∧ WholeMembers l

end

open Token

mutual

theorem tokens_chars {v : Value} (hv : v.Whole) {rest : List Char} (hrest : Ends rest) :
    Token.tokens (v.chars ++ rest) = v.tokens ++ Token.tokens rest := by
  cases v with
  | null => exact tokens_null rest
  | boolean b =>
    cases b with
    | true => exact tokens_true rest
    | false => exact tokens_false rest
  | number n =>
    cases n with
    | integer z => exact tokens_integer hv.1 hv.2 hrest
    | float x => exact hv.elim
  | string s => exact tokens_string s rest
  | array l =>
    have hitems := tokens_itemsChars hv (ends_cons (Or.inr (Or.inl rfl)) rest)
    have hclose : Token.tokens (']' :: rest) = .closeArray :: Token.tokens rest :=
      tokens_of_next? rfl rfl
    rw [hclose] at hitems
    have hopen : Token.tokens ('[' :: (itemsChars l ++ ']' :: rest)) =
        .openArray :: Token.tokens (itemsChars l ++ ']' :: rest) := tokens_of_next? rfl rfl
    rw [hitems] at hopen
    simpa only [chars, tokens, List.cons_append, List.append_assoc, List.nil_append] using hopen
  | object l =>
    have hmembers := tokens_membersChars hv (ends_cons (Or.inr (Or.inr rfl)) rest)
    have hclose : Token.tokens ('\x7d' :: rest) = .closeObject :: Token.tokens rest :=
      tokens_of_next? rfl rfl
    rw [hclose] at hmembers
    have hopen : Token.tokens ('\x7b' :: (membersChars l ++ '\x7d' :: rest)) =
        .openObject :: Token.tokens (membersChars l ++ '\x7d' :: rest) := tokens_of_next? rfl rfl
    rw [hmembers] at hopen
    simpa only [chars, tokens, List.cons_append, List.append_assoc, List.nil_append] using hopen

theorem tokens_itemsChars {l : List Value} (hl : WholeItems l) {rest : List Char}
    (hrest : Ends rest) :
    Token.tokens (itemsChars l ++ rest) = itemsTokens l ++ Token.tokens rest := by
  match l, hl with
  | [], _ => rfl
  | [v], hl => exact tokens_chars hl.1 hrest
  | v :: w :: l, hl =>
    have hv := tokens_chars hl.1 (ends_cons (Or.inl rfl) (itemsChars (w :: l) ++ rest))
    have hcomma : Token.tokens (',' :: (itemsChars (w :: l) ++ rest)) =
        .comma :: Token.tokens (itemsChars (w :: l) ++ rest) := tokens_of_next? rfl rfl
    rw [hcomma, tokens_itemsChars hl.2 hrest] at hv
    simpa only [itemsChars, itemsTokens, List.cons_append, List.append_assoc] using hv

theorem tokens_membersChars {l : List (String × Value)} (hl : WholeMembers l) {rest : List Char}
    (hrest : Ends rest) :
    Token.tokens (membersChars l ++ rest) = membersTokens l ++ Token.tokens rest := by
  match l, hl with
  | [], _ => rfl
  | [(k, v)], hl =>
    have hcolon : Token.tokens (':' :: (v.chars ++ rest)) =
        .colon :: Token.tokens (v.chars ++ rest) := tokens_of_next? rfl rfl
    have hk := tokens_string k (':' :: (v.chars ++ rest))
    rw [hcolon, tokens_chars hl.1 hrest] at hk
    simpa only [membersChars, membersTokens, List.cons_append, List.append_assoc] using hk
  | (k, v) :: m :: l, hl =>
    have hv := tokens_chars hl.1 (ends_cons (Or.inl rfl) (membersChars (m :: l) ++ rest))
    have hcomma : Token.tokens (',' :: (membersChars (m :: l) ++ rest)) =
        .comma :: Token.tokens (membersChars (m :: l) ++ rest) := tokens_of_next? rfl rfl
    have hcolon : Token.tokens (':' :: (v.chars ++ ',' :: (membersChars (m :: l) ++ rest))) =
        .colon :: Token.tokens (v.chars ++ ',' :: (membersChars (m :: l) ++ rest)) :=
      tokens_of_next? rfl rfl
    have hk := tokens_string k (':' :: (v.chars ++ ',' :: (membersChars (m :: l) ++ rest)))
    rw [hcolon, hv, hcomma, tokens_membersChars hl.2 hrest] at hk
    simpa only [membersChars, membersTokens, List.cons_append, List.append_assoc] using hk

end

end Value

end Json

end EventStore
