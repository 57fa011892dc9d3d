import EventStore.Instant.Parse

/-!
# Instants are read back from their text

Proved here:

* `digits?_append`, `year?_yearChars`, `fraction?_fractionChars`: each part of the text of an
  instant is read to where it ends;
* `ofText?_text`: an instant is read back from its text, if its year is one that is read and a leap
  second is the last of its minute (`Instant.Regular`);
* `regular_of_ofText?`: there are no others among the instants that are read;
* `ofText?_text_iff`: so these are all that are read back.
-/

namespace EventStore.Instant

open Text

/-! ## Digits -/

theorem mem_fixedDigits {width n : Nat} {c : Char} (h : c ∈ fixedDigits 10 width n) :
    ∃ d < 10, c = digit d := by
  induction width generalizing n with
  | zero => cases h
  | succ width ih =>
    rcases List.mem_append.mp h with h | h
    · exact ih h
    · exact ⟨n % 10, Nat.mod_lt n (by decide), List.mem_singleton.mp h⟩

theorem fixedDigits_isDigit (width n : Nat) : ∀ c ∈ fixedDigits 10 width n, c.isDigit = true := by
  intro c hc
  obtain ⟨d, hd, rfl⟩ := mem_fixedDigits hc
  exact isDigit_digit d hd

theorem fixedDigits_eq_cons {width : Nat} (hwidth : 0 < width) (n : Nat) :
    ∃ d < 10, ∃ ds, fixedDigits 10 width n = digit d :: ds := by
  cases hdigits : fixedDigits 10 width n with
  | nil =>
    have hlength := length_fixedDigits 10 width n
    simp only [hdigits, List.length_nil] at hlength
    omega
  | cons c ds =>
    have hc : c ∈ fixedDigits 10 width n := hdigits ▸ List.mem_cons_self
    obtain ⟨d, hd, rfl⟩ := mem_fixedDigits hc
    exact ⟨d, hd, ds, rfl⟩

/-- No digit comes next. -/
def NoDigit (rest : List Char) : Prop := ∀ c ∈ rest.head?, c.isDigit = false

theorem noDigit_cons {c : Char} (h : c.isDigit = false) (rest : List Char) :
    NoDigit (c :: rest) := by
  simpa [NoDigit] using h

theorem takeWhile_of_noDigit {rest : List Char} (h : NoDigit rest) :
    rest.takeWhile Char.isDigit = [] := by
  cases rest with
  | nil => rfl
  | cons c rest => simp [h c rfl]

/-- Digits are read up to the width, or to where they end. -/
theorem digits?_append {width : Nat} {ds rest : List Char} (hds : ∀ c ∈ ds, c.isDigit = true)
    (hne : ds ≠ []) (hwidth : ds.length ≤ width) (hend : ds.length = width ∨ NoDigit rest) :
    digits? width (ds ++ rest) = some (ofDigits 10 ds, rest) := by
  have htake : ((ds ++ rest).takeWhile Char.isDigit).take width = ds := by
    rw [List.takeWhile_append_of_pos hds]
    rcases hend with heq | hrest
    · rw [← heq, List.take_left]
    · rw [takeWhile_of_noDigit hrest, List.append_nil, List.take_of_length_le hwidth]
  simp only [digits?, htake, if_neg hne, List.drop_left]

theorem digits?_fixedDigits {width limit n : Nat} {rest : List Char} (hwidth : 0 < width)
    (hlimit : width ≤ limit) (hn : n < Nat.pow 10 width) (hend : width = limit ∨ NoDigit rest) :
    digits? limit (fixedDigits 10 width n ++ rest) = some (n, rest) := by
  have hlength := length_fixedDigits 10 width n
  have hne : fixedDigits 10 width n ≠ [] := List.ne_nil_of_length_pos (by omega)
  rw [digits?_append (fixedDigits_isDigit width n) hne (by omega) (hend.imp_left hlength.trans),
    ofDigits_fixedDigits 10 width n (by decide) (by decide), Nat.mod_eq_of_lt hn]

theorem digit_not_blank : ∀ d < 10, digit d ∉ blanks := by decide

theorem dropBlanks_fixedDigits {width : Nat} (hwidth : 0 < width) (n : Nat) (rest : List Char) :
    dropBlanks (fixedDigits 10 width n ++ rest) = fixedDigits 10 width n ++ rest := by
  obtain ⟨d, hd, ds, hdigits⟩ := fixedDigits_eq_cons hwidth n
  rw [hdigits, List.cons_append, dropBlanks_cons, if_neg (digit_not_blank d hd)]

theorem field?_fixedDigits {n : Nat} (hn : n < 100) (rest : List Char) :
    field? (fixedDigits 10 2 n ++ rest) = some (n, rest) := by
  rw [field?, dropBlanks_fixedDigits (by decide), digits?_fixedDigits (by decide) (Nat.le_refl 2) hn
    (Or.inl rfl)]

theorem separator?_cons {c : Char} (hc : c ∉ blanks) (rest : List Char) :
    separator? c (c :: rest) = some rest := by
  rw [separator?, dropBlanks_cons, if_neg hc]
  exact if_pos rfl

/-! ## Years -/

theorem ofDigits_zeros (k : Nat) (l : List Char) :
    ofDigits 10 (List.replicate k '0' ++ l) = ofDigits 10 l := by
  induction k with
  | zero => rfl
  | succ k ih => exact ih

theorem digits?_paddedDecimal {width k n : Nat} {rest : List Char}
    (hwidth : (paddedDecimal k n).length ≤ width) (hrest : NoDigit rest) :
    digits? width (paddedDecimal k n ++ rest) = some (n, rest) := by
  have hdigits : ∀ c ∈ paddedDecimal k n, c.isDigit = true := by
    intro c hc
    rcases List.mem_append.mp hc with hc | hc
    · rw [List.eq_of_mem_replicate hc]
      decide
    · exact decimal_isDigit n c hc
  have hne : paddedDecimal k n ≠ [] := List.append_ne_nil_of_right_ne_nil _ (decimal_ne_nil n)
  rw [digits?_append hdigits hne hwidth (Or.inr hrest), paddedDecimal, ofDigits_zeros,
    ofDigits_decimal]

theorem year?_yearChars (y : Int) {rest : List Char} (hrest : NoDigit rest) :
    year? (yearChars y ++ rest) = some (y, rest) := by
  have hsigned : digits? (paddedDecimal 4 y.natAbs ++ rest).length
      (paddedDecimal 4 y.natAbs ++ rest) = some (y.natAbs, rest) :=
    digits?_paddedDecimal (by rw [List.length_append]; exact Nat.le_add_right _ _) hrest
  by_cases hplain : 0 ≤ y ∧ y ≤ 9999
  · obtain ⟨d, hd, ds, hdigits⟩ := fixedDigits_eq_cons (by decide : 0 < 4) y.toNat
    have hread : digits? 4 (fixedDigits 10 4 y.toNat ++ rest) = some (y.toNat, rest) :=
      digits?_fixedDigits (by decide) (Nat.le_refl 4) (by show _ < 10000; omega) (Or.inl rfl)
    have hsign : digit d ≠ '-' ∧ digit d ≠ '+' :=
      (by decide : ∀ d < 10, digit d ≠ '-' ∧ digit d ≠ '+') d hd
    rw [yearChars, if_pos hplain, year?, dropBlanks_fixedDigits (by decide)]
    split
    · rename_i heq
      rw [hdigits] at heq
      exact absurd (List.cons.inj heq).1 hsign.1
    · rename_i heq
      rw [hdigits] at heq
      exact absurd (List.cons.inj heq).1 hsign.2
    · rw [hread]
      exact congrArg (fun z : Int => some (z, rest)) (Int.toNat_of_nonneg hplain.1)
  · rw [yearChars, if_neg hplain]
    by_cases hneg : y < 0
    · rw [if_pos hneg, List.cons_append, year?, dropBlanks_cons, if_neg (by decide)]
      show (digits? _ _).map _ = _
      rw [hsigned]
      exact congrArg (fun z : Int => some (z, rest)) (by omega : -(y.natAbs : Int) = y)
    · rw [if_neg hneg, List.cons_append, year?, dropBlanks_cons, if_neg (by decide)]
      show (digits? _ _).map _ = _
      rw [hsigned]
      exact congrArg (fun z : Int => some (z, rest)) (by omega : (y.natAbs : Int) = y)

/-! ## Fractions and clock times -/

theorem fraction?_digits {width n : Nat} (hwidth : 0 < width) (hle : width ≤ 9)
    (hn : n < Nat.pow 10 width) :
    fraction? ('.' :: (fixedDigits 10 width n ++ ['Z'])) =
      some (n * Nat.pow 10 (9 - width), ['Z']) := by
  have hlength := length_fixedDigits 10 width n
  have hread : digits? 9 (fixedDigits 10 width n ++ ['Z']) = some (n, ['Z']) :=
    digits?_fixedDigits hwidth hle hn (Or.inr (noDigit_cons rfl []))
  have hcount : (fixedDigits 10 width n ++ ['Z']).length - ['Z'].length = width := by
    rw [List.length_append, hlength, Nat.add_sub_cancel]
  show (digits? 9 _).map _ = _
  rw [hread, Option.map_some]
  simp only [hcount]
  rfl

theorem fraction?_fractionChars {n : Nat} (hn : n < 1000000000) :
    fraction? (fractionChars n ++ ['Z']) = some (n, ['Z']) := by
  unfold fractionChars
  split
  · rename_i hzero
    rw [hzero]
    rfl
  split
  · rename_i hmilli
    rw [List.cons_append, fraction?_digits (by decide) (by decide) (by show _ < 1000; omega)]
    exact congrArg (fun n => some (n, ['Z'])) (by show n / 1000000 * 1000000 = n; omega)
  split
  · rename_i hmicro
    rw [List.cons_append, fraction?_digits (by decide) (by decide) (by show _ < 1000000; omega)]
    exact congrArg (fun n => some (n, ['Z'])) (by show n / 1000 * 1000 = n; omega)
  · rw [List.cons_append, fraction?_digits (by decide) (by decide) hn]
    exact congrArg (fun n => some (n, ['Z'])) (Nat.mul_one n)

/-- An instant that can be read: its year is in range, and a leap second is the last of its
minute. -/
structure Regular (t : Instant) : Prop where
  year : yearInRange t.date.year = true
  leap : 1000000000 ≤ t.nanos → t.second % 60 = 59

variable {t : Instant}

/-- Instants outside of leap seconds are regular in the years that four digits cover. -/
theorem regular_of_year (hyear : 0 ≤ t.date.year ∧ t.date.year ≤ 9999)
    (hnanos : t.nanos < 1000000000) : t.Regular where
  year := by
    simp only [yearInRange, Bool.and_eq_true, decide_eq_true_eq]
    omega
  leap := fun hleap => by omega

theorem ofFields?_clock (h : t.Regular) :
    ofFields? t.date (t.second / 3600) (t.second / 60 % 60)
      (t.second % 60 + t.nanos / 1000000000) (t.nanos % 1000000000) = some t := by
  obtain ⟨date, second, nanos, hsecond, hnanos⟩ := t
  have hleap := h.leap
  unfold ofFields?
  by_cases hn : nanos < 1000000000
  · rw [dif_pos (by simp only; omega)]
    congr 2 <;> simp only <;> omega
  · have hlast := hleap (by simp only; omega)
    rw [dif_neg (by simp only at hlast ⊢; omega), dif_pos (by simp only at hlast ⊢; omega)]
    congr 2 <;> simp only at hlast ⊢ <;> omega

theorem sinceOffset_zero (t : Instant) : t.sinceOffset 0 = t := by
  obtain ⟨date, second, nanos, hsecond, hnanos⟩ := t
  have hday : ¬ (second : Int) - 0 < 0 ∧ ¬ (86400 : Int) ≤ (second : Int) - 0 := by omega
  have hsame : ((second : Int) - 0 + 86400).toNat % 86400 = second := by omega
  simp only [sinceOffset, if_neg hday.1, if_neg hday.2, hsame]

/-! ## Instants -/

/-- The text of an instant, part by part from its start. -/
theorem chars_eq (t : Instant) : t.chars =
    yearChars t.date.year ++ ('-' :: (fixedDigits 10 2 t.date.month ++ ('-' ::
      (fixedDigits 10 2 t.date.day ++ ('T' :: (fixedDigits 10 2 (t.second / 3600) ++ (':' ::
        (fixedDigits 10 2 (t.second / 60 % 60) ++ (':' ::
          (fixedDigits 10 2 (t.second % 60 + t.nanos / 1000000000) ++
            (fractionChars (t.nanos % 1000000000) ++ ['Z']))))))))))) := by
  simp only [chars, List.append_assoc, List.cons_append]

theorem ofText?_text (h : t.Regular) : ofText? t.text = some t := by
  have hmonth := t.date.month_le
  have hday : t.date.day < 100 := by
    have hdays := t.date.day_le
    unfold daysInMonth at hdays
    repeat' split at hdays
    all_goals omega
  have hsecond := t.second_lt
  have hnanos := t.nanos_lt
  have hoffset : offset? ['Z'] = some (0, []) := by decide
  rw [ofText?, text, String.toList_ofList, chars_eq, ofChars?]
  simp only [year?_yearChars _ (noDigit_cons (c := '-') rfl _), bind, Option.bind,
    separator?_cons (by decide : '-' ∉ blanks), separator?_cons (by decide : ':' ∉ blanks),
    field?_fixedDigits (by omega : t.date.month < 100), field?_fixedDigits hday,
    field?_fixedDigits (by omega : t.second / 3600 < 100),
    field?_fixedDigits (by omega : t.second / 60 % 60 < 100),
    field?_fixedDigits (by omega : t.second % 60 + t.nanos / 1000000000 < 100),
    fraction?_fractionChars (by omega : t.nanos % 1000000000 < 1000000000), hoffset]
  rw [if_pos (Or.inl trivial), if_pos ⟨rfl, h.year, by decide⟩, Date.ofFields?_fields]
  simp only [ofFields?_clock h, sinceOffset_zero, if_pos h.year]

/-- Offsets are whole minutes. -/
theorem minutes_of_offset? {l rest : List Char} {offset : Int}
    (h : offset? l = some (offset, rest)) : offset % 60 = 0 := by
  unfold offset? at h
  dsimp only at h
  repeat' split at h
  all_goals try cases h
  all_goals omega

/-- Leap seconds stay at the end of a minute. -/
theorem regular_sinceOffset {offset : Int} (hleap : 1000000000 ≤ t.nanos → t.second % 60 = 59)
    (hminutes : offset % 60 = 0) (hday : offset.natAbs < 86400)
    (hyear : yearInRange (t.sinceOffset offset).date.year = true) :
    (t.sinceOffset offset).Regular := by
  refine ⟨hyear, fun hnanos => ?_⟩
  have hlast := hleap hnanos
  have hsecond := t.second_lt
  show ((t.second - offset : Int) + 86400).toNat % 86400 % 60 = 59
  omega

theorem leap_of_ofFields? {date : Date} {hour minute second nanos : Nat}
    (h : ofFields? date hour minute second nanos = some t) :
    1000000000 ≤ t.nanos → t.second % 60 = 59 := by
  unfold ofFields? at h
  split at h
  · obtain rfl := Option.some.inj h
    intro hnanos
    simp only at hnanos
    omega
  · split at h
    · obtain rfl := Option.some.inj h
      intro _
      show (hour * 3600 + minute * 60 + 59) % 60 = 59
      omega
    · cases h

/-- Every instant that is read can be read again from its own text. -/
theorem regular_of_ofText? {s : String} (h : ofText? s = some t) : t.Regular := by
  unfold ofText? ofChars? at h
  obtain ⟨⟨year, l₁⟩, -, h⟩ := Option.bind_eq_some_iff.mp h
  obtain ⟨l₂, -, h⟩ := Option.bind_eq_some_iff.mp h
  obtain ⟨⟨month, l₃⟩, -, h⟩ := Option.bind_eq_some_iff.mp h
  obtain ⟨l₄, -, h⟩ := Option.bind_eq_some_iff.mp h
  obtain ⟨⟨day, l₅⟩, -, h⟩ := Option.bind_eq_some_iff.mp h
  cases l₅ with
  | nil => cases h
  | cons c l₅ =>
    dsimp only at h
    split at h
    · obtain ⟨l₆, -, h⟩ := Option.bind_eq_some_iff.mp h
      obtain ⟨⟨hour, l₇⟩, -, h⟩ := Option.bind_eq_some_iff.mp h
      obtain ⟨l₈, -, h⟩ := Option.bind_eq_some_iff.mp h
      obtain ⟨⟨minute, l₉⟩, -, h⟩ := Option.bind_eq_some_iff.mp h
      obtain ⟨l₁₀, -, h⟩ := Option.bind_eq_some_iff.mp h
      obtain ⟨⟨second, l₁₁⟩, -, h⟩ := Option.bind_eq_some_iff.mp h
      obtain ⟨⟨nanos, l₁₂⟩, -, h⟩ := Option.bind_eq_some_iff.mp h
      obtain ⟨⟨offset, l₁₃⟩, hoffset, h⟩ := Option.bind_eq_some_iff.mp h
      dsimp only at h
      split at h
      · rename_i hrange
        obtain ⟨date, -, h⟩ := Option.bind_eq_some_iff.mp h
        obtain ⟨clock, hclock, h⟩ := Option.bind_eq_some_iff.mp h
        split at h
        · rename_i hyear
          obtain rfl := Option.some.inj h
          exact regular_sinceOffset (leap_of_ofFields? hclock) (minutes_of_offset? hoffset)
            hrange.2.2 hyear
        · cases h
      · cases h
    · cases h

theorem ofText?_text_iff : ofText? t.text = some t ↔ t.Regular :=
  ⟨regular_of_ofText?, ofText?_text⟩

end EventStore.Instant
