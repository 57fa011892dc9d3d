import EventStore.Proofs.EventTexts
import EventStore.Proofs.IdentityTexts

/-!
# Identities are canonical

An identity is a text that has nothing to trim. Whatever an identity is made from, its text is all
that is left of it, and that text gives the same identity again.

Proved here:

* `trimsTo_iff`: trimming leaves the part of a text between the blanks at its ends;
* `Identity.ofText_eq_ok_iff`, `Identity.ofText_eq_error_iff`: the texts that give an identity, and
  why others do not;
* `Identity.readText_eq_ok_iff`: from JSON, an identity is made of the same texts;
* `identities_are_canonical`: so all constructors agree, and each identity is a fixed point of them.
-/

namespace EventStore

/-! ## Trimming -/

namespace Text

/-- The second text is the part of the first one between the blanks at its ends. -/
structure TrimsTo (s t : String) : Prop where
  around : ∃ before after : List Char, (∀ c ∈ before, c ∈ blanks) ∧ (∀ c ∈ after, c ∈ blanks) ∧
    s.toList = before ++ t.toList ++ after
  head : ∀ c ∈ t.toList.head?, c ∉ blanks
  last : ∀ c ∈ t.toList.getLast?, c ∉ blanks

variable {l before after : List Char} {s t : String}

theorem dropBlanks_append (h : ∀ c ∈ before, c ∈ blanks) (l : List Char) :
    dropBlanks (before ++ l) = dropBlanks l :=
  List.dropWhile_append_of_pos fun c hc => decide_eq_true (h c hc)

theorem dropBlanks_of_head (h : ∀ c ∈ l.head?, c ∉ blanks) : dropBlanks l = l := by
  cases l with
  | nil => rfl
  | cons c l => rw [dropBlanks_cons, if_neg (h c rfl)]

theorem head_dropBlanks (l : List Char) : ∀ c ∈ (dropBlanks l).head?, c ∉ blanks := by
  intro c hc hblank
  have hhead := List.head?_dropWhile_not (· ∈ blanks) l
  rw [← dropBlanks, hc] at hhead
  simp [hblank] at hhead

theorem exists_append_dropBlanks (l : List Char) :
    ∃ before, (∀ c ∈ before, c ∈ blanks) ∧ before ++ dropBlanks l = l := by
  refine ⟨l.takeWhile (· ∈ blanks), fun c hc => ?_, List.takeWhile_append_dropWhile⟩
  exact of_decide_eq_true (List.all_eq_true.mp List.all_takeWhile c hc)

/-- Trimming drops the blanks around a text and no more. -/
theorem trimList_around (hbefore : ∀ c ∈ before, c ∈ blanks) (hafter : ∀ c ∈ after, c ∈ blanks)
    (hhead : ∀ c ∈ l.head?, c ∉ blanks) (hlast : ∀ c ∈ l.getLast?, c ∉ blanks) :
    trimList (before ++ l ++ after) = l := by
  have hend : dropBlanks (l ++ after).reverse = l.reverse := by
    rw [List.reverse_append, dropBlanks_append fun c hc => hafter c (List.mem_reverse.mp hc)]
    exact dropBlanks_of_head (by rwa [List.head?_reverse])
  have hstart : dropBlanks (dropBlanks (l ++ after)).reverse = l.reverse := by
    cases l with
    | nil => rw [List.nil_append, ← List.append_nil after, dropBlanks_append hafter]; rfl
    | cons c l => rw [dropBlanks_of_head (l := c :: l ++ after) hhead, hend]
  rw [trimList, List.append_assoc, dropBlanks_append hbefore, hstart, List.reverse_reverse]

theorem trimsTo_trim (s : String) : TrimsTo s (trim s) := by
  obtain ⟨before, hbefore, hstart⟩ := exists_append_dropBlanks s.toList
  obtain ⟨after, hafter, hend⟩ := exists_append_dropBlanks (dropBlanks s.toList).reverse
  have hrest : trimList s.toList ++ after.reverse = dropBlanks s.toList := by
    rw [trimList, ← List.reverse_append, hend, List.reverse_reverse]
  have htrim : (trim s).toList = trimList s.toList := String.toList_ofList
  refine ⟨⟨before, after.reverse, hbefore, fun c hc => hafter c (List.mem_reverse.mp hc), ?_⟩,
    fun c hc => head_dropBlanks s.toList c ?_, fun c hc => ?_⟩
  · rw [htrim, List.append_assoc, hrest, hstart]
  · rw [htrim] at hc
    rw [← hrest, List.head?_append, hc]
    rfl
  · rw [htrim, trimList, List.getLast?_reverse] at hc
    exact head_dropBlanks _ c hc

theorem trimsTo_iff : TrimsTo s t ↔ trim s = t := by
  constructor
  · rintro ⟨⟨before, after, hbefore, hafter, hs⟩, hhead, hlast⟩
    rw [trim, hs, trimList_around hbefore hafter hhead hlast, String.ofList_toList]
  · rintro rfl
    exact trimsTo_trim s

theorem trimsTo_empty_iff : TrimsTo s "" ↔ ∀ c ∈ s.toList, c ∈ blanks := by
  constructor
  · rintro ⟨⟨before, after, hbefore, hafter, hs⟩, -, -⟩ c hc
    rw [hs, String.toList_empty, List.append_nil] at hc
    exact (List.mem_append.mp hc).elim (hbefore c) (hafter c)
  · exact fun h => ⟨⟨s.toList, [], h, nofun, by simp⟩, nofun, nofun⟩

end Text

open Json Text

/-! ## Reading and converting -/

namespace Json.Reader

variable {α β : Type} {read : Reader α}

theorem ofText_eq_ok_iff {document : String} {a : α} :
    Reader.ofText read document = .ok a ↔
      read .ofText (Node.ofText document).1 = .ok a ∧ (Node.ofText document).2 = true := by
  simp only [Reader.ofText]
  split
  · rename_i hread
    simp [hread]
  · rename_i hread
    split <;> simp_all

theorem filterMap_eq_ok_iff {f : α → Option β} {r : Reading} {v : Node} {b : β} :
    read.filterMap f r v = .ok b ↔ ∃ a, read r v = .ok a ∧ f a = some b := by
  refine except_bind_eq_ok_iff.trans (exists_congr fun a => and_congr_right fun _ => ?_)
  cases f a <;> simp

/-- A document is converted if it is read as something that is converted. -/
theorem ofText_filterMap {f : α → Option β} {document : String} {b : β} :
    Reader.ofText (read.filterMap f) document = .ok b ↔
      ∃ a, Reader.ofText read document = .ok a ∧ f a = some b := by
  simp only [ofText_eq_ok_iff, filterMap_eq_ok_iff, and_right_comm, exists_and_right]

end Json.Reader

/-! ## Identities made of texts -/

namespace Identity

variable {kind : IdentityKind} {s t : String}

theorem ofText_eq_ok_iff {i : Identity kind} : Identity.ofText s = .ok i ↔ trim s = i.text := by
  constructor
  · exact fun h => (Mapping.text_of_ofText h).symm
  · intro h
    rw [ofText_congr (h.trans i.trim_text.symm), ofText_text]

/-- The texts that give an identity, and its text. -/
theorem exists_ofText_iff :
    (∃ i : Identity kind, Identity.ofText s = .ok i ∧ i.text = t) ↔
      trim s = t ∧ t ≠ "" ∧ t.length ≤ maxIdentityLength := by
  constructor
  · rintro ⟨i, h, rfl⟩
    exact ⟨ofText_eq_ok_iff.mp h, i.text_ne_empty, i.length_le⟩
  · rintro ⟨rfl, hne, hlength⟩
    exact ⟨⟨trim s, trim_trim s, hne, hlength⟩, ofText_eq_ok_iff.mpr rfl, rfl⟩

theorem ofText_eq_error_iff {e : IdentityError} :
    (Identity.ofText s : Except IdentityError (Identity kind)) = .error e ↔
      (trim s = "" ∧ e = .empty kind) ∨
        (maxIdentityLength < (trim s).length ∧ e = .tooLong kind (trim s).length) := by
  simp only [Identity.ofText]
  split
  · rename_i hempty
    simp [hempty, eq_comm]
  · rename_i hne
    split
    · rename_i hle
      simp [hne, Nat.not_lt_of_le hle]
    · rename_i hgt
      simp [hne, Nat.lt_of_not_le hgt, eq_comm]

/-! ## Identities in JSON -/

/-- A document is read as an identity if it is a string that gives the identity. -/
theorem readText_eq_ok_iff {document : String} {i : Identity kind} :
    Reader.ofText Identity.read document = .ok i ↔
      ∃ s, Reader.ofText Reader.string document = .ok s ∧ Identity.ofText s = .ok i := by
  refine Reader.ofText_filterMap.trans (exists_congr fun s => and_congr_right fun _ => ?_)
  cases (Identity.ofText s : Except IdentityError (Identity kind)) <;> simp [Except.toOption]

theorem readText_string (s : String) :
    Reader.ofText (Identity.read : Reader (Identity kind)) (Value.string s).text =
      (Identity.ofText s).mapError fun _ => .wrongShape := by
  have hwhole : (Value.string s).Whole := trivial
  rw [Reader.ofText, Node.ofText_text hwhole, Node.ofValue]
  simp only [Identity.read, Reader.filterMap, Reader.string, bind, Except.bind]
  cases (Identity.ofText s : Except IdentityError (Identity kind)) <;> rfl

theorem readText_toValue (i : Identity kind) :
    Reader.ofText Identity.read i.toValue.text = .ok i := by
  rw [toValue, readText_string, ofText_text]
  rfl

end Identity

namespace ActorId

variable {s : String}

theorem ofOptional_of_blank {o : Option String} (h : ∀ s ∈ o, ∀ c ∈ s.toList, c ∈ blanks) :
    ofOptional o = .ok .system := by
  cases o with
  | none => rfl
  | some s => exact if_pos (trimsTo_iff.mp (trimsTo_empty_iff.mpr (h s rfl)))

theorem ofOptional_of_not_blank (h : ∃ c ∈ s.toList, c ∉ blanks) :
    ofOptional (some s) = Identity.ofText s := by
  obtain ⟨c, hc, hblank⟩ := h
  exact if_neg fun htrim => hblank (trimsTo_empty_iff.mp (trimsTo_iff.mpr htrim) c hc)

end ActorId

/-- A text gives an identity if it is neither empty nor too long once the blanks at its ends are
dropped, and then the identity has the text that is left. A document gives one if it is a string
that does. So each identity, however it was made, is given by its own text and by its own JSON, and
two texts give the same identity exactly if they are trimmed to the same text. For an actor that is
optional, only a text that is missing or blank gives something else. -/
theorem identities_are_canonical :
    (∀ kind : IdentityKind,
      (∀ s t : String, (∃ i : Identity kind, Identity.ofText s = .ok i ∧ i.text = t) ↔
        TrimsTo s t ∧ t ≠ "" ∧ t.length ≤ 255) ∧
      (∀ (s : String) (e : IdentityError),
        (Identity.ofText s : Except IdentityError (Identity kind)) = .error e ↔
          (TrimsTo s "" ∧ e = .empty kind) ∨
            ∃ t, TrimsTo s t ∧ 255 < t.length ∧ e = .tooLong kind t.length) ∧
      (∀ (document : String) (i : Identity kind),
        Reader.ofText Identity.read document = .ok i ↔
          ∃ s, Reader.ofText Reader.string document = .ok s ∧ Identity.ofText s = .ok i) ∧
      (∀ s : String, Reader.ofText (Identity.read : Reader (Identity kind)) (Value.string s).text =
        (Identity.ofText s).mapError fun _ => .wrongShape) ∧
      (∀ i : Identity kind, Identity.ofText i.text = .ok i ∧
        Reader.ofText Identity.read i.toValue.text = .ok i) ∧
      ∀ (s t : String) (i j : Identity kind), Identity.ofText s = .ok i →
        Identity.ofText t = .ok j → (i = j ↔ ∃ u, TrimsTo s u ∧ TrimsTo t u)) ∧
    (∀ o : Option String, (∀ s ∈ o, ∀ c ∈ s.toList, c ∈ blanks) →
      ActorId.ofOptional o = .ok .system) ∧
    ∀ s : String, (∃ c ∈ s.toList, c ∉ blanks) →
      ActorId.ofOptional (some s) = Identity.ofText s := by
  refine ⟨fun kind => ⟨fun s t => ?_, fun s e => ?_, fun _ _ => Identity.readText_eq_ok_iff,
    Identity.readText_string, fun i => ⟨i.ofText_text, i.readText_toValue⟩,
    fun s t i j hi hj => ?_⟩, fun _ => ActorId.ofOptional_of_blank,
    fun _ => ActorId.ofOptional_of_not_blank⟩
  · rw [trimsTo_iff]
    exact Identity.exists_ofText_iff
  · simp only [trimsTo_iff, exists_eq_left']
    exact Identity.ofText_eq_error_iff
  · rw [Identity.ofText_eq_ok_iff] at hi hj
    simp only [trimsTo_iff, Identity.ext_iff, ← hi, ← hj, exists_eq_left']
    exact eq_comm

theorem spaced_alice_is_alice :
    ∃ i j : ActorId, Identity.ofText "\u3000alice \n" = .ok i ∧ Identity.ofText "alice" = .ok j ∧
      i = j ∧ ActorId.ofOptional (some "\u3000alice \n") = .ok j ∧
      Reader.ofText Identity.read i.toValue.text = .ok j := by
  obtain ⟨hkind, -, hoptional⟩ := identities_are_canonical
  obtain ⟨hgives, -, -, -, hfixed, hequal⟩ := hkind .actor
  have hspaced : TrimsTo "\u3000alice \n" "alice" := trimsTo_iff.mpr (by decide)
  have hplain : TrimsTo "alice" "alice" := trimsTo_iff.mpr (by decide)
  obtain ⟨i, hi, -⟩ := (hgives _ _).mpr ⟨hspaced, by decide, by decide⟩
  obtain ⟨j, hj, -⟩ := (hgives _ _).mpr ⟨hplain, by decide, by decide⟩
  obtain rfl : i = j := (hequal _ _ i j hi hj).mpr ⟨"alice", hspaced, hplain⟩
  have hactor : ActorId.ofOptional (some "\u3000alice \n") = .ok i :=
    (hoptional _ ⟨'a', by decide, by decide⟩).trans hi
  exact ⟨i, i, hi, hj, rfl, hactor, (hfixed i).2⟩

end EventStore
