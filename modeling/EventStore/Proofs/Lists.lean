import EventStore.Entries
import Mathlib.Data.List.Forall2
import Mathlib.Data.List.Induction
import Mathlib.Data.List.Nodup
import Mathlib.Data.List.Perm.Basic

/-!
# Lists

Proved here, for lists of any kind:

* `pairwise_lt_mergeSort_key`: distinct keys increase strictly once they are sorted;
* `mergeSort_key_eq_of_perm`: sorting by keys that increase strictly has one outcome;
* `filter_key_initial`: of elements with keys that increase strictly, those up to a bound come first;
* `lookup_eq_some_of_mem`: a key that occurs once is found;
* `mem_keys_ofList`: entries made from a list have the keys of the list;
* `except_bind_eq_ok_iff`: what succeeds has steps that do;
* `mapM_eq_ok`, `forall₂_of_mapM`, `mapM_of_forall₂`: a function that may fail, mapped over a list;
* `exists_mapM_of_perm`, `mapM_filter`: the same over another order of the list, or a part of it;
* `mapM_of_first_error`: it fails for a list as it fails for the first element for which it does;
* `exists_forall₂_filter`, `exists_of_forall₂`, `forall₂_trans`: lists whose elements are related,
  one by one;
* `exists_piece`: where an element stands in a list that is given in pieces;
* `exists_map_eq`: a list of images is the image of a list;
* `mem_of_mem_modify`, `mem_modify_of_mem`: what is in a list that is modified at one place;
* `nodup_eraseDups`, `eraseDups_sublist`: the first occurrences of the elements of a list;
* `pairwise_eraseDups_findIdx`: keys in the order of their first occurrences in a list;
* `flatMap_eq_of_mem`: of parts that are empty but for one, the whole is that one.
-/

namespace EventStore

variable {α β : Type}

theorem pairwise_mergeSort_key (key : α → Nat) (l : List α) :
    (l.mergeSort fun a b => key a ≤ key b).Pairwise fun a b => key a ≤ key b := by
  have htrans : ∀ a b c : α, decide (key a ≤ key b) → decide (key b ≤ key c) →
      decide (key a ≤ key c) := by
    intro a b c hab hbc
    simp only [decide_eq_true_eq] at *
    exact Nat.le_trans hab hbc
  have htotal : ∀ a b : α, (decide (key a ≤ key b) || decide (key b ≤ key a)) = true := by
    intro a b
    simp only [Bool.or_eq_true, decide_eq_true_eq]
    exact Nat.le_total _ _
  exact (List.pairwise_mergeSort htrans htotal l).imp fun h => by simpa using h

/-- Keys that are distinct increase strictly once they are sorted. -/
theorem pairwise_lt_mergeSort_key {key : α → Nat} {l : List α} (h : (l.map key).Nodup) :
    (l.mergeSort fun a b => key a ≤ key b).Pairwise fun a b => key a < key b := by
  have hperm := (List.mergeSort_perm l fun a b => decide (key a ≤ key b)).symm
  have hdistinct := List.pairwise_map.mp ((hperm.map key).nodup h)
  exact ((pairwise_mergeSort_key key l).and hdistinct).imp fun h => Nat.lt_of_le_of_ne h.1 h.2

/-- Keys that increase strictly leave only one order to sort into. -/
theorem mergeSort_key_eq_of_perm {key : α → Nat} {l sorted : List α} (hperm : l.Perm sorted)
    (hsorted : sorted.Pairwise fun a b => key a < key b) :
    (l.mergeSort fun a b => key a ≤ key b) = sorted := by
  have hnodup : (sorted.map key).Nodup := List.pairwise_map.mpr (hsorted.imp Nat.ne_of_lt)
  have hperm' := (List.mergeSort_perm l fun a b => decide (key a ≤ key b)).trans hperm
  refine hperm'.eq_of_pairwise (fun a b ha hb hab hba => ?_) (pairwise_mergeSort_key key l)
    (hsorted.imp Nat.le_of_lt)
  exact List.inj_on_of_nodup_map hnodup (hperm'.subset ha) hb (Nat.le_antisymm hab hba)

/-- Of elements with keys that increase strictly, those up to a bound come first. -/
theorem filter_key_initial {key : α → Nat} {l : List α} (h : l.Pairwise fun a b => key a < key b)
    (bound : Nat) : (l.filter fun a => key a ≤ bound) <+: l := by
  induction l with
  | nil => exact List.prefix_rfl
  | cons a l ih =>
    obtain ⟨ha, hl⟩ := List.pairwise_cons.mp h
    by_cases hle : key a ≤ bound
    · rw [List.filter_cons_of_pos (by simpa using hle)]
      exact (List.prefix_cons_inj a).mpr (ih hl)
    · have hnone : (l.filter fun b => key b ≤ bound) = [] := by
        refine List.filter_eq_nil_iff.mpr fun b hb => ?_
        have := ha b hb
        simp only [decide_eq_true_eq]
        omega
      rw [List.filter_cons_of_neg (by simpa using hle), hnone]
      exact List.nil_prefix

theorem mem_of_lookup_eq_some [BEq α] [LawfulBEq α] {l : List (α × β)} {a : α} {b : β}
    (h : l.lookup a = some b) : (a, b) ∈ l := by
  obtain ⟨l₁, l₂, rfl, -⟩ := List.lookup_eq_some_iff.mp h
  simp

theorem lookup_eq_some_of_mem [BEq α] [LawfulBEq α] {l : List (α × β)} {a : α} {b : β}
    (hkeys : (l.map (·.1)).Nodup) (h : (a, b) ∈ l) : l.lookup a = some b := by
  obtain ⟨l₁, l₂, rfl⟩ := List.append_of_mem h
  refine List.lookup_eq_some_iff.mpr ⟨l₁, l₂, rfl, fun p hp => ?_⟩
  rw [List.map_append, List.map_cons] at hkeys
  have hne := (List.nodup_append.mp hkeys).2.2 p.1 (List.mem_map_of_mem hp) a List.mem_cons_self
  simpa using fun e => hne e.symm

theorem mem_keys_insertEntry {k k' : String} {a : α} {l : List (String × α)} :
    k' ∈ (insertEntry k a l).map (·.1) ↔ k' = k ∨ k' ∈ l.map (·.1) := by
  induction l with
  | nil => simp [insertEntry]
  | cons p l ih =>
    unfold insertEntry
    split
    · rename_i heq
      simp [heq]
    · split
      · simp
      · rw [List.map_cons, List.mem_cons, ih, List.map_cons, List.mem_cons, or_left_comm]

/-- The keys of entries made from a list are those of the list. -/
theorem mem_keys_ofList {k : String} {l : List (String × α)} :
    k ∈ (Entries.ofList l).toList.map (·.1) ↔ k ∈ l.map (·.1) := by
  have hall : ∀ m : Entries α, k ∈ (m.insertAll l).toList.map (·.1) ↔
      k ∈ m.toList.map (·.1) ∨ k ∈ l.map (·.1) := by
    induction l with
    | nil => simp [Entries.insertAll]
    | cons p l ih =>
      intro m
      have hstep := ih (m.insert p.1 p.2)
      rw [Entries.insert, mem_keys_insertEntry] at hstep
      rw [List.map_cons, List.mem_cons, ← or_assoc, or_comm (b := k = p.1), ← hstep]
      rfl
  rw [Entries.ofList, hall]
  simp [Entries.empty]

theorem except_map_eq_ok_iff {ε : Type} {f : α → β} {x : Except ε α} {y : β} :
    x.map f = .ok y ↔ ∃ a, x = .ok a ∧ f a = y := by
  cases x <;> simp [Except.map]

theorem except_bind_eq_ok_iff {ε : Type} {f : α → Except ε β} {x : Except ε α} {b : β} :
    x >>= f = .ok b ↔ ∃ a, x = .ok a ∧ f a = .ok b := by
  cases x <;> simp [bind, Except.bind]

theorem exists_error_iff {ε : Type} {x : Except ε α} : (∃ e, x = .error e) ↔ ¬ ∃ a, x = .ok a := by
  cases x <;> simp

theorem except_mapError_eq_ok_iff {ε ε' : Type} {f : ε → ε'} {x : Except ε α} {a : α} :
    x.mapError f = .ok a ↔ x = .ok a := by
  cases x <;> simp [Except.mapError]

theorem mapM_eq_ok {ε : Type} {f : α → Except ε β} {g : α → β} {l : List α}
    (h : ∀ a ∈ l, f a = .ok (g a)) : l.mapM f = .ok (l.map g) := by
  induction l with
  | nil => rfl
  | cons a l ih =>
    rw [List.mapM_cons, h a List.mem_cons_self, ih fun x hx => h x (List.mem_cons_of_mem _ hx)]
    rfl

theorem forall₂_of_mapM {ε : Type} {f : α → Except ε β} {l : List α} {bs : List β}
    (h : l.mapM f = .ok bs) : List.Forall₂ (fun a b => f a = .ok b) l bs := by
  induction l generalizing bs with
  | nil =>
    rw [← Except.ok.inj h]
    exact List.Forall₂.nil
  | cons a l ih =>
    rw [List.mapM_cons] at h
    obtain ⟨b, hb, h⟩ := except_bind_eq_ok_iff.mp h
    obtain ⟨bs', hbs, h⟩ := except_bind_eq_ok_iff.mp h
    rw [← Except.ok.inj h]
    exact List.Forall₂.cons hb (ih hbs)

theorem mapM_of_forall₂ {ε : Type} {f : α → Except ε β} {l : List α} {bs : List β}
    (h : List.Forall₂ (fun a b => f a = .ok b) l bs) : l.mapM f = .ok bs := by
  induction h with
  | nil => rfl
  | cons hab _ ih =>
    rw [List.mapM_cons, hab, ih]
    rfl

theorem exists_mapM_iff {ε : Type} {f : α → Except ε β} {l : List α} :
    (∃ bs, l.mapM f = .ok bs) ↔ ∀ a ∈ l, ∃ b, f a = .ok b := by
  constructor
  · rintro ⟨bs, h⟩
    have hall := forall₂_of_mapM h
    clear h
    induction hall with
    | nil => simp
    | cons hab _ ih => exact List.forall_mem_cons.mpr ⟨⟨_, hab⟩, ih⟩
  · intro h
    induction l with
    | nil => exact ⟨[], rfl⟩
    | cons a l ih =>
      obtain ⟨b, hb⟩ := h a List.mem_cons_self
      obtain ⟨bs, hbs⟩ := ih fun x hx => h x (List.mem_cons_of_mem _ hx)
      exact ⟨b :: bs, mapM_of_forall₂ (.cons hb (forall₂_of_mapM hbs))⟩

/-- The results of a function are the results for each element. -/
theorem mem_of_mapM {ε : Type} {f : α → Except ε β} {l : List α} {bs : List β}
    (h : l.mapM f = .ok bs) {b : β} : b ∈ bs ↔ ∃ a ∈ l, f a = .ok b := by
  have hall := forall₂_of_mapM h
  clear h
  induction hall with
  | nil => simp
  | cons hab _ ih => simp [ih, hab, eq_comm]

theorem exists_mapM_of_perm {ε : Type} {f : α → Except ε β} {l l' : List α} {bs : List β}
    (hperm : l.Perm l') (h : l.mapM f = .ok bs) : ∃ bs', l'.mapM f = .ok bs' ∧ bs'.Perm bs := by
  obtain ⟨bs', hall, hbs⟩ := List.perm_comp_forall₂ hperm.symm (forall₂_of_mapM h)
  exact ⟨bs', mapM_of_forall₂ hall, hbs⟩

theorem mapM_filter {ε : Type} {f : α → Except ε β} {p : α → Bool} {q : β → Bool} {l : List α}
    {bs : List β} (hpq : ∀ a ∈ l, ∀ b, f a = .ok b → q b = p a) (h : l.mapM f = .ok bs) :
    (l.filter p).mapM f = .ok (bs.filter q) := by
  have hall := forall₂_of_mapM h
  clear h
  refine mapM_of_forall₂ ?_
  induction hall with
  | nil => exact .nil
  | @cons a b _ _ hab _ ih =>
    have hrest := ih fun x hx => hpq x (List.mem_cons_of_mem _ hx)
    have hb := hpq a List.mem_cons_self b hab
    cases ha : p a with
    | false =>
      rw [List.filter_cons_of_neg (by simp [ha]), List.filter_cons_of_neg (by simp [hb, ha])]
      exact hrest
    | true =>
      rw [List.filter_cons_of_pos ha, List.filter_cons_of_pos (by rw [hb, ha])]
      exact .cons hab hrest

/-- A function fails for a list as it fails for the first element for which it does. -/
theorem mapM_of_first_error {ε : Type} {f : α → Except ε β} {before after : List α} {a : α}
    {e : ε} (hbefore : ∀ b ∈ before, ∃ y, f b = .ok y) (ha : f a = .error e) :
    (before ++ a :: after).mapM f = .error e := by
  induction before with
  | nil =>
    rw [List.nil_append, List.mapM_cons, ha]
    rfl
  | cons b before ih =>
    obtain ⟨y, hy⟩ := hbefore b List.mem_cons_self
    rw [List.cons_append, List.mapM_cons, hy, ih fun c hc => hbefore c (List.mem_cons_of_mem b hc)]
    rfl

/-- What is known of each result is known of all. -/
theorem map_eq_map_of_mapM {ε γ : Type} {f : α → Except ε β} {g : β → γ} {k : α → γ} {l : List α}
    {bs : List β} (hg : ∀ a ∈ l, ∀ b, f a = .ok b → g b = k a) (h : l.mapM f = .ok bs) :
    bs.map g = l.map k := by
  have hall := forall₂_of_mapM h
  clear h
  induction hall with
  | nil => rfl
  | cons hab _ ih =>
    rw [List.map_cons, List.map_cons, hg _ List.mem_cons_self _ hab,
      ih fun x hx => hg x (List.mem_cons_of_mem _ hx)]

theorem eq_map_of_mapM {ε : Type} {f : α → Except ε β} {g : α → β} {l : List α} {bs : List β}
    (hg : ∀ a ∈ l, ∀ b, f a = .ok b → b = g a) (h : l.mapM f = .ok bs) :
    bs = l.map g ∧ ∀ a ∈ l, f a = .ok (g a) := by
  have hall := forall₂_of_mapM h
  clear h
  induction hall with
  | nil => exact ⟨rfl, by simp⟩
  | cons hab _ ih =>
    obtain ⟨hbs, hrest⟩ := ih fun x hx => hg x (List.mem_cons_of_mem _ hx)
    have hb := hg _ List.mem_cons_self _ hab
    refine ⟨by rw [hb, hbs, List.map_cons], fun x hx => ?_⟩
    rcases List.mem_cons.mp hx with rfl | hx
    · rw [hab, hb]
    · exact hrest x hx

/-- Those results that are kept belong to a part of the list, and the others to the rest. -/
theorem exists_forall₂_filter {R : α → β → Prop} {l : List α} {bs : List β}
    (h : List.Forall₂ R l bs) (p : β → Bool) :
    ∃ kept : List α, kept.Sublist l ∧ List.Forall₂ R kept (bs.filter p) ∧
      ∀ a ∈ l, a ∈ kept ∨ ∃ b, R a b ∧ p b = false := by
  induction h with
  | nil => exact ⟨[], List.Sublist.refl _, List.Forall₂.nil, nofun⟩
  | @cons a b l bs hab _ ih =>
    obtain ⟨kept, hkept, hall, hrest⟩ := ih
    cases hp : p b with
    | false =>
      rw [List.filter_cons_of_neg (by simp [hp])]
      exact ⟨kept, hkept.cons a, hall, List.forall_mem_cons.mpr ⟨Or.inr ⟨b, hab, hp⟩, hrest⟩⟩
    | true =>
      rw [List.filter_cons_of_pos hp]
      refine ⟨a :: kept, hkept.cons_cons a, List.Forall₂.cons hab hall, ?_⟩
      refine List.forall_mem_cons.mpr ⟨Or.inl List.mem_cons_self, fun x hx => ?_⟩
      exact (hrest x hx).imp_left (List.mem_cons_of_mem a)

theorem exists_of_forall₂ {R : α → β → Prop} {l : List α} {bs : List β}
    (h : List.Forall₂ R l bs) : ∀ b ∈ bs, ∃ a ∈ l, R a b := by
  induction h with
  | nil => nofun
  | @cons a b l bs hab _ ih =>
    refine List.forall_mem_cons.mpr ⟨⟨a, List.mem_cons_self, hab⟩, fun b' hb' => ?_⟩
    obtain ⟨a', ha', hab'⟩ := ih b' hb'
    exact ⟨a', List.mem_cons_of_mem a ha', hab'⟩

theorem forall₂_trans {γ : Type} {R : α → β → Prop} {R' : β → γ → Prop} {R'' : α → γ → Prop}
    (htrans : ∀ a b c, R a b → R' b c → R'' a c) {l : List α} {m : List β} {n : List γ}
    (h : List.Forall₂ R l m) (h' : List.Forall₂ R' m n) : List.Forall₂ R'' l n := by
  induction h generalizing n with
  | nil => cases h'; exact .nil
  | cons hab _ ih =>
    cases h' with
    | cons hbc h' => exact .cons (htrans _ _ _ hab hbc) (ih h')

/-- A list of images is the image of a list. -/
theorem exists_map_eq {f : β → α} {p : β → Prop} {l : List α} (h : ∀ a ∈ l, ∃ b, p b ∧ f b = a) :
    ∃ bs : List β, (∀ b ∈ bs, p b) ∧ bs.map f = l := by
  induction l with
  | nil => exact ⟨[], by simp, rfl⟩
  | cons a l ih =>
    obtain ⟨b, hb, rfl⟩ := h a List.mem_cons_self
    obtain ⟨bs, hbs, rfl⟩ := ih fun x hx => h x (List.mem_cons_of_mem _ hx)
    exact ⟨b :: bs, by simpa using ⟨hb, hbs⟩, rfl⟩

/-- Of a list in pieces, the piece with a given element. -/
theorem exists_piece {ls : List (List α)} {before after : List α} {a : α}
    (h : ls.flatten = before ++ a :: after) :
    ∃ pieces front back rest, ls = pieces ++ (front ++ a :: back) :: rest ∧
      before = pieces.flatten ++ front := by
  rcases List.flatten_eq_append_iff.mp h with
    ⟨pieces, rest, rfl, rfl, hrest⟩ | ⟨pieces, front, b, back, rest, rfl, rfl, hback⟩
  · -- the element begins a piece, maybe behind pieces that are empty
    obtain ⟨empty, back, rest, rfl, hempty, -⟩ := List.flatten_eq_cons_iff.mp hrest.symm
    refine ⟨pieces ++ empty, [], back, rest, by simp, ?_⟩
    rw [List.flatten_append, List.flatten_eq_nil_iff.mpr hempty, List.append_nil, List.append_nil]
  · obtain ⟨rfl, -⟩ := List.cons.inj hback
    exact ⟨pieces, front, back, rest, rfl, rfl⟩

theorem mem_of_mem_modify {f : α → α} {l : List α} {i : Nat} {b : α} (h : b ∈ l.modify i f) :
    ∃ a ∈ l, b = a ∨ b = f a := by
  obtain ⟨j, hj⟩ := List.mem_iff_getElem?.mp h
  rw [List.getElem?_modify] at hj
  obtain ⟨a, ha, rfl⟩ := Option.map_eq_some_iff.mp hj
  refine ⟨a, List.mem_of_getElem? ha, ?_⟩
  split
  · exact Or.inr rfl
  · exact Or.inl rfl

theorem mem_modify_of_mem (f : α → α) {l : List α} (i : Nat) {a : α} (h : a ∈ l) :
    a ∈ l.modify i f ∨ f a ∈ l.modify i f := by
  obtain ⟨j, hj⟩ := List.mem_iff_getElem?.mp h
  have hmodify : (l.modify i f)[j]? = some (if i = j then f a else a) := by
    rw [List.getElem?_modify, hj]
    rfl
  have hmem := List.mem_of_getElem? hmodify
  split at hmem
  · exact Or.inr hmem
  · exact Or.inl hmem

/-! ## First occurrences -/

section EraseDups

variable [BEq α] [LawfulBEq α]

theorem eraseDups_concat (l : List α) (a : α) :
    (l ++ [a]).eraseDups = if a ∈ l then l.eraseDups else l.eraseDups ++ [a] := by
  rw [List.eraseDups_append, List.removeAll]
  split
  · rename_i ha
    simp [ha]
  · rename_i ha
    simp [ha, List.eraseDups_cons]

theorem nodup_eraseDups (l : List α) : l.eraseDups.Nodup := by
  induction l using List.reverseRecOn with
  | nil => exact List.nodup_nil
  | append_singleton l a ih =>
    rw [eraseDups_concat]
    split
    · exact ih
    · rename_i ha
      rw [← List.concat_eq_append]
      exact ih.concat fun hmem => ha (List.mem_eraseDups.mp hmem)

theorem eraseDups_sublist (l : List α) : l.eraseDups.Sublist l := by
  induction l using List.reverseRecOn with
  | nil => exact List.Sublist.refl _
  | append_singleton l a ih =>
    rw [eraseDups_concat]
    split
    · exact ih.trans (List.sublist_append_left l [a])
    · exact ih.append (List.Sublist.refl _)

end EraseDups

/-- The keys of some elements of a list come in the order in which these elements first have them. -/
theorem pairwise_eraseDups_findIdx [DecidableEq β] (p : α → Bool) (key : α → β) (l : List α) :
    ((l.filter p).map key).eraseDups.Pairwise fun k k' =>
      (l.findIdx fun a => p a && key a = k) < l.findIdx fun a => p a && key a = k' := by
  induction l using List.reverseRecOn with
  | nil => exact List.Pairwise.nil
  | append_singleton l x ih =>
    -- a key that has occurred keeps its place
    have hold : ∀ k ∈ ((l.filter p).map key).eraseDups,
        ((l ++ [x]).findIdx fun a => p a && key a = k) = l.findIdx (fun a => p a && key a = k) ∧
          (l.findIdx fun a => p a && key a = k) < l.length := by
      intro k hk
      obtain ⟨a, ha, rfl⟩ := List.mem_map.mp (List.mem_eraseDups.mp hk)
      obtain ⟨ha, hp⟩ := List.mem_filter.mp ha
      have hfound : (l.findIdx fun a' => p a' && key a' = key a) < l.length :=
        List.findIdx_lt_length.mpr ⟨a, ha, by simp [hp]⟩
      exact ⟨by rw [List.findIdx_append, if_pos hfound], hfound⟩
    have hkept : ((l.filter p).map key).eraseDups.Pairwise fun k k' =>
        ((l ++ [x]).findIdx fun a => p a && key a = k) <
          (l ++ [x]).findIdx fun a => p a && key a = k' :=
      ih.imp_of_mem fun hk hk' hlt => by rwa [(hold _ hk).1, (hold _ hk').1]
    rw [List.filter_append, List.map_append]
    cases hp : p x with
    | false => simpa [hp] using hkept
    | true =>
      rw [List.filter_singleton, hp, cond_true, List.map_singleton, eraseDups_concat]
      split
      · exact hkept
      · rename_i hnew
        refine List.pairwise_append.mpr ⟨hkept, List.pairwise_singleton _ _, fun k hk k' hk' => ?_⟩
        have hnone : ¬ (l.findIdx fun a => p a && key a = key x) < l.length := by
          intro hlt
          obtain ⟨a, ha, hfound⟩ := List.findIdx_lt_length.mp hlt
          obtain ⟨hpa, heq⟩ : p a = true ∧ key a = key x := by simpa using hfound
          exact hnew (List.mem_map.mpr ⟨a, List.mem_filter.mpr ⟨ha, hpa⟩, heq⟩)
        rw [List.mem_singleton.mp hk', (hold k hk).1, List.findIdx_append, if_neg hnone]
        have := (hold k hk).2
        omega

theorem flatMap_eq_of_mem {f : α → List β} {l : List α} {a : α}
    (hone : l.Pairwise fun x y => f x = [] ∨ f y = []) (ha : a ∈ l) (hne : f a ≠ []) :
    l.flatMap f = f a := by
  induction l with
  | nil => cases ha
  | cons x l ih =>
    obtain ⟨hx, hl⟩ := List.pairwise_cons.mp hone
    rw [List.flatMap_cons]
    rcases List.mem_cons.mp ha with rfl | ha
    · have hrest : l.flatMap f = [] :=
        List.flatMap_eq_nil_iff.mpr fun y hy => (hx y hy).resolve_left hne
      rw [hrest, List.append_nil]
    · rw [(hx a ha).resolve_right hne, List.nil_append, ih hl ha]

end EventStore
