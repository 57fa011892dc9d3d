import EventStore.Json.Reader
import EventStore.Proofs.TextTokens

/-!
# Values are read back from their text

Proved here:

* `foldl_tokens`: the tokens of a value are read to its tree;
* `toValue_ofValue`: the tree of a value is read to the value, if its keys are in order and it is
  not nested too deep (`Value.Ordered`);
* `ofText_text`: so a value is read back from its text.
-/

namespace EventStore.Json

/-! ## Trees -/

namespace Progress

open Node (ofValue ofItems ofMembers)
open Value (itemsTokens membersTokens)

/-- The first item of an array is read as any other. -/
theorem foldl_firstItem {items : List Value} (hne : items ≠ []) (rest : List Token)
    (frames : List Frame) :
    (itemsTokens items ++ rest).foldl step (.reading .item frames) =
      (itemsTokens items ++ rest).foldl step (.reading .value frames) := by
  have hvalue : ∀ (v : Value) (rest : List Token), (v.tokens ++ rest).foldl step
      (.reading .item frames) = (v.tokens ++ rest).foldl step (.reading .value frames) := by
    intro v rest
    cases v <;> rfl
  match items, hne with
  | [v], _ => exact hvalue v rest
  | v :: w :: items, _ =>
    rw [itemsTokens, List.append_assoc]
    exact hvalue v _

/-- And so is the first member of an object. -/
theorem foldl_firstMember {members : List (String × Value)} (hne : members ≠ [])
    (rest : List Token) (frames : List Frame) :
    (membersTokens members ++ rest).foldl step (.reading .member frames) =
      (membersTokens members ++ rest).foldl step (.reading .key frames) := by
  match members, hne with
  | [(k, v)], _ => rfl
  | (k, v) :: m :: members, _ => rfl

mutual

theorem foldl_tokens (v : Value) (l : List Frame) :
    v.tokens.foldl step (.reading .value l) = put (ofValue v) l := by
  match v with
  | .null => rfl
  | .boolean b => rfl
  | .number n => rfl
  | .string s => rfl
  | .array items =>
    by_cases hne : items = []
    · rw [hne]
      rfl
    · exact (foldl_firstItem hne _ _).trans (foldl_items hne [] l)
  | .object members =>
    by_cases hne : members = []
    · rw [hne]
      rfl
    · exact (foldl_firstMember hne _ _).trans (foldl_members hne [] l)

theorem foldl_items {items : List Value} (hne : items ≠ []) (sofar : List Node) (l : List Frame) :
    (itemsTokens items ++ [Token.closeArray]).foldl step (.reading .value (.array sofar :: l)) =
      put (.array (sofar.reverse ++ ofItems items)) l := by
  match items, hne with
  | [v], _ =>
    rw [itemsTokens, List.foldl_append, foldl_tokens v, ofItems, ofItems, ← List.reverse_cons]
    rfl
  | v :: w :: items, _ =>
    have hrest := foldl_items (List.cons_ne_nil w items) (ofValue v :: sofar) l
    rw [List.reverse_cons, List.append_assoc] at hrest
    rw [itemsTokens, List.append_assoc, List.foldl_append, foldl_tokens v]
    exact hrest

theorem foldl_members {members : List (String × Value)} (hne : members ≠ [])
    (sofar : List (Node × Node)) (l : List Frame) :
    (membersTokens members ++ [Token.closeObject]).foldl step
        (.reading .key (.object sofar :: l)) =
      put (.object (sofar.reverse ++ ofMembers members)) l := by
  match members, hne with
  | [(k, v)], _ =>
    have hvalue := foldl_tokens v (.member sofar (.string (some k)) :: l)
    have hkey : (membersTokens [(k, v)] ++ [Token.closeObject]).foldl step
        (.reading .key (.object sofar :: l)) = (v.tokens ++ [Token.closeObject]).foldl step
          (.reading .value (.member sofar (.string (some k)) :: l)) := rfl
    rw [hkey, List.foldl_append, hvalue, ofMembers, ofMembers, ← List.reverse_cons]
    rfl
  | (k, v) :: m :: members, _ =>
    have hvalue := foldl_tokens v (.member sofar (.string (some k)) :: l)
    have hrest := foldl_members (List.cons_ne_nil m members)
      ((.string (some k), ofValue v) :: sofar) l
    have hkey : (membersTokens ((k, v) :: m :: members) ++ [Token.closeObject]).foldl step
        (.reading .key (.object sofar :: l)) =
          (v.tokens ++ .comma :: (membersTokens (m :: members) ++ [Token.closeObject])).foldl step
            (.reading .value (.member sofar (.string (some k)) :: l)) := by
      rw [membersTokens, List.append_assoc]
      rfl
    rw [List.reverse_cons, List.append_assoc] at hrest
    rw [hkey, List.foldl_append, hvalue]
    exact hrest

end

end Progress

theorem Node.ofText_text {v : Value} (h : v.Whole) : Node.ofText v.text = (ofValue v, true) := by
  have htokens := Value.tokens_chars h Token.ends_nil
  have hnil : Token.tokens [] = [] := by rw [Token.tokens]; rfl
  rw [hnil, List.append_nil, List.append_nil] at htokens
  rw [Node.ofText, Value.text, String.toList_ofList, htokens, ofTokens, Progress.foldl_tokens]
  rfl

/-! ## Values -/

namespace Value

mutual

/-- Whether all keys are in order, and fewer arrays and objects are inside one another than
given. -/
def Ordered : Value → (depth : Nat) → Prop
  | .array l, depth => 1 < depth ∧ OrderedItems l (depth - 1)
  | .object l, depth => 1 < depth ∧ SortedKeys l ∧ OrderedMembers l (depth - 1)
  | _, _ => True

def OrderedItems : List Value → (depth : Nat) → Prop
  | [], _ => True
  | v :: l, depth => v.Ordered depth ∧ OrderedItems l depth

def OrderedMembers : List (String × Value) → (depth : Nat) → Prop
  | [], _ => True
  | (_, v) :: l, depth => v.Ordered depth ∧ OrderedMembers l depth

end

end Value

theorem insertEntry_last {α : Type} {k : String} {a : α} {l : List (String × α)}
    (h : ∀ p ∈ l, p.1 < k) : insertEntry k a l = l ++ [(k, a)] := by
  induction l with
  | nil => rfl
  | cons p l ih =>
    have hp : p.1 < k := h p List.mem_cons_self
    rw [insertEntry, if_neg (String.ne_of_lt hp).symm, if_neg (String.lt_asymm hp),
      ih fun q hq => h q (List.mem_cons_of_mem _ hq)]
    rfl

namespace Node

open Value

mutual

theorem toValue_ofValue {v : Value} {depth : Nat} (h : v.Ordered depth) :
    (ofValue v).toValue depth = .ok v := by
  cases v with
  | null => rfl
  | boolean b => rfl
  | number n => rfl
  | string s => rfl
  | array l =>
    rw [ofValue, toValue, if_neg (Nat.not_le.mpr h.1), toItems_ofItems h.2]
    rfl
  | object l =>
    have hmembers : toMembers [] (ofMembers l) (depth - 1) = .ok l :=
      toMembers_ofMembers h.2.2 (List.nil_append l ▸ h.2.1)
    rw [ofValue, toValue, if_neg (Nat.not_le.mpr h.1), hmembers]
    rfl

theorem toItems_ofItems {l : List Value} {depth : Nat} (h : OrderedItems l depth) :
    toItems (ofItems l) depth = .ok l := by
  match l, h with
  | [], _ => rfl
  | v :: l, h =>
    rw [ofItems, toItems, toValue_ofValue h.1, toItems_ofItems h.2]
    rfl

theorem toMembers_ofMembers {sofar l : List (String × Value)} {depth : Nat}
    (h : OrderedMembers l depth) (hsorted : SortedKeys (sofar ++ l)) :
    toMembers sofar (ofMembers l) depth = .ok (sofar ++ l) := by
  match l, h with
  | [], _ => rw [ofMembers, toMembers, List.append_nil]
  | (k, v) :: l, h =>
    have hlast : insertEntry k v sofar = sofar ++ [(k, v)] :=
      insertEntry_last fun p hp =>
        (List.pairwise_append.mp hsorted).2.2 p hp (k, v) List.mem_cons_self
    have hrest : toMembers (sofar ++ [(k, v)]) (ofMembers l) depth =
        .ok (sofar ++ [(k, v)] ++ l) := toMembers_ofMembers h.2 (by rwa [List.append_assoc])
    rw [ofMembers, toMembers, toValue_ofValue h.1]
    simp only [key, bind, Except.bind, hlast]
    rw [hrest, List.append_assoc]
    rfl

end

end Node

/-- A value is read back from its text. -/
theorem Value.ofText_text {v : Value} (hwhole : v.Whole) (hordered : v.Ordered 128) :
    Value.ofText v.text = .ok v := by
  have hread : (Node.ofValue v).toValue Reading.ofText.depth = .ok v :=
    Node.toValue_ofValue hordered
  rw [Value.ofText, Reader.ofText, Node.ofText_text hwhole]
  dsimp only
  rw [hread]
  rfl

/-! ## Sorted keys -/

namespace Value

mutual

/-- Whether fewer arrays and objects are inside one another than given. -/
def Shallow : Value → (depth : Nat) → Prop
  | .array l, depth => 1 < depth ∧ ShallowItems l (depth - 1)
  | .object l, depth => 1 < depth ∧ ShallowMembers l (depth - 1)
  | _, _ => True

def ShallowItems : List Value → (depth : Nat) → Prop
  | [], _ => True
  | v :: l, depth => v.Shallow depth ∧ ShallowItems l depth

def ShallowMembers : List (String × Value) → (depth : Nat) → Prop
  | [], _ => True
  | (_, v) :: l, depth => v.Shallow depth ∧ ShallowMembers l depth

end

theorem wholeItems_iff {l : List Value} : WholeItems l ↔ ∀ v ∈ l, v.Whole := by
  induction l with
  | nil => simp [WholeItems]
  | cons v l ih => simp [WholeItems, ih]

theorem wholeMembers_iff {l : List (String × Value)} :
    WholeMembers l ↔ ∀ p ∈ l, p.2.Whole := by
  induction l with
  | nil => simp [WholeMembers]
  | cons p l ih => simp [WholeMembers, ih]

theorem shallowItems_iff {l : List Value} {depth : Nat} :
    ShallowItems l depth ↔ ∀ v ∈ l, v.Shallow depth := by
  induction l with
  | nil => simp [ShallowItems]
  | cons v l ih => simp [ShallowItems, ih]

theorem shallowMembers_iff {l : List (String × Value)} {depth : Nat} :
    ShallowMembers l depth ↔ ∀ p ∈ l, p.2.Shallow depth := by
  induction l with
  | nil => simp [ShallowMembers]
  | cons p l ih => simp [ShallowMembers, ih]

theorem orderedMembers_iff {l : List (String × Value)} {depth : Nat} :
    OrderedMembers l depth ↔ ∀ p ∈ l, p.2.Ordered depth := by
  induction l with
  | nil => simp [OrderedMembers]
  | cons p l ih => simp [OrderedMembers, ih]

mutual

theorem whole_sortKeys {v : Value} (h : v.Whole) : v.sortKeys.Whole := by
  match v, h with
  | .null, h | .boolean _, h | .number _, h | .string _, h => exact h
  | .array l, h => exact whole_sortItems h
  | .object l, h => exact whole_sortMembers trivial h

theorem whole_sortItems {l : List Value} (h : WholeItems l) : WholeItems (sortItems l) := by
  match l, h with
  | [], _ => trivial
  | v :: l, h => exact ⟨whole_sortKeys h.1, whole_sortItems h.2⟩

theorem whole_sortMembers {sofar l : List (String × Value)} (hsofar : WholeMembers sofar)
    (h : WholeMembers l) : WholeMembers (sortMembers sofar l) := by
  match l, h with
  | [], _ => exact hsofar
  | (k, v) :: l, h =>
    rw [sortMembers]
    refine whole_sortMembers (wholeMembers_iff.mpr fun p hp => ?_) h.2
    rcases mem_insertEntry hp with rfl | hp
    · exact whole_sortKeys h.1
    · exact wholeMembers_iff.mp hsofar p hp

end

mutual

theorem ordered_sortKeys {v : Value} {depth : Nat} (h : v.Shallow depth) :
    v.sortKeys.Ordered depth := by
  match v, h with
  | .null, _ | .boolean _, _ | .number _, _ | .string _, _ => trivial
  | .array l, h => exact ⟨h.1, ordered_sortItems h.2⟩
  | .object l, h => exact ⟨h.1, ordered_sortMembers List.Pairwise.nil trivial h.2⟩

theorem ordered_sortItems {l : List Value} {depth : Nat} (h : ShallowItems l depth) :
    OrderedItems (sortItems l) depth := by
  match l, h with
  | [], _ => trivial
  | v :: l, h => exact ⟨ordered_sortKeys h.1, ordered_sortItems h.2⟩

theorem ordered_sortMembers {sofar l : List (String × Value)} {depth : Nat}
    (hsorted : SortedKeys sofar) (hsofar : OrderedMembers sofar depth)
    (h : ShallowMembers l depth) :
    SortedKeys (sortMembers sofar l) ∧ OrderedMembers (sortMembers sofar l) depth := by
  match l, h with
  | [], _ => exact ⟨hsorted, hsofar⟩
  | (k, v) :: l, h =>
    rw [sortMembers]
    refine ordered_sortMembers (sortedKeys_insertEntry k v.sortKeys sofar hsorted)
      (orderedMembers_iff.mpr fun p hp => ?_) h.2
    rcases mem_insertEntry hp with rfl | hp
    · exact ordered_sortKeys h.1
    · exact orderedMembers_iff.mp hsofar p hp

end

/-- So a value with sorted keys is read back from its text, whatever it was before. -/
theorem ofText_text_sortKeys {v : Value} (hwhole : v.Whole) (hshallow : v.Shallow 128) :
    Value.ofText v.sortKeys.text = .ok v.sortKeys :=
  ofText_text (whole_sortKeys hwhole) (ordered_sortKeys hshallow)

end Value

end EventStore.Json
