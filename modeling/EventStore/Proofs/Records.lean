import EventStore.Proofs.AccountPayloads

/-!
# Records are read back

A record is written as an object with a member for each of its fields, in their order.

Proved here:

* `members_of_tail`: members that are not about the first field leave it as it is;
* `members_of_writes`, `read_of_writes`: the members of a record are read to its values
  (`Fields.Writes`);
* `Reader.optional_ofOption`: a value that may be missing is read back from a value or `null`;
* `Reader.ofText_of_read`: what is read from a value is read from its text.
-/

namespace EventStore.Json

/-! ## Records -/

namespace Fields

variable {α : Type} {αs : List Type} {r : Reading}

/-- The members of a record: each field is read to its value from the member with its name. -/
inductive Writes (r : Reading) :
    {αs : List Type} → Fields αs → List (String × Value) → Tuple αs → Prop where
  | nil : Writes r .nil [] ()
  | cons {α : Type} {αs : List Type} {field : Field α} {rest : Fields αs}
      {l : List (String × Value)} {v : Value} {a : α} {t : Tuple αs}
      (head : field.read r (.ofValue v) = .ok a) (tail : Writes r rest l t) :
      Writes r (.cons field rest) ((field.name, v) :: l) (a, t)

/-- The names of the fields of a record. -/
def names : {αs : List Type} → Fields αs → List String
  | _, .nil => []
  | _, .cons field rest => field.name :: rest.names

theorem names_of_writes {fields : Fields αs} {l : List (String × Value)} {t : Tuple αs}
    (h : Writes r fields l t) : l.map (·.1) = fields.names := by
  induction h with
  | nil => rfl
  | cons _ _ ih => rw [List.map_cons, ih, names]

/-- The draft of a record with all its values. -/
def full : {αs : List Type} → Tuple αs → Draft αs
  | [], _ => ()
  | _ :: _, (a, t) => (some a, full t)

theorem complete_full (fields : Fields αs) (t : Tuple αs) : fields.complete (full t) = .ok t := by
  induction fields with
  | nil => rfl
  | cons field rest ih =>
    obtain ⟨a, t⟩ := t
    show (rest.complete (full t)).map (a, ·) = _
    rw [ih]
    rfl

/-- Members that are not about the first field leave it as it is. -/
theorem members_of_tail {field : Field α} (rest : Fields αs) {l : List (String × Value)}
    (hl : field.name ∉ l.map (·.1)) (a : Option α) (draft : Draft αs) :
    (Fields.cons field rest).members r (a, draft) (Node.ofMembers l) =
      (rest.members r draft (Node.ofMembers l)).map (a, ·) := by
  induction l generalizing draft with
  | nil => rfl
  | cons p l ih =>
    obtain ⟨name, v⟩ := p
    obtain ⟨hname, hl⟩ := not_or.mp (List.mem_cons.not.mp hl)
    simp only [Node.ofMembers, members, Node.key, bind, Except.bind,
      put?_tail (Ne.symm hname) rest r (.ofValue v) a draft]
    rcases rest.put? r name (.ofValue v) draft with _ | _ | draft'
    · cases (Node.ofValue v).skip with
      | error e => rfl
      | ok => exact ih hl draft
    · rfl
    · exact ih hl draft'

theorem members_of_writes {fields : Fields αs} {l : List (String × Value)} {t : Tuple αs}
    (h : Writes r fields l t) (hnames : fields.names.Nodup) :
    fields.members r (Draft.empty αs) (Node.ofMembers l) = .ok (full t) := by
  induction h with
  | nil => rfl
  | @cons α αs field rest l v a t head tail ih =>
    obtain ⟨hname, hnames⟩ := List.nodup_cons.mp hnames
    have hput : (Fields.cons field rest).put? r field.name (.ofValue v) (Draft.empty (α :: αs)) =
        some (.ok (some a, Draft.empty αs)) :=
      put?_head field rest head (Draft.empty αs)
    simp only [Node.ofMembers, members, Node.key, bind, Except.bind, hput]
    rw [members_of_tail rest (names_of_writes tail ▸ hname), ih hnames]
    rfl

/-- A record with different names of its fields is read back from its members. -/
theorem read_of_writes {fields : Fields αs} {l : List (String × Value)} {t : Tuple αs}
    (hr : 1 < r.depth) (hnames : fields.names.Nodup)
    (h : Writes { r with depth := r.depth - 1 } fields l t) :
    fields.read r (.ofValue (.object l)) = .ok t := by
  rw [Node.ofValue, read, Reading.enter_of_lt hr]
  simp only [bind, Except.bind, members_of_writes h hnames, complete_full]

/-- And so is one that is the content of a variant. -/
theorem content_of_writes {fields : Fields αs} {l : List (String × Value)} {t : Tuple αs}
    (hr : 1 < r.depth) (hnames : fields.names.Nodup)
    (h : Writes { r with depth := r.depth - 1 } fields l t) :
    fields.content r (.ofValue (.object l)) = .ok t :=
  read_of_writes hr hnames h

end Fields

/-! ## Values that may be missing, and texts -/

theorem Reader.optional_ofOption {α : Type} {read : Reader α} {r : Reading} {f : α → Value}
    {o : Option α} (h : ∀ a, o = some a → f a ≠ .null ∧ read r (.ofValue (f a)) = .ok a) :
    read.optional r (.ofValue (.ofOption f o)) = .ok o := by
  cases o with
  | none => rfl
  | some a =>
    obtain ⟨hnull, hread⟩ := h a rfl
    show read.optional r (.ofValue (f a)) = _
    cases hf : f a with
    | null => exact absurd hf hnull
    | _ =>
      rw [hf] at hread
      exact Reader.map_of_ok hread

theorem Reader.string_filterMap {α : Type} {f : String → Option α} {s : String} {a : α}
    (h : f s = some a) (r : Reading) :
    Reader.string.filterMap f r (.ofValue (.string s)) = .ok a := by
  rw [Node.ofValue, Reader.filterMap]
  simp only [Reader.string, bind, Except.bind, h]

theorem Reader.ofText_of_read {α : Type} {read : Reader α} {v : Value} {a : α} (hv : v.Whole)
    (h : read .ofText (.ofValue v) = .ok a) : Reader.ofText read v.text = .ok a := by
  rw [Reader.ofText, Node.ofText_text hv]
  simp only [h, if_true]

end EventStore.Json
