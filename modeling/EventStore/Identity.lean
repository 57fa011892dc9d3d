import EventStore.Text.Blank
import EventStore.Text.Digits
import EventStore.Uuid

/-! Identities of aggregates and actors.

An identity is a text without blanks at its ends, not empty and of at most 255 characters. It is
made from any text by trimming, so every identity is made again from its own text. -/

namespace EventStore

open Text

inductive IdentityKind where
  | aggregate
  | actor
deriving DecidableEq, Repr

def IdentityKind.name : IdentityKind → String
  | .aggregate => "aggregate"
  | .actor => "actor"

/-- Why a text is no identity. -/
inductive IdentityError where
  | empty (kind : IdentityKind)
  | tooLong (kind : IdentityKind) (length : Nat)
deriving DecidableEq, Repr

/-- The name of a kind of error. -/
def IdentityError.kind : IdentityError → String
  | .empty _ => "Empty"
  | .tooLong .. => "TooLong"

/-- The longest identity, counted in characters after trimming. -/
def maxIdentityLength : Nat := 255

def IdentityError.message : IdentityError → String
  | .empty kind => kind.name ++ " id must not be empty"
  | .tooLong kind length =>
    kind.name ++ " id is " ++ decimalText length ++ " characters long, maximum is "
      ++ decimalText maxIdentityLength

@[ext]
structure Identity (kind : IdentityKind) where
  text : String
  trim_text : trim text = text
  text_ne_empty : text ≠ ""
  length_le : text.length ≤ maxIdentityLength

instance (kind : IdentityKind) : DecidableEq (Identity kind) :=
  fun _ _ => decidable_of_iff _ Identity.ext_iff.symm

abbrev AggregateId := Identity .aggregate

abbrev ActorId := Identity .actor

namespace Identity

variable {kind : IdentityKind}

def ofText (s : String) : Except IdentityError (Identity kind) :=
  let t := trim s
  if h0 : t = "" then .error (.empty kind)
  else if h : t.length ≤ maxIdentityLength then .ok ⟨t, trim_trim s, h0, h⟩
  else .error (.tooLong kind t.length)

/-- The identity whose text is a unique identifier. -/
def ofUuid (u : Uuid) : Identity kind where
  text := u.text
  trim_text := trim_eq_self _ fun c h => u.not_blank_of_mem_chars c (by simpa [Uuid.text] using h)
  text_ne_empty h := by
    have := congrArg String.length h
    simp [Uuid.text, Uuid.length_chars] at this
  length_le := by simp [Uuid.text, Uuid.length_chars, maxIdentityLength]

theorem ofText_text (i : Identity kind) :
    (ofText i.text : Except IdentityError (Identity kind)) = .ok i := by
  have ht := i.trim_text
  simp [ofText, ht, i.text_ne_empty, i.length_le]

end Identity

namespace ActorId

/-- The actor of events whose actor is not known. -/
def system : ActorId :=
  ⟨"SYSTEM", by decide, by decide, by decide⟩

/-- The system actor for a text that is missing or blank. -/
def ofOptional : Option String → Except IdentityError ActorId
  | none => .ok system
  | some s => if trim s = "" then .ok system else Identity.ofText s

def isSystem (a : ActorId) : Bool := a.text = system.text

end ActorId

end EventStore
