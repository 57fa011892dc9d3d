import EventStore.Text.Digits
import EventStore.Text.Printable

/-! Quoted text, for messages that show a value a user gave.

The text stands between double quotes. Quotes, backslashes and the common controls are written with
a backslash, and a character that would not be seen on its own is written by its code point. -/

namespace EventStore.Text

/-- A character by its code point, as in `\u\x7b200b\x7d`. -/
def byCodePoint (c : Char) : List Char :=
  '\\' :: 'u' :: '\x7b' :: hexadecimal c.toNat ++ ['\x7d']

def quotedChar (c : Char) : List Char :=
  if c = '\x00' then ['\\', '0']
  else if c = '\t' then ['\\', 't']
  else if c = '\r' then ['\\', 'r']
  else if c = '\n' then ['\\', 'n']
  else if c = '"' then ['\\', '"']
  else if c = '\\' then ['\\', '\\']
  else if c ∈ graphemeExtenders ∨ c ∈ unprintable then byCodePoint c
  else [c]

def quoted (s : String) : String :=
  String.ofList ('"' :: s.toList.flatMap quotedChar ++ ['"'])

/-- Several quoted texts between square brackets. -/
def quotedList (l : List String) : String := "[" ++ ", ".intercalate (l.map quoted) ++ "]"

/-- An optional value, as `None` or `Some(…)` around the text given for it. -/
def shownOption : Option String → String
  | none => "None"
  | some s => "Some(" ++ s ++ ")"

end EventStore.Text
