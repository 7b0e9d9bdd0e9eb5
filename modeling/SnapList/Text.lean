/-
  Diagnostic texts: sequences, numbers and records.

  The elements of a list are shown with a bare comma between them, the items of a diagnostic
  text with a comma and a blank. Both are `bracketed`, with another separator.

  A record has a name and fields in a fixed order. It is written on one line (`compact`) or
  with one field a line (`expanded`), each indented by four blanks and ended by a comma. A
  record without fields is its name alone, in both forms.
-/
namespace SnapList.Text

/-- The items between square brackets, with `separator` between two of them. -/
def bracketed (separator : String) (items : List String) : String :=
  "[" ++ separator.intercalate items ++ "]"

def elements (items : List Int64) : String :=
  bracketed "," (items.map toString)

/-- A number in hexadecimal digits, marked as such. -/
def hexadecimal (n : Nat) : String := "0x" ++ String.ofList (Nat.toDigits 16 n)

/-- The value of a field: one word, or a sequence of words. -/
inductive Value where
  | word (text : String)
  | sequence (items : List String)

/-- A named record with its fields in order. -/
structure Record where
  name : String
  fields : List (String × Value) := []

namespace Record

/-- The indentation of a field in the expanded form; an item of a sequence has it twice. -/
def indent : String := "    "

def compactValue : Value → String
  | .word text => text
  | .sequence items => bracketed ", " items

def expandedValue : Value → String
  | .word text => text
  | .sequence [] => "[]"
  | .sequence items =>
    "[\n" ++ String.join (items.map fun item => indent ++ indent ++ item ++ ",\n") ++
      indent ++ "]"

def compact (record : Record) : String :=
  match record.fields with
  | [] => record.name
  | fields =>
    record.name ++ " \x7b " ++
      ", ".intercalate (fields.map fun (key, value) => key ++ ": " ++ compactValue value) ++
      " \x7d"

def expanded (record : Record) : String :=
  match record.fields with
  | [] => record.name
  | fields =>
    record.name ++ " \x7b\n" ++
      String.join (fields.map fun (key, value) =>
        indent ++ key ++ ": " ++ expandedValue value ++ ",\n") ++
      "\x7d"

end Record

inductive Layout where
  | compact
  | expanded
  deriving DecidableEq

def Record.render (record : Record) : Layout → String
  | .compact => record.compact
  | .expanded => record.expanded

end SnapList.Text
