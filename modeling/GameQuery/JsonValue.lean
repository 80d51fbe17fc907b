import GameQuery.Number.Shortest

namespace GameQuery

/-!
# JSON

Values and their text over several lines: every item of a list and every field of an object has a
line of its own, two columns further right than the brackets around it.
-/

inductive JsonValue where
  | bool (value : Bool)
  | integer (value : Int)
  /-- A number of single precision. One that is not finite has no text but `null`. -/
  | single (value : Single)
  | text (value : String)
  | list (items : List JsonValue)
  | object (fields : List (String × JsonValue))
  deriving Inhabited

namespace JsonValue

/-- Numbers of single precision from `0.000001` up to thirteen digits need no exponent. -/
def numberStyle : DecimalStyle := ⟨-6, 12⟩

/-- A character between quotes. -/
def escapeChar (c : Char) : List Char :=
  match c with
  | '"' => ['\\', '"']
  | '\\' => ['\\', '\\']
  | '\x08' => ['\\', 'b']
  | '\x0c' => ['\\', 'f']
  | '\n' => ['\\', 'n']
  | '\r' => ['\\', 'r']
  | '\t' => ['\\', 't']
  | c => if c.toNat < 0x20 then '\\' :: 'u' :: Text.hex 4 c.toNat else [c]

def quoted (s : String) : List Char := '"' :: s.toList.flatMap escapeChar ++ ['"']

/-- Puts a comma behind the last line. -/
def withComma : List (List Char) → List (List Char)
  | [] => []
  | [line] => [line ++ [',']]
  | line :: lines => line :: withComma lines

/-- Puts a field's name before the first line. -/
def withName (name : String) : List (List Char) → List (List Char)
  | [] => []
  | line :: lines => (quoted name ++ ": ".toList ++ line) :: lines

/-- The lines of several values, separated by commas and indented. -/
def indented : List (List (List Char)) → List (List Char)
  | [] => []
  | [value] => value.map (' ' :: ' ' :: ·)
  | value :: values => (withComma value).map (' ' :: ' ' :: ·) ++ indented values

/-- Puts brackets around the lines of some values. If there are none, they share a line. -/
def bracketed (left right : Char) (values : List (List (List Char))) : List (List Char) :=
  if values.isEmpty then [[left, right]] else [left] :: indented values ++ [[right]]

mutual

/-- The lines of a value. -/
def lines : JsonValue → List (List Char)
  | bool b => [(toString b).toList]
  | integer n => [Text.signedDecimal n]
  | single x => [(x.text? numberStyle).getD "null".toList]
  | text s => [quoted s]
  | list items => bracketed '[' ']' (itemLines items)
  | object fields => bracketed '{' '}' (fieldLines fields)

/-- The lines of each item. -/
def itemLines : List JsonValue → List (List (List Char))
  | [] => []
  | item :: items => item.lines :: itemLines items

/-- The lines of each field. -/
def fieldLines : List (String × JsonValue) → List (List (List Char))
  | [] => []
  | (name, value) :: fields => withName name value.lines :: fieldLines fields

end

end JsonValue

end GameQuery
