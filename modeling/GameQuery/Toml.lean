import GameQuery.Text.Reader

namespace GameQuery

/-!
# TOML documents

The part of TOML that configurations are written in: sections, and keys with strings, integers,
booleans, arrays and inline tables. A document that holds anything else, such as a fraction, a date
or an array of sections, is not read at all.
-/

inductive TomlValue where
  | text (value : String)
  | integer (value : Int)
  | boolean (value : Bool)
  | array (items : List TomlValue)
  /-- Keys with dots in them are lists of keys. -/
  | table (fields : List (List String × TomlValue))
  deriving Inhabited

/-- A line that is neither blank nor a comment. -/
inductive TomlLine where
  | section (path : List String)
  | field (path : List String) (value : TomlValue)

namespace Toml

open TextReader

/-! ## Blanks -/

def isBlank (c : Char) : Bool := c = ' ' ∨ c = '\t'

/-- Whether a character may stand in a comment: all but most control characters. -/
def isPrintable (c : Char) : Bool := c = '\t' ∨ (' ' ≤ c ∧ c ≠ '\x7f')

def blanks : TextReader Unit := do
  let _ ← takeWhile isBlank

def newline : TextReader Unit := word ['\n'] <|> word ['\r', '\n']

def comment : TextReader Unit := do
  char '#'
  let _ ← takeWhile isPrintable

/-- What may stand between the values of an array. -/
def gap : TextReader Unit := do
  let _ ← many ((do let _ ← oneOrMore (one isBlank)) <|> newline <|> comment)

/-- A value between blanks. -/
def spaced {α : Type} (r : TextReader α) : TextReader α := do
  blanks
  let a ← r
  blanks
  return a

/-! ## Strings -/

/-- The character with a code of `count` hexadecimal digits. -/
def codePoint (count : Nat) : TextReader Char := fun cs =>
  let digits := cs.take count
  let n := hexValue digits
  if digits.length = count ∧ digits.all (fun c => (hexDigit? c).isSome) ∧ n.isValidChar then
    some (Char.ofNat n, cs.drop count)
  else none

/-- The character that stands for itself or another one behind a backslash. -/
def escape : TextReader Char := do
  char '\\'
  match ← one fun _ => true with
  | 'b' => return '\x08'
  | 't' => return '\t'
  | 'n' => return '\n'
  | 'f' => return '\x0c'
  | 'r' => return '\r'
  | '"' => return '"'
  | '\\' => return '\\'
  | 'u' => codePoint 4
  | 'U' => codePoint 8
  | _ => failure

/-- A string on one line. -/
def lineString : TextReader (List Char) := do
  char '"'
  let cs ← many (one (fun c => isPrintable c ∧ c ≠ '"' ∧ c ≠ '\\') <|> escape)
  char '"'
  return cs

/-- A string on one line, without escapes. -/
def literalString : TextReader (List Char) := do
  char '\''
  let cs ← takeWhile fun c => isPrintable c ∧ c ≠ '\''
  char '\''
  return cs

/-- Fewer than three quotes in a row belong to the string. -/
def innerQuotes (quote : Char) : TextReader (List Char) := do
  let quotes ← oneOrMore (one (· = quote))
  if quotes.length < 3 then return quotes else failure

/-- The three quotes at the end of a string, and up to two more that belong to it. -/
def lastQuotes (quote : Char) : TextReader (List Char) := do
  let quotes ← takeWhile (· = quote)
  if 3 ≤ quotes.length ∧ quotes.length ≤ 5 then return quotes.drop 3 else failure

/-- A backslash at the end of a line: what follows starts at the next character that shows. -/
def joinedLine : TextReader (List Char) := do
  char '\\'
  blanks
  newline
  let _ ← many ((do let _ ← one isBlank) <|> newline)
  return []

/-- The end of a line in a string. -/
def lineFeed : TextReader (List Char) := do
  newline
  return ['\n']

/-- A string over several lines. A line end behind the first quotes is left out. -/
def longString (quote : Char) (part : TextReader (List Char)) : TextReader (List Char) := do
  word [quote, quote, quote]
  let _ ← attempt newline
  let parts ← many (innerQuotes quote <|> lineFeed <|> part)
  return parts.flatten ++ (← lastQuotes quote)

/-- Characters of a long string, or an escape. -/
def longPart : TextReader (List Char) :=
  oneOrMore (one fun c => isPrintable c ∧ c ≠ '"' ∧ c ≠ '\\') <|> joinedLine <|>
    (do return [← escape])

/-- Characters of a long string without escapes. -/
def longLiteralPart : TextReader (List Char) := oneOrMore (one fun c => isPrintable c ∧ c ≠ '\'')

def string : TextReader String :=
  String.ofList <$> (longString '"' longPart <|> longString '\'' longLiteralPart <|>
    lineString <|> literalString)

/-! ## Other values -/

/-- Digits, some of which may be separated by single underscores. -/
def digits (isDigit : Char → Bool) : TextReader (List Char) := do
  let first ← one isDigit
  let rest ← many do
    let _ ← attempt (char '_')
    one isDigit
  return first :: rest

/-- The value of digits of any base up to sixteen. -/
def digitsValue (base : Nat) (ds : List Char) : Nat :=
  ds.foldl (fun n c => base * n + (hexDigit? c).getD 0) 0

/-- A decimal number without leading zeros. -/
def decimalNumber : TextReader Nat := do
  let ds ← digits Char.isDigit
  if ds.head? = some '0' ∧ ds.length ≠ 1 then failure
  return digitsValue 10 ds

/-- A number of another base behind a zero and a letter. -/
def basedNumber (letter : Char) (base : Nat) : TextReader Nat := do
  word ['0', letter]
  digitsValue base <$> digits fun c => (hexDigit? c).any (· < base)

/-- A number of 64 bits with a sign. -/
def integer : TextReader Int := do
  let n ← Int.ofNat <$> (basedNumber 'x' 16 <|> basedNumber 'o' 8 <|> basedNumber 'b' 2) <|>
    (do
      char '-'
      let n ← decimalNumber
      return -n) <|>
    (do
      let _ ← attempt (char '+')
      Int.ofNat <$> decimalNumber)
  if Int64.minValue.toInt ≤ n ∧ n ≤ Int64.maxValue.toInt then return n else failure

def boolean : TextReader Bool :=
  (do
    word "true".toList
    return true) <|>
  (do
    word "false".toList
    return false)

/-! ## Keys and tables -/

def isKeyChar (c : Char) : Bool := c.isAlphanum ∨ c = '_' ∨ c = '-'

def key : TextReader String :=
  String.ofList <$> (oneOrMore (one isKeyChar) <|> lineString <|> literalString)

/-- A key, or several with dots between them. -/
def path : TextReader (List String) := do
  let first ← key
  let rest ← many do
    spaced (char '.')
    key
  return first :: rest

/-- A key and its value. -/
def field (value : TextReader TomlValue) : TextReader (List String × TomlValue) := do
  let path ← path
  spaced (char '=')
  return (path, ← value)

/-- A list of values. A comma may stand behind the last one. -/
def array (value : TextReader TomlValue) : TextReader (List TomlValue) := do
  char '['
  gap
  match ← attempt value with
  | none =>
    char ']'
    return []
  | some first =>
    let rest ← many do
      gap
      char ','
      gap
      value
    gap
    let _ ← attempt (char ',')
    gap
    char ']'
    return first :: rest

/-- A table on one line. -/
def table (value : TextReader TomlValue) : TextReader (List (List String × TomlValue)) := do
  char '\x7b'
  blanks
  match ← attempt (field value) with
  | none =>
    char '\x7d'
    return []
  | some first =>
    let rest ← many do
      spaced (char ',')
      field value
    blanks
    char '\x7d'
    return first :: rest

/-- A value in which at most so many arrays and tables are nested. -/
def value : Nat → TextReader TomlValue
  | 0 => failure
  | depth + 1 =>
    TomlValue.text <$> string <|> TomlValue.integer <$> integer <|>
      TomlValue.boolean <$> boolean <|> TomlValue.array <$> array (value depth) <|>
      TomlValue.table <$> table (value depth)

/-- How deep values may be nested. -/
def maxDepth : Nat := 80

/-! ## Documents -/

/-- The name of a section in brackets. -/
def sectionName : TextReader (List String) := do
  char '['
  let path ← spaced path
  char ']'
  return path

/-- A line with what it says, if it says anything. -/
def line : TextReader (Option TomlLine) := do
  let l ← spaced (attempt (TomlLine.section <$> sectionName <|>
    (fun (path, value) => TomlLine.field path value) <$> field (value maxDepth)))
  let _ ← attempt comment
  return l

/-- The lines of a document. It may start with a byte order mark. -/
def document : TextReader (List TomlLine) := do
  let _ ← attempt (char '\uFEFF')
  let first ← line
  let rest ← many do
    newline
    line
  return (first :: rest).filterMap id

def read (text : List Char) : Option (List TomlLine) := document.whole text

end Toml

end GameQuery
