import GameQuery.Text.Blank

namespace GameQuery

/-!
# Options of a command line

An option has a long name behind two hyphens and a letter behind one. Letters may share a hyphen.
An option with an argument takes what is left of its own word, or else the next word. Words that are
no options may stand anywhere; behind two lone hyphens there are only such words.
-/

/-- An option of a command line. -/
structure CommandOption where
  letter : Char
  name : String
  /-- What its argument is called, if it takes one. -/
  argument : Option String := none
  /-- What it does, in lines. -/
  description : List String
  deriving DecidableEq, Repr

/-- What is wrong with the options of a command line. -/
inductive OptionError where
  | unknown (name : List Char)
  | argumentMissing (name : List Char)
  | argumentUnexpected (name : List Char)
  | repeated (name : String)
  deriving DecidableEq, Repr

def OptionError.message : OptionError → String
  | unknown name => "Unrecognized option: '" ++ String.ofList name ++ "'"
  | argumentMissing name => "Argument to option '" ++ String.ofList name ++ "' missing"
  | argumentUnexpected name => "Option '" ++ String.ofList name ++ "' does not take an argument"
  | repeated name => "Option '" ++ name ++ "' given more than once"

/-- An option as it is given, with its argument. -/
structure GivenOption where
  name : String
  argument : Option String := none
  deriving DecidableEq, Repr

/-- The options and the other words of a command line. -/
structure GivenWords where
  options : List GivenOption := []
  words : List String := []
  deriving DecidableEq, Repr

namespace GivenWords

def addOptions (options : List GivenOption) (g : GivenWords) : GivenWords :=
  { g with options := options ++ g.options }

def addWord (word : String) (g : GivenWords) : GivenWords := { g with words := word :: g.words }

/-- Whether an option is given. -/
def has (g : GivenWords) (name : String) : Bool := g.options.any fun o => o.name = name

/-- The argument of an option, if it is given. -/
def argument? (g : GivenWords) (name : String) : Option String :=
  (g.options.find? fun o => o.name = name).bind (·.argument)

/-- An option that is given more than once. -/
def repeated? (g : GivenWords) (options : List CommandOption) : Option CommandOption :=
  options.find? fun o => 1 < g.options.countP fun u => u.name = o.name

end GivenWords

/-- What a word of a command line is. -/
inductive WordKind where
  | plain
  /-- The two lone hyphens. -/
  | lastOption
  /-- Letters behind a hyphen. -/
  | letters (letters : List Char)
  /-- A name behind two hyphens, and what stands behind an equals sign. -/
  | named (name : List Char) (argument : Option (List Char))
  deriving DecidableEq, Repr

def WordKind.ofWord : List Char → WordKind
  | ['-'] => plain
  | ['-', '-'] => lastOption
  | '-' :: '-' :: rest =>
    match Text.splitOnce '=' rest with
    | some (name, argument) => named name (some argument)
    | none => named rest none
  | '-' :: rest => letters rest
  | _ => plain

/-- What a word says: some options, the last of which may still wait for its argument. -/
structure WordOptions where
  options : List GivenOption := []
  /-- The option that takes the next word, and its name as it is written. -/
  waiting : Option (CommandOption × List Char) := none

namespace CommandOption

/-- The option with a name, which may be a letter. -/
def find? (options : List CommandOption) (name : List Char) : Option CommandOption :=
  options.find? fun o => name = [o.letter] ∨ (name.length ≠ 1 ∧ name = o.name.toList)

/-- The options that share a hyphen. -/
def readLetters (options : List CommandOption) : List Char → Except OptionError WordOptions
  | [] => .ok {}
  | c :: rest =>
    match find? options [c] with
    | none => .error (.unknown [c])
    | some o =>
      if o.argument.isSome then
        if rest.isEmpty then .ok { waiting := some (o, [c]) }
        else .ok { options := [⟨o.name, some (String.ofList rest)⟩] }
      else
        (readLetters options rest).map fun w => { w with options := ⟨o.name, none⟩ :: w.options }

/-- The option with a name, and perhaps an argument. -/
def readNamed (options : List CommandOption) (name : List Char) (argument : Option (List Char)) :
    Except OptionError WordOptions :=
  match find? options name with
  | none => .error (.unknown name)
  | some o =>
    match o.argument.isSome, argument with
    | true, some text => .ok { options := [⟨o.name, some (String.ofList text)⟩] }
    | true, none => .ok { waiting := some (o, name) }
    | false, none => .ok { options := [⟨o.name, none⟩] }
    | false, some _ => .error (.argumentUnexpected name)

/-- Reads the words of a command line. -/
def readWords (options : List CommandOption) : List String → Except OptionError GivenWords
  | [] => .ok {}
  | word :: rest => do
    let given ← match WordKind.ofWord word.toList with
      | .plain => return (← readWords options rest).addWord word
      | .lastOption => return { words := rest }
      | .letters letters => readLetters options letters
      | .named name argument => readNamed options name argument
    match given.waiting, rest with
    | none, rest => return (← readWords options rest).addOptions given.options
    | some (_, name), [] => throw (.argumentMissing name)
    | some (o, _), argument :: rest =>
      return (← readWords options rest).addOptions (given.options ++ [⟨o.name, some argument⟩])

/-- Reads a command line. Each option is given at most once. -/
def read (options : List CommandOption) (words : List String) : Except OptionError GivenWords := do
  let given ← readWords options words
  match given.repeated? options with
  | some o => throw (.repeated o.name)
  | none => return given

/-! ## Usage -/

/-- The column at which descriptions start. -/
def descriptionColumn : Nat := 24

/-- The names of an option and of its argument. -/
def heading (o : CommandOption) : String :=
  "    -" ++ String.singleton o.letter ++ ", --" ++ o.name ++ " " ++ o.argument.getD ""

def spaces (n : Nat) : String := String.ofList (List.replicate n ' ')

/-- The lines that describe an option. A heading that is too long has a line of its own. -/
def usage (o : CommandOption) : List String :=
  let indented := o.description.map (spaces descriptionColumn ++ ·)
  if o.heading.length < descriptionColumn then
    match o.description with
    | [] => [o.heading]
    | first :: _ =>
      (o.heading ++ spaces (descriptionColumn - o.heading.length) ++ first) :: indented.drop 1
  else o.heading :: indented

end CommandOption

end GameQuery
