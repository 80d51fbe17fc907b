import GameQuery.CommandLine.Arguments
import GameQuery.Text.Utf8
import GameQuery.Toml

namespace GameQuery

/-!
# Configuration

A configuration has three sections with two fields each. A section is written under its name in
brackets, or as dotted keys, or as one value: a table, or an array of the values of its fields.
A section is written in one way only, and a field once. What is not written has a default.
-/

/-- What holds for a run of the query tool. -/
structure Config where
  logLevel : LogLevel := .warn
  /-- Whether lines of the log are to carry the time of day. -/
  logTime : Bool := false
  /-- How many milliseconds a receive waits. -/
  timeout : Nat := 1000
  /-- How often a page is asked for. -/
  retries : Nat := 3
  masters : List String := ["hl2master.steampowered.com:27011"]
  region : Region := .world
  deriving DecidableEq, Repr

/-- A field and its value. -/
structure ConfigField where
  sectionName : String
  name : String
  value : TomlValue

namespace Config

/-- The fields of a section, in order. -/
def fieldNames? : String → Option (List String)
  | "log" => some ["level", "time"]
  | "client" => some ["timeout", "retries"]
  | "master" => some ["servers", "region"]
  | _ => none

/-- The fields of a section that is written as one value. In an array, what is left over when every
field has its value says nothing. -/
def sectionFields (name : String) (names : List String) : TomlValue → Option (List ConfigField)
  | .table fields => fields.mapM fun
    | ([field], value) => some ⟨name, field, value⟩
    | _ => none
  | .array items => some (names.zipWith (fun field value => ⟨name, field, value⟩) items)
  | _ => none

/-- The fields in the lines of a document. `current` is the section in whose lines they are,
`closed` are the sections that are written already, and `dotted` those that have had dotted
keys. -/
def fieldsOf (current : Option String) (closed dotted : List String) :
    List TomlLine → Option (List ConfigField)
  | [] => some []
  | .section path :: lines =>
    match path with
    | [name] =>
      if name ∈ closed ∨ name ∈ dotted ∨ fieldNames? name = none then none
      else fieldsOf (some name) (name :: closed) dotted lines
    | _ => none
  | .field path value :: lines =>
    match current, path with
    | some name, [field] => (fieldsOf current closed dotted lines).map (⟨name, field, value⟩ :: ·)
    | none, [name, field] =>
      if name ∈ closed then none
      else (fieldsOf none closed (name :: dotted) lines).map (⟨name, field, value⟩ :: ·)
    | none, [name] =>
      if name ∈ closed ∨ name ∈ dotted then none
      else do
        let names ← fieldNames? name
        let fields ← sectionFields name names value
        return fields ++ (← fieldsOf none (name :: closed) dotted lines)
    | _, _ => none

/-- A number below a bound. -/
def number? (bound : Nat) : TomlValue → Option Nat
  | .integer n => if 0 ≤ n ∧ n < bound then some n.toNat else none
  | _ => none

def boolean? : TomlValue → Option Bool
  | .boolean b => some b
  | _ => none

def text? : TomlValue → Option String
  | .text s => some s
  | _ => none

def texts? : TomlValue → Option (List String)
  | .array items => items.mapM text?
  | _ => none

/-- Sets a field, if there is one of that name and the value fits. -/
def setField (c : Config) (f : ConfigField) : Option Config :=
  match f.sectionName, f.name with
  | "log", "level" => do return { c with logLevel := ← LogLevel.parse? (← text? f.value).toList }
  | "log", "time" => do return { c with logTime := ← boolean? f.value }
  | "client", "timeout" => do return { c with timeout := ← number? UInt64.size f.value }
  | "client", "retries" => do return { c with retries := ← number? UInt32.size f.value }
  | "master", "servers" => do return { c with masters := ← texts? f.value }
  | "master", "region" => do
    return { c with region := ← Region.ofByte? (UInt8.ofNat (← number? 256 f.value)) }
  | _, _ => none

/-- The configuration that some fields make, each of which is there once. -/
def ofFields (fields : List ConfigField) : Option Config :=
  if (fields.map fun f => (f.sectionName, f.name)).Nodup then fields.foldlM setField {} else none

/-- Reads a configuration. -/
def parse? (text : List Char) : Option Config := do
  ofFields (← fieldsOf none [] [] (← Toml.read text))

/-- Reads the bytes of a configuration. -/
def decode? (bytes : List UInt8) : Option Config := do
  parse? (← Text.Utf8.decode? bytes).toList

/-- What a command line says comes before what a configuration says. -/
def override (c : Config) (a : Arguments) : Config :=
  { c with
    logLevel := a.logLevel.getD c.logLevel
    timeout := a.timeout.getD c.timeout
    retries := a.retries.getD c.retries
    masters := a.masters.getD c.masters
    region := a.region.getD c.region }

/-- What holds for every client. -/
def settings (c : Config) (s : Settings) : Settings :=
  (s.setTimeout (1000 * c.timeout)).setRetries c.retries

end Config

end GameQuery
