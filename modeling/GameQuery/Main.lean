import GameQuery.QueryTool

/-!
# The program

Runs the query tool on the words of its command line. The library holds no sockets: what a client
does is computed from a `World`. Here it is one in which no name has an address and nobody answers.
-/

namespace GameQuery

/-- A world without anybody in it. -/
def emptyWorld : World where
  connect _ _ _ := none
  react _ _ _ _ := .ok []
  resolve _ := none
  sessionId _ := 1

/-- How many pages of a listing are asked for at most. -/
def maxPages : Nat := 1000000

/-- The configuration file that a command line names, if it can be read. -/
def readConfig (words : List String) : IO (Option (List UInt8)) := do
  match Arguments.read words with
  | .ok (.run { configPath := some path, .. }) =>
    try
      let bytes ← IO.FS.readBinFile path
      return some bytes.toList
    catch _ => return none
  | _ => return none

end GameQuery

open GameQuery in
def main (words : List String) : IO UInt32 := do
  let config ← readConfig words
  let (outcome, _) := QueryTool.run maxPages (fun _ => config) words { world := emptyWorld }
  outcome.stderr.forM IO.eprintln
  outcome.stdout.forM IO.println
  return UInt32.ofNat outcome.code
