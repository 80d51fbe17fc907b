import GameQuery.Error

namespace GameQuery

/-!
# Regions

The parts of the world by which master servers sort game servers.
-/

inductive Region where
  | usEast | usWest | southAmerica | europe | asia | australia | middleEast | africa | world
  deriving DecidableEq, Repr, Inhabited

namespace Region

def toByte : Region → UInt8
  | usEast => 0
  | usWest => 1
  | southAmerica => 2
  | europe => 3
  | asia => 4
  | australia => 5
  | middleEast => 6
  | africa => 7
  | world => 0xFF

def all : List Region :=
  [usEast, usWest, southAmerica, europe, asia, australia, middleEast, africa, world]

def ofByte? (b : UInt8) : Option Region := all.find? fun r => r.toByte = b

@[simp] theorem ofByte?_toByte (r : Region) : ofByte? r.toByte = some r := by cases r <;> decide

theorem toByte_of_ofByte? {b : UInt8} {r : Region} (h : ofByte? b = some r) : r.toByte = b := by
  simpa using List.find?_some h

end Region

end GameQuery
