import GameQuery.Number.Single

namespace GameQuery

/-!
# Players

What a server tells about a player, and what the `status` command of its console adds.
-/

/-- What a row of the `status` table tells about a player. -/
structure PlayerStatus where
  userId : Option UInt32 := none
  uniqueId : Option String := none
  state : Option String := none
  connected : Option String := none
  ping : Option UInt32 := none
  loss : Option UInt32 := none
  rate : Option UInt32 := none
  address : Option String := none
  deriving DecidableEq, Repr, Inhabited

/-- The unique id that servers print for bots. -/
def botId : String := "BOT"

def PlayerStatus.isBot (s : PlayerStatus) : Bool := s.uniqueId == some botId

/-- A player as a server lists it. -/
structure Player where
  index : UInt8
  name : String
  score : Int32
  /-- Seconds since the player connected. -/
  time : Single
  status : Option PlayerStatus := none
  deriving DecidableEq, Repr, Inhabited

def Player.isBot (p : Player) : Bool := p.status.any PlayerStatus.isBot

end GameQuery
