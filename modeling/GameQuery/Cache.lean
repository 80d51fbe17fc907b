import GameQuery.Reply

namespace GameQuery

/-!
# Cache

The latest reply of each category, and how long a server took to answer.
-/

/-- What is kept of a server. -/
inductive Category where
  | ping
  | info
  | rules
  | players
  | challenge
  deriving DecidableEq, Repr

namespace Category

def all : List Category := [ping, info, rules, players, challenge]

/-- The category of a reply. Console output and log lines have none. -/
def ofReply : Reply → Option Category
  | .info _ => some info
  | .players _ => some players
  | .rules _ => some rules
  | .challenge _ => some challenge
  | .console _ | .log _ => none

end Category

/-- What is known of a server. -/
structure ServerCache where
  /-- How long the server took to answer, in microseconds. -/
  ping : Option Nat := none
  info : Option ServerInfo := none
  rules : Option Rules := none
  players : Option (List Player) := none
  challenge : Option Int32 := none
  deriving DecidableEq

namespace ServerCache

def contains (c : ServerCache) : Category → Bool
  | .ping => c.ping.isSome
  | .info => c.info.isSome
  | .rules => c.rules.isSome
  | .players => c.players.isSome
  | .challenge => c.challenge.isSome

/-- The categories that are known. -/
def categories (c : ServerCache) : List Category := Category.all.filter c.contains

/-- Keeps a reply in place of an earlier one of its category. -/
def store (c : ServerCache) : Reply → ServerCache
  | .info info => { c with info := some info }
  | .players players => { c with players := some players }
  | .rules rules => { c with rules := some rules }
  | .challenge number => { c with challenge := some number }
  | .console _ | .log _ => c

/-- Forgets what is known in a category. -/
def forget (c : ServerCache) : Category → ServerCache
  | .ping => { c with ping := none }
  | .info => { c with info := none }
  | .rules => { c with rules := none }
  | .players => { c with players := none }
  | .challenge => { c with challenge := none }

theorem contains_store {c : ServerCache} {r : Reply} {k : Category}
    (h : Category.ofReply r = some k) : (c.store r).contains k = true := by
  cases r <;> cases h <;> rfl

theorem contains_store_of_ne {c : ServerCache} {r : Reply} {k : Category}
    (h : Category.ofReply r ≠ some k) : (c.store r).contains k = c.contains k := by
  cases r <;> cases k <;> simp_all [store, contains, Category.ofReply]

@[simp] theorem contains_forget_self (c : ServerCache) (k : Category) :
    (c.forget k).contains k = false := by
  cases k <;> rfl

end ServerCache

end GameQuery
