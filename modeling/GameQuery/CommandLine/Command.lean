import GameQuery.CommandLine.Arguments
import GameQuery.ClientError

namespace GameQuery

/-!
# Commands

What the query tool can be told to do. Without a command it asks for information.
-/

inductive Command where
  /-- Lists the servers that master servers know. -/
  | list
  /-- Asks hosts for their information, or all listed servers if there are no hosts. -/
  | info (hosts : List String)
  | rules (host : String)
  | players (host : String)
  /-- Sends a console command. -/
  | console (host command password : String)
  deriving DecidableEq, Repr

/-- Why a command is not carried out. -/
inductive CommandError where
  | unknown
  | argumentMissing (what : String)
  | passwordMissing
  /-- The server does not accept the password. -/
  | passwordRefused
  | client (e : ClientError)
  deriving DecidableEq, Repr

namespace CommandError

def message : CommandError → String
  | unknown => "Undefined command"
  | argumentMissing what => "Missing argument: " ++ what
  | passwordMissing => "RCON password is required"
  | passwordRefused => "RCON authentication failed"
  | client e => e.message

/-- The exit code. -/
def code : CommandError → Nat
  | client .crash => 101
  | _ => 1

end CommandError

namespace Command

/-- The console command in the words behind a host. -/
def ofConsoleWords (password : Option String) : List String → Except CommandError Command
  | [] => .error (.argumentMissing "host")
  | host :: words =>
    let command := " ".intercalate words
    if command.isEmpty then .error (.argumentMissing "command")
    else match password with
      | none => .error .passwordMissing
      | some password => .ok (console host command password)

/-- A command about the host that is the first of some words. -/
def ofHost (command : String → Command) : List String → Except CommandError Command
  | [] => .error (.argumentMissing "host")
  | host :: _ => .ok (command host)

/-- The command in the words of a command line. -/
def ofWords (password : Option String) : List String → Except CommandError Command
  | [] => .ok (info [])
  | "list" :: _ => .ok list
  | "" :: hosts => .ok (info hosts)
  | "info" :: hosts => .ok (info hosts)
  | "rules" :: words => ofHost rules words
  | "players" :: words => ofHost players words
  | "rcon" :: words => ofConsoleWords password words
  | _ => .error .unknown

end Command

end GameQuery
