import TowerOfHanoi.Strategy
import TowerOfHanoi.Log.Severity

/-!
# Events

The things worth telling that happen while the program works. What an event says, how severe it is
and which part of the program it comes from are functions of the event, so that whoever raises one
decides nothing about its presentation.
-/

namespace TowerOfHanoi.Log

/-- The part of the program an event comes from. -/
inductive Origin where
  | command
  | counter
  deriving DecidableEq, Repr

/-- The name that filters know the part by. -/
def Origin.target : Origin → String
  | .command => "hanoi"
  | .counter => "hanoi::counter"

/-- Something worth telling. -/
inductive Event where
  /-- The disk count has been read. -/
  | diskCountRead (disks : Nat)
  /-- A strategy was asked for that a listing has no use for. -/
  | strategyIgnored (strategy : Strategy)
  /-- Counting begins. -/
  | counting (disks : Nat) (strategy : Strategy)
  /-- A walk begins. -/
  | solving (disks : Nat)
  /-- A walk has come to its end. -/
  | solved (disks : Nat) (moves : UInt64)
  deriving DecidableEq, Repr

namespace Event

/-- How serious an event is. -/
def severity : Event → Severity
  | diskCountRead _ => .debug
  | strategyIgnored _ => .warn
  | counting _ _ => .debug
  | solving _ => .trace
  | solved _ _ => .trace

/-- Where an event comes from. -/
def origin : Event → Origin
  | diskCountRead _ => .command
  | strategyIgnored _ => .command
  | counting _ _ => .counter
  | solving _ => .counter
  | solved _ _ => .counter

/-- The wording of an event. -/
def message : Event → String
  | diskCountRead disks => "Read disk count " ++ toString disks
  | strategyIgnored strategy =>
    "Listing moves solves the puzzle recursively, ignoring `--method " ++ strategy.name ++ "`"
  | counting disks strategy =>
    "Counting moves for " ++ toString disks ++ " disks (" ++ strategy.name ++ ")"
  | solving disks => "Solving " ++ toString disks ++ " disks recursively"
  | solved disks moves =>
    "Solved " ++ toString disks ++ " disks in " ++ toString moves.toNat ++ " moves"

end Event

/-- A monad in which events can be told. -/
class Logger (m : Type → Type) where
  log : Event → m Unit

export Logger (log)

end TowerOfHanoi.Log
