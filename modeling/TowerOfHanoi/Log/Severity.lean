/-!
# Severities and thresholds

An event has one of five severities. A threshold is a bound on them: it lets through the events
that are at least as severe, and `off` lets through none.
-/

namespace TowerOfHanoi.Log

/-- How serious an event is. -/
inductive Severity where
  | error
  | warn
  | info
  | debug
  | trace
  deriving DecidableEq, Repr

namespace Severity

/-- The severity in capitals. -/
def name : Severity → String
  | error => "ERROR"
  | warn => "WARN"
  | info => "INFO"
  | debug => "DEBUG"
  | trace => "TRACE"

/-- How much has to be let through for events of this severity to be seen. -/
def verbosity : Severity → Nat
  | error => 1
  | warn => 2
  | info => 3
  | debug => 4
  | trace => 5

end Severity

/-- The least severe events that are let through, or `off` for none at all. -/
inductive Threshold where
  | off
  | upTo (severity : Severity)
  deriving DecidableEq, Repr

namespace Threshold

/-- All thresholds, from the quietest. -/
def all : List Threshold :=
  [off, upTo .error, upTo .warn, upTo .info, upTo .debug, upTo .trace]

/-- The threshold in capitals. -/
def name : Threshold → String
  | off => "OFF"
  | upTo severity => severity.name

/-- How much this threshold lets through. -/
def verbosity : Threshold → Nat
  | off => 0
  | upTo severity => severity.verbosity

/-- Are events of this severity let through? -/
def admits (t : Threshold) (s : Severity) : Bool := s.verbosity ≤ t.verbosity

/-- The threshold of a given name. ASCII letters match in either case. -/
def ofName? (name : String) : Option Threshold :=
  all.find? fun t => t.name.toList = name.toList.map Char.toUpper

theorem ofName?_name (t : Threshold) : ofName? t.name = some t := by
  cases t with
  | off => decide
  | upTo s => cases s <;> decide

/-- A threshold is named by its name in any mixture of cases. -/
theorem ofName?_eq_some_iff {name : String} {t : Threshold} :
    ofName? name = some t ↔ name.toList.map Char.toUpper = t.name.toList := by
  constructor
  · intro h
    have hfound : t.name.toList = name.toList.map Char.toUpper := by simpa using List.find?_some h
    exact hfound.symm
  · intro h
    have hupper : t.name.toList.map Char.toUpper = t.name.toList := by
      cases t with
      | off => decide
      | upTo s => cases s <;> decide
    rw [← ofName?_name t, ofName?, ofName?, h, hupper]

theorem eq_of_name_eq {t u : Threshold} (h : t.name = u.name) : t = u := by
  apply Option.some.inj
  rw [← ofName?_name, ← ofName?_name, h]

theorem admits_of_verbosity_le {t u : Threshold} {s : Severity}
    (h : t.verbosity ≤ u.verbosity) (ht : t.admits s = true) : u.admits s = true := by
  simp only [admits, decide_eq_true_eq] at *
  omega

end Threshold

end TowerOfHanoi.Log
