import TowerOfHanoi.Log.Event
import TowerOfHanoi.Text.Split

/-!
# Filters

A filter is a list of directives. A directive sets a threshold, either for all targets or for those
whose name begins with a given text. For an event the directive with the longest matching name
decides, and of two that are equally long the later one. A filter may also ask for a pattern, which
then has to match the message.

What the patterns are is left open: a `PatternLanguage` says which texts a pattern matches, and which
patterns there are not.
-/

namespace TowerOfHanoi.Log

/-- A threshold for the targets whose name starts with `scope`, or for all targets. -/
structure Directive where
  scope : Option String
  threshold : Threshold
  deriving DecidableEq, Repr

namespace Directive

/-- Does the directive speak about this target? -/
def covers (d : Directive) (target : String) : Bool :=
  d.scope.all fun scope => scope.toList.isPrefixOf target.toList

/-- The length of the name; no name counts as the empty one. -/
def weight (d : Directive) : Nat := (d.scope.map String.utf8ByteSize).getD 0

/-- Of the directive chosen so far and the next one in the list, the one that decides on `target`. -/
def prefer (target : String) (best? : Option Directive) (d : Directive) : Option Directive :=
  if d.covers target && best?.all (·.weight ≤ d.weight) then some d else best?

end Directive

/-- A way of reading patterns: the texts that a pattern matches, or what is wrong with it. -/
structure PatternLanguage where
  compile : String → Except String (String → Bool)

/-- The patterns without special characters: each is the text it looks for. -/
def PatternLanguage.literal : PatternLanguage where
  compile phrase := .ok fun text => Text.occursIn phrase.toList text.toList

/-- Directives in the order in which they were given, and the texts that a pattern matches. -/
structure Filter where
  directives : List Directive
  pattern : Option (String → Bool) := none

namespace Filter

/-- Adds a directive. It takes the place of an earlier one with the same scope; having no scope is
not the same as having an empty one. -/
def add (directives : List Directive) (d : Directive) : List Directive :=
  if directives.any (·.scope = d.scope) then
    directives.map fun old => if old.scope = d.scope then d else old
  else directives ++ [d]

/-- The directive that decides on `target`: the longest that covers it, and the last of these. -/
def decisive? (f : Filter) (target : String) : Option Directive :=
  f.directives.foldl (Directive.prefer target) none

/-- Does the filter let this event through? -/
def admits (f : Filter) (e : Event) : Bool :=
  (f.decisive? e.origin.target).any (·.threshold.admits e.severity)
    && f.pattern.all fun isMatch => isMatch e.message

end Filter

end TowerOfHanoi.Log
