import TowerOfHanoi.Log.Filter
import TowerOfHanoi.Text.Blank

/-!
# Written filters

A filter can be written as `directive,directive,…/pattern`, where the pattern and its slash may be
left out. A directive is a level, a target, or `target=level`. What cannot be understood is skipped
with a warning, be it a directive or the pattern; a text with two or more slashes is ignored as a
whole.
-/

namespace TowerOfHanoi.Log

/-- A part of a written filter that is skipped. -/
inductive SpecWarning where
  /-- The whole text has more than one slash. -/
  | tooManySlashes (text : String)
  /-- A directive, or the level in it, makes no sense. -/
  | unintelligible (text : String)
  /-- The pattern is none, for this reason. -/
  | badPattern (reason : String)
  deriving DecidableEq, Repr

/-- The wording of a warning. -/
def SpecWarning.message : SpecWarning → String
  | .tooManySlashes text =>
    "warning: invalid logging spec '" ++ text ++ "', ignoring it (too many '/'s)"
  | .unintelligible text => "warning: invalid logging spec '" ++ text ++ "', ignoring it"
  | .badPattern reason => "warning: invalid regex filter - " ++ reason

namespace Spec

/-- The threshold of a target that is named without one: everything. -/
def everything : Threshold := .upTo .trace

/-- Reads one directive, which has been trimmed and is not empty. -/
def directive (piece : List Char) : Except SpecWarning Directive :=
  match Text.pieces '=' piece with
  | [word] =>
    match Threshold.ofName? (String.ofList word) with
    | some threshold => .ok ⟨none, threshold⟩
    | none => .ok ⟨some (String.ofList word), everything⟩
  | [target, level] =>
    let level := String.ofList (Text.trim level)
    if level.isEmpty then .ok ⟨some (String.ofList target), everything⟩
    else match Threshold.ofName? level with
      | some threshold => .ok ⟨some (String.ofList target), threshold⟩
      | none => .error (.unintelligible level)
  | _ => .error (.unintelligible (String.ofList piece))

/-- Reads the list of directives before the slash. Blank entries are passed over. -/
def directives (text : List Char) : List (Except SpecWarning Directive) :=
  (((Text.pieces ',' text).map Text.trim).filter fun piece => !piece.isEmpty).map directive

/-- Reads the pattern after the slash, if there is one. -/
def pattern (patterns : PatternLanguage) :
    Option String → Option (String → Bool) × List SpecWarning
  | none => (none, [])
  | some text =>
    match patterns.compile text with
    | .ok isMatch => (some isMatch, [])
    | .error reason => (none, [.badPattern reason])

end Spec

namespace Filter

/-- The filter of a program run: the threshold asked for on the command line, refined by a written
filter if there is one. The warnings are in the order of what they are about. -/
def configure (patterns : PatternLanguage) (threshold : Threshold) (spec : Option String) :
    Filter × List SpecWarning :=
  let base := [⟨none, threshold⟩]
  match spec with
  | none => (⟨base, none⟩, [])
  | some text =>
    match Text.cutAt '/' text.toList with
    | (list, none) => build base list none
    | (list, some rest) =>
      if rest.contains '/' then (⟨base, none⟩, [.tooManySlashes text])
      else build base list (some (String.ofList rest))
where
  /-- Adds the directives that make sense and collects a warning for each of the others, and for the
  pattern if that makes none. -/
  build (base : List Directive) (list : List Char) (rest : Option String) :
      Filter × List SpecWarning :=
    let entries := Spec.directives list
    let understood := entries.filterMap fun
      | .ok d => some d
      | .error _ => none
    let skipped := entries.filterMap fun
      | .ok _ => none
      | .error w => some w
    let (pattern, complaint) := Spec.pattern patterns rest
    (⟨understood.foldl add base, pattern⟩, skipped ++ complaint)

end Filter

end TowerOfHanoi.Log
