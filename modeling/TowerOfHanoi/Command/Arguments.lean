import TowerOfHanoi.Command.Failure
import TowerOfHanoi.Command.Usage
import TowerOfHanoi.Text.Split

/-!
# Reading arguments

Arguments are read from left to right. An option may be given its value in the same argument, after
an equals sign, or in the next one. In the second case it is *pending* until something else is
read: only then is it looked at, so its faults are found then, and an argument that makes no sense
at all is found before them. Reading ends at the first fault and at the first wish for help or for
the version.
-/

namespace TowerOfHanoi.Command

/-- Why reading ends before the settings are known. -/
inductive Ending where
  | help
  | version
  | refused (e : UsageError)
  | brokeDown (b : Breakdown)
  deriving DecidableEq, Repr

/-- The form of an argument. -/
inductive Argument where
  /-- Two dashes alone. -/
  | separator
  /-- Two dashes and a name, perhaps with a value after an equals sign. -/
  | long (name : String) (value : Option String)
  /-- One dash and letters, of which the first decides. -/
  | short (letter : Char)
  /-- Anything else. -/
  | plain (text : String)
  deriving DecidableEq, Repr

/-- Takes an argument apart. -/
def Argument.ofString (text : String) : Argument :=
  match text.toList with
  | ['-', '-'] => separator
  | '-' :: '-' :: rest =>
    let (name, value) := Text.cutAt '=' rest
    long (String.ofList name) (value.map String.ofList)
  | '-' :: letter :: _ => short letter
  | _ => plain text

/-- What a name after two dashes, or a letter after one, stands for. -/
inductive Key where
  | choice (choice : Choice)
  | switch (switch : Switch)
  | help
  | version
  deriving DecidableEq, Repr

namespace Key

/-- All keys. -/
def all : List Key :=
  [choice .method, choice .logLevel, switch .printMoves, switch .markdownHelp, help, version]

/-- The name of a key, without dashes. -/
def name : Key → String
  | choice c => c.name
  | switch s => s.name
  | help => "help"
  | version => "version"

/-- The key of a given name. Names are not abbreviated. -/
def ofName? (name : String) : Option Key := all.find? (·.name = name)

/-- The key of a given letter. -/
def ofLetter? : Char → Option Key
  | 'h' => some help
  | 'V' => some version
  | _ => none

end Key

/-- An option that stands in an argument of its own, and its value if that has been read. -/
structure Pending where
  choice : Choice
  value : Option String
  deriving DecidableEq, Repr

/-- What has been read so far. -/
structure Reading where
  strategy : Option Strategy := none
  threshold : Option Log.Threshold := none
  printMoves : Bool := false
  markdownHelp : Bool := false
  pending : Option Pending := none
  deriving DecidableEq, Repr

namespace Reading

/-- Notes the value of an option. A second value is refused before it is looked at. The value of
`--method` is first compared with the names that can be given, and what is among them is then taken
to be the name of a strategy. -/
def choose (r : Reading) (choice : Choice) (value : String) : Except Ending Reading :=
  match choice with
  | .method =>
    if r.strategy.isSome then .error (.refused (.repeatedChoice .method))
    else if value.isEmpty then .error (.refused (.missingValue .method))
    else if value ∈ Strategy.all.map Strategy.name then
      match Strategy.ofName? value with
      | some strategy => .ok { r with strategy := some strategy }
      | none => .error (.brokeDown .nameWithoutStrategy)
    else .error (.refused (.badValue .method value))
  | .logLevel =>
    if r.threshold.isSome then .error (.refused (.repeatedChoice .logLevel))
    else match Log.Threshold.ofName? value with
      | some threshold => .ok { r with threshold := some threshold }
      | none => .error (.refused (.badValue .logLevel value))

/-- Turns a switch on, unless it is on already. -/
def turnOn (r : Reading) (switch : Switch) : Except Ending Reading :=
  match switch with
  | .printMoves =>
    if r.printMoves then .error (.refused (.repeatedSwitch .printMoves))
    else .ok { r with printMoves := true }
  | .markdownHelp =>
    if r.markdownHelp then .error (.refused (.repeatedSwitch .markdownHelp))
    else .ok { r with markdownHelp := true }

/-- Looks at the pending option, if there is one. -/
def settle (r : Reading) : Except Ending Reading :=
  match r.pending with
  | none => .ok r
  | some ⟨choice, none⟩ => .error (.refused (.missingValue choice))
  | some ⟨choice, some value⟩ => { r with pending := none }.choose choice value

/-- Acts on a key that is given without a value. -/
def press (r : Reading) (key : Key) : Except Ending Reading := do
  let r ← r.settle
  match key with
  | .choice choice => .ok { r with pending := some ⟨choice, none⟩ }
  | .switch switch => r.turnOn switch
  | .help => .error .help
  | .version => .error .version

/-- Acts on a key that is given with a value. Only options can have one. -/
def assign (r : Reading) (key : Key) (value : String) : Except Ending Reading :=
  match key with
  | .choice choice => do
    let r ← r.settle
    r.choose choice value
  | key => .error (.refused (.superfluousValue key.name value))

/-- Takes a text that is no option: the value that is waited for, if one is. -/
def supply (r : Reading) (text : String) : Except Ending Reading :=
  match r.pending with
  | some ⟨choice, none⟩ => .ok { r with pending := some ⟨choice, some text⟩ }
  | _ => .error (.refused (.unexpected text))

/-- Reads one argument other than the separator, which changes nothing by itself. -/
def next (r : Reading) (argument : Argument) : Except Ending Reading :=
  match argument with
  | .separator => .ok r
  | .long name value =>
    match Key.ofName? name, value with
    | none, _ => .error (.refused (.unexpected ("--" ++ name)))
    | some key, none => r.press key
    | some key, some value => r.assign key value
  | .short letter =>
    match Key.ofLetter? letter with
    | none => .error (.refused (.unexpected ("-" ++ String.singleton letter)))
    | some key => r.press key
  | .plain text => r.supply text

/-- The settings at the end of the arguments. What was not given has its default. -/
def finish (r : Reading) : Except Ending Settings := do
  let r ← r.settle
  let defaults : Settings := {}
  .ok
    { strategy := r.strategy.getD defaults.strategy
      threshold := r.threshold.getD defaults.threshold
      listMoves := r.printMoves
      manual := r.markdownHelp }

/-- Reads the remaining arguments. After a separator there must be none. -/
def readAll (r : Reading) : List String → Except Ending Settings
  | [] => r.finish
  | text :: rest =>
    match Argument.ofString text with
    | .separator =>
      match rest with
      | [] => r.finish
      | extra :: _ => .error (.refused (.unexpected extra))
    | argument => do
      let r ← r.next argument
      r.readAll rest

end Reading

/-- Reads an argument list. -/
def readArguments (arguments : List String) : Except Ending Settings :=
  Reading.readAll {} arguments

end TowerOfHanoi.Command
