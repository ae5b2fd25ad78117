/-!
# Text without terminal controls

A text may hold control characters and escape sequences that a terminal acts on and does not show.
`visible` leaves out both and keeps the characters that would be shown, among them tabs and line
ends. The sequences are those of the standard for terminal controls: an escape alone, or one that
opens a control sequence, a device control string, an operating system command or another string.
A sequence that the text does not finish reaches to the end of the text.
-/

namespace TowerOfHanoi.Text

/-- What the characters read so far have opened. -/
inductive TerminalMode where
  /-- Nothing: characters are shown. -/
  | ground
  /-- An escape, whose next character says what it is. -/
  | escape
  /-- An escape with intermediate characters, ended by a letter or digit. -/
  | designation
  /-- A control sequence, ended by a letter or another character from `@` on. -/
  | control
  /-- A device control string before its parameters. -/
  | deviceEntry
  /-- A device control string within its parameters. -/
  | deviceParameter
  /-- A device control string within its intermediate characters. -/
  | deviceIntermediate
  /-- The inside of a string. -/
  | string
  /-- An operating system command, ended by a bell. -/
  | command
  deriving DecidableEq, Repr

/-- A control character that lays text out, and so is shown: tab, line feed, form feed, return. -/
def isLayout (c : Char) : Bool := c ∈ ['\t', '\n', '\x0c', '\r']

/-- A character that is shown where nothing is open. -/
def isShown (c : Char) : Bool := isLayout c || 0x20 ≤ c.toNat && c.toNat ≠ 0x7f

namespace TerminalMode

/-- The mode after an ASCII character other than escape, cancel and substitute. -/
def next (mode : TerminalMode) (c : Char) : TerminalMode :=
  let idle : Bool := c.toNat < 0x20 || c.toNat = 0x7f
  match mode with
  | ground => ground
  | escape =>
    if idle then escape
    else if c.toNat < 0x30 then designation
    else match c with
      | '[' => control
      | ']' => command
      | 'P' => deviceEntry
      | 'X' | '^' | '_' => string
      | _ => ground
  | designation => if idle || c.toNat < 0x30 then designation else ground
  | control => if idle || c.toNat < 0x40 then control else ground
  | deviceEntry =>
    if idle then deviceEntry
    else if c.toNat < 0x30 then deviceIntermediate
    else if c.toNat < 0x40 then deviceParameter
    else string
  | deviceParameter =>
    if idle then deviceParameter
    else if c.toNat < 0x30 then deviceIntermediate
    else if c.toNat < 0x3c then deviceParameter
    else string
  | deviceIntermediate => if idle || c.toNat < 0x30 then deviceIntermediate else string
  | string => string
  | command => if c = '\x07' then ground else command

/-- The mode after a character beyond ASCII. Such a character belongs to what is open; a string is
ended by the byte `9C`, also where that byte is part of a character. -/
def nextWide (mode : TerminalMode) (c : Char) : TerminalMode :=
  if mode = string ∧ 0x9c ∈ String.utf8EncodeChar c then ground else mode

/-- Do layout characters show through in this mode? In strings they do not. -/
def showsLayout : TerminalMode → Bool
  | ground | escape | designation | control => true
  | _ => false

end TerminalMode

/-- A mode, and whether it is suspended: after a layout character within a sequence, text is shown
until the next control character, where the sequence goes on. -/
structure TerminalState where
  mode : TerminalMode := .ground
  suspended : Bool := false
  deriving DecidableEq, Repr

namespace TerminalState

/-- Is text shown now? -/
def isOpen (s : TerminalState) : Bool := s.suspended || s.mode = .ground

/-- Reads a character. Gives the state after it, and whether it is shown. -/
def step (s : TerminalState) (c : Char) : TerminalState × Bool :=
  if c = '\x1b' then (⟨.escape, false⟩, false)
  else if c = '\x18' ∨ c = '\x1a' then (⟨.ground, false⟩, false)
  else if 0x80 ≤ c.toNat then
    if s.isOpen then (⟨.ground, false⟩, true) else (⟨s.mode.nextWide c, false⟩, false)
  else if s.isOpen then (⟨s.mode, s.suspended && isShown c⟩, isShown c)
  else if isLayout c && s.mode.showsLayout then (⟨s.mode, true⟩, true)
  else (⟨s.mode.next c, false⟩, false)

/-- The characters that are shown. -/
def shown : TerminalState → List Char → List Char
  | _, [] => []
  | s, c :: cs =>
    match s.step c with
    | (after, true) => c :: shown after cs
    | (after, false) => shown after cs

end TerminalState

/-- The text without what a terminal would not show. -/
def visible (text : String) : String := String.ofList (TerminalState.shown {} text.toList)

end TowerOfHanoi.Text
