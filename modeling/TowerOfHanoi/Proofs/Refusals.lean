import TowerOfHanoi.Proofs.ArgumentSyntax

/-!
# How reading arguments fails

Reading an argument list either comes to settings, or is refused, or comes upon a wish for help or for
the version; and for the last there is an argument that has the wish (`Reading.readAll_eq_error`). It
never breaks down: the list of names that the value of `--method` is compared with holds nothing but
names of strategies.
-/

namespace TowerOfHanoi.Command

/-- The argument asks for help or for the version. -/
def Requests (text : String) : Prop :=
  text = "--help" ∨ text = "--version" ∨
    ∃ rest, text.toList = '-' :: 'h' :: rest ∨ text.toList = '-' :: 'V' :: rest

namespace Ending

/-- Reading has come to its end because something is wrong. -/
def IsRefusal (ending : Ending) : Prop := ∃ e, ending = .refused e

/-- Reading has come to its end because something about the program is wanted. -/
def IsWish (ending : Ending) : Prop := ending = .help ∨ ending = .version

end Ending

theorem Argument.toList_of_ofString_short {text : String} {letter : Char}
    (h : ofString text = short letter) : ∃ rest, text.toList = '-' :: letter :: rest := by
  unfold ofString at h
  split at h
  case h_3 rest _ _ hchars =>
    cases h
    exact ⟨rest, hchars⟩
  all_goals cases h

/-- A letter that is known at all asks for something about the program. -/
theorem requests_of_letter {text : String} {letter : Char} {key : Key}
    (h : Argument.ofString text = .short letter) (hkey : Key.ofLetter? letter = some key) :
    Requests text := by
  obtain ⟨rest, hchars⟩ := Argument.toList_of_ofString_short h
  unfold Key.ofLetter? at hkey
  split at hkey
  · exact Or.inr (Or.inr ⟨rest, Or.inl hchars⟩)
  · exact Or.inr (Or.inr ⟨rest, Or.inr hchars⟩)
  · cases hkey

/-- So does a name, if it is one of the two. -/
theorem requests_of_name {text name : String} {key : Key}
    (h : Argument.ofString text = .long name none) (hkey : Key.ofName? name = some key)
    (hwish : key = .help ∨ key = .version) : Requests text := by
  have htext := Argument.eq_of_ofString_name h
  rw [← Key.name_of_ofName? hkey] at htext
  rcases hwish with rfl | rfl
  · exact Or.inl htext
  · exact Or.inr (Or.inl htext)

/-- A computation that fails has failed in one of its parts. -/
theorem bind_eq_error {ε α β : Type} {x : Except ε α} {f : α → Except ε β} {e : ε}
    (h : x >>= f = .error e) : x = .error e ∨ ∃ a, f a = .error e := by
  cases x with
  | error e' =>
    cases h
    exact Or.inl rfl
  | ok a => exact Or.inr ⟨a, h⟩

namespace Reading

variable {r : Reading} {ending : Ending}

/-- A value is refused, and never accepted first and not understood then. -/
theorem isRefusal_of_choose {choice : Choice} {value : String}
    (h : r.choose choice value = .error ending) : ending.IsRefusal := by
  cases choice with
  | method =>
    have hname := @Strategy.mem_names_iff value
    grind [choose, Ending.IsRefusal]
  | logLevel => grind [choose, Ending.IsRefusal]

theorem isRefusal_of_turnOn {switch : Switch} (h : r.turnOn switch = .error ending) :
    ending.IsRefusal := by
  cases switch <;> grind [turnOn, Ending.IsRefusal]

theorem isRefusal_of_settle (h : r.settle = .error ending) : ending.IsRefusal := by
  unfold settle at h
  split at h
  · cases h
  · cases h
    exact ⟨_, rfl⟩
  · exact isRefusal_of_choose h

/-- Only two keys end reading without a refusal. -/
theorem press_eq_error {key : Key} (h : r.press key = .error ending) :
    ending.IsRefusal ∨ (key = .help ∨ key = .version) ∧ ending.IsWish := by
  rcases bind_eq_error h with hsettle | ⟨r₀, h⟩
  · exact Or.inl (isRefusal_of_settle hsettle)
  · cases key with
    | choice choice => cases h
    | switch switch => exact Or.inl (isRefusal_of_turnOn h)
    | help =>
      cases h
      exact Or.inr ⟨Or.inl rfl, Or.inl rfl⟩
    | version =>
      cases h
      exact Or.inr ⟨Or.inr rfl, Or.inr rfl⟩

theorem isRefusal_of_assign {key : Key} {value : String} (h : r.assign key value = .error ending) :
    ending.IsRefusal := by
  cases key with
  | choice choice =>
    rcases bind_eq_error h with hsettle | ⟨r₀, h⟩
    · exact isRefusal_of_settle hsettle
    · exact isRefusal_of_choose h
  | switch _ | help | version =>
    cases h
    exact ⟨_, rfl⟩

theorem next_eq_error {text : String} (h : r.next (Argument.ofString text) = .error ending) :
    ending.IsRefusal ∨ Requests text ∧ ending.IsWish := by
  cases hargument : Argument.ofString text with
  | separator =>
    rw [hargument] at h
    cases h
  | long name value =>
    rw [hargument] at h
    simp only [next] at h
    split at h
    next =>
      cases h
      exact Or.inl ⟨_, rfl⟩
    next key hkey =>
      exact (press_eq_error h).imp_right fun hwish =>
        ⟨requests_of_name hargument hkey hwish.1, hwish.2⟩
    next => exact Or.inl (isRefusal_of_assign h)
  | short letter =>
    rw [hargument] at h
    simp only [next] at h
    split at h
    next =>
      cases h
      exact Or.inl ⟨_, rfl⟩
    next key hletter =>
      exact (press_eq_error h).imp_right fun hwish =>
        ⟨requests_of_letter hargument hletter, hwish.2⟩
  | plain value =>
    rw [hargument] at h
    simp only [next, supply] at h
    split at h
    · cases h
    · cases h
      exact Or.inl ⟨_, rfl⟩

theorem isRefusal_of_finish (h : r.finish = .error ending) : ending.IsRefusal := by
  rcases bind_eq_error h with hsettle | ⟨r₀, h⟩
  · exact isRefusal_of_settle hsettle
  · cases h

/-- Reading that fails has either been refused or come upon a wish. -/
theorem readAll_eq_error {arguments : List String} (h : r.readAll arguments = .error ending) :
    ending.IsRefusal ∨ (∃ text ∈ arguments, Requests text) ∧ ending.IsWish := by
  induction arguments generalizing r with
  | nil => exact Or.inl (isRefusal_of_finish h)
  | cons text rest ih =>
    by_cases hsep : Argument.ofString text = .separator
    · rw [Argument.eq_of_ofString_separator hsep] at h
      cases rest with
      | nil => exact Or.inl (isRefusal_of_finish h)
      | cons extra rest =>
        cases h
        exact Or.inl ⟨_, rfl⟩
    · rw [readAll_cons hsep] at h
      rcases bind_eq_error h with hnext | ⟨r', hrest⟩
      · refine (next_eq_error hnext).imp_right ?_
        rintro ⟨htext, hwish⟩
        exact ⟨⟨text, List.mem_cons_self, htext⟩, hwish⟩
      · refine (ih hrest).imp_right ?_
        rintro ⟨⟨text', hmem, htext'⟩, hwish⟩
        exact ⟨⟨text', List.mem_cons_of_mem text hmem, htext'⟩, hwish⟩

end Reading

/-- No argument list makes reading break down. -/
theorem readArguments_ne_brokeDown (arguments : List String) (b : Breakdown) :
    readArguments arguments ≠ .error (.brokeDown b) := by
  intro h
  rcases Reading.readAll_eq_error h with ⟨e, he⟩ | ⟨-, hhelp | hversion⟩
  · cases he
  · cases hhelp
  · cases hversion

end TowerOfHanoi.Command
