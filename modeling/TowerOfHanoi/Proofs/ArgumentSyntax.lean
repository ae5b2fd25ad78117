import TowerOfHanoi.Command.Arguments

/-!
# The language of argument lists

An argument list that is read to its end spells out *groups*, each an option with its value or a
switch, and perhaps a separator after them. Reading it comes to the same as taking the groups one
by one (`readArguments_eq_ok_iff`), although an option whose value stands in an argument of its own
is only looked at later: the arguments that have been read and not yet acted upon are the
`Reading.heldBack` ones, and the induction goes over lists that still have them in front.
-/

namespace TowerOfHanoi

/-! ## The forms of an argument -/

namespace Text

variable {sep : Char} {cs before after : List Char}

/-- Without a separator nothing is cut off. -/
theorem cutAt_eq_none (h : cutAt sep cs = (before, none)) : cs = before := by
  induction cs generalizing before with
  | nil =>
    cases h
    rfl
  | cons c cs ih =>
    by_cases hc : c = sep
    · simp [cutAt, if_pos hc] at h
    · simp only [cutAt, if_neg hc, Prod.mk.injEq] at h
      obtain ⟨rfl, rest⟩ := h
      exact congrArg (c :: ·) (ih (Prod.ext rfl rest))

theorem cutAt_append (h : sep ∉ before) :
    cutAt sep (before ++ sep :: after) = (before, some after) := by
  induction before with
  | nil => simp [cutAt]
  | cons c before ih =>
    have hc : c ≠ sep := fun hc => h (hc ▸ List.mem_cons_self)
    have hbefore : sep ∉ before := fun hmem => h (List.mem_cons_of_mem c hmem)
    rw [List.cons_append, cutAt, if_neg hc, ih hbefore]

end Text

namespace Command

namespace Argument

variable {text name value : String}

theorem eq_of_ofString_separator (h : ofString text = separator) : text = "--" := by
  unfold ofString at h
  split at h
  next hchars => exact String.toList_inj.mp hchars
  all_goals cases h

theorem eq_of_ofString_long {given : Option String} (h : ofString text = long name given) :
    text = "--" ++ name ++ given.elim "" ("=" ++ ·) := by
  unfold ofString at h
  split at h
  case h_2 rest _ hchars =>
    rcases hcut : Text.cutAt '=' rest with ⟨before, after⟩
    rw [hcut] at h
    cases h
    apply String.toList_inj.mp
    cases after with
    | none => simp [hchars, Text.cutAt_eq_none hcut]
    | some after => simp [hchars, Text.cutAt_eq_some hcut]
  all_goals cases h

theorem eq_of_ofString_name (h : ofString text = long name none) : text = "--" ++ name := by
  simpa using eq_of_ofString_long h

theorem eq_of_ofString_assignment (h : ofString text = long name (some value)) :
    text = "--" ++ name ++ "=" ++ value := by
  simpa [String.append_assoc] using eq_of_ofString_long h

theorem eq_of_ofString_plain {given : String} (h : ofString text = plain given) : text = given := by
  unfold ofString at h
  split at h
  case h_4 =>
    cases h
    rfl
  all_goals cases h

theorem ofString_of_head?_ne (h : text.toList.head? ≠ some '-') : ofString text = plain text := by
  unfold ofString
  split
  next hchars => simp [hchars] at h
  next hchars => simp [hchars] at h
  next hchars => simp [hchars] at h
  next => rfl

theorem ofString_of_dashes {rest : List Char} (h : text.toList = '-' :: '-' :: rest)
    (hrest : rest ≠ []) :
    ofString text = long (String.ofList (Text.cutAt '=' rest).1)
      ((Text.cutAt '=' rest).2.map String.ofList) := by
  unfold ofString
  rw [h]
  cases rest with
  | nil => exact absurd rfl hrest
  | cons c cs => rfl

theorem ofString_choice (choice : Choice) :
    ofString ("--" ++ choice.name) = long choice.name none := by
  cases choice <;> rfl

theorem ofString_switch (switch : Switch) :
    ofString ("--" ++ switch.name) = long switch.name none := by
  cases switch <;> rfl

theorem ofString_assignment (choice : Choice) (value : String) :
    ofString ("--" ++ choice.name ++ "=" ++ value) = long choice.name (some value) := by
  have hname : '=' ∉ choice.name.toList := by cases choice <;> decide
  have hchars : ("--" ++ choice.name ++ "=" ++ value).toList =
      '-' :: '-' :: (choice.name.toList ++ '=' :: value.toList) := by simp
  rw [ofString_of_dashes hchars (by simp), Text.cutAt_append hname]
  simp

end Argument

/-! ## One argument -/

/-- A computation that comes to a result has come through its first part. -/
theorem bind_eq_ok_iff {ε α β : Type} {x : Except ε α} {f : α → Except ε β} {b : β} :
    x >>= f = .ok b ↔ ∃ a, x = .ok a ∧ f a = .ok b := by
  cases x with
  | error e =>
    constructor
    · intro h
      cases h
    · rintro ⟨a, ha, -⟩
      cases ha
  | ok a =>
    constructor
    · intro h
      exact ⟨a, rfl, h⟩
    · rintro ⟨a, ha, h⟩
      cases ha
      exact h

theorem Key.name_of_ofName? {name : String} {key : Key} (h : Key.ofName? name = some key) :
    key.name = name := by
  simpa using List.find?_some h

theorem Key.ofName?_name (key : Key) : Key.ofName? key.name = some key := by
  cases key with
  | choice choice => cases choice <;> decide
  | switch switch => cases switch <;> decide
  | help => decide
  | version => decide

namespace Reading

variable {r r₀ r' : Reading}

theorem settle_of_pending_none (h : r.pending = none) : r.settle = .ok r := by
  unfold settle
  rw [h]

theorem choose_method_eq_ok_iff {value : String} :
    r.choose .method value = .ok r' ↔
      r.strategy = none ∧ ∃ strategy, Strategy.ofName? value = some strategy ∧
        r' = { r with strategy := some strategy } := by
  have hempty : Strategy.ofName? "" = none := by decide
  cases hstrategy : r.strategy with
  | some strategy => simp [choose, hstrategy]
  | none =>
    by_cases hvalue : value = ""
    · simp [choose, hstrategy, hvalue, hempty]
    · by_cases hmem : value ∈ Strategy.all.map Strategy.name
      · obtain ⟨strategy, hname⟩ := Strategy.mem_names_iff.mp hmem
        simp only [choose, hstrategy, hname, if_pos hmem]
        simp [hvalue, eq_comm (b := r')]
      · have hname : ∀ strategy, Strategy.ofName? value ≠ some strategy :=
          fun strategy hsome => hmem (Strategy.mem_names_iff.mpr ⟨strategy, hsome⟩)
        simp only [choose, hstrategy, if_neg hmem]
        simp [hvalue, hname]

theorem choose_logLevel_eq_ok_iff {value : String} :
    r.choose .logLevel value = .ok r' ↔
      r.threshold = none ∧ ∃ threshold, Log.Threshold.ofName? value = some threshold ∧
        r' = { r with threshold := some threshold } := by
  cases hthreshold : r.threshold with
  | some threshold => simp [choose, hthreshold]
  | none =>
    cases hname : Log.Threshold.ofName? value with
    | none => simp [choose, hthreshold, hname]
    | some threshold => simp [choose, hthreshold, hname, eq_comm (b := r')]

theorem turnOn_printMoves_eq_ok_iff :
    r.turnOn .printMoves = .ok r' ↔ r.printMoves = false ∧ r' = { r with printMoves := true } := by
  cases h : r.printMoves with
  | true => simp [turnOn, h]
  | false => simp [turnOn, h, eq_comm (b := r')]

theorem turnOn_markdownHelp_eq_ok_iff :
    r.turnOn .markdownHelp = .ok r' ↔
      r.markdownHelp = false ∧ r' = { r with markdownHelp := true } := by
  cases h : r.markdownHelp with
  | true => simp [turnOn, h]
  | false => simp [turnOn, h, eq_comm (b := r')]

/-- Neither a value nor a switch says anything about the pending option. -/
theorem pending_of_choose {choice : Choice} {value : String} (h : r.choose choice value = .ok r') :
    r'.pending = r.pending := by
  cases choice with
  | method =>
    obtain ⟨-, strategy, -, rfl⟩ := choose_method_eq_ok_iff.mp h
    rfl
  | logLevel =>
    obtain ⟨-, threshold, -, rfl⟩ := choose_logLevel_eq_ok_iff.mp h
    rfl

theorem pending_of_turnOn {switch : Switch} (h : r.turnOn switch = .ok r') :
    r'.pending = r.pending := by
  cases switch with
  | printMoves =>
    obtain ⟨-, rfl⟩ := turnOn_printMoves_eq_ok_iff.mp h
    rfl
  | markdownHelp =>
    obtain ⟨-, rfl⟩ := turnOn_markdownHelp_eq_ok_iff.mp h
    rfl

/-- A value that is accepted does not look like an option. -/
theorem ofString_of_choose {choice : Choice} {value : String}
    (h : r.choose choice value = .ok r') : Argument.ofString value = .plain value := by
  apply Argument.ofString_of_head?_ne
  cases choice with
  | method =>
    obtain ⟨-, strategy, hname, -⟩ := choose_method_eq_ok_iff.mp h
    rw [← Strategy.name_of_ofName? hname]
    cases strategy <;> decide
  | logLevel =>
    obtain ⟨-, threshold, hname, -⟩ := choose_logLevel_eq_ok_iff.mp h
    intro hdash
    have hhead : threshold.name.toList.head? = some '-' := by
      rw [← Log.Threshold.ofName?_eq_some_iff.mp hname, List.head?_map, hdash]
      rfl
    cases threshold with
    | off => exact absurd hhead (by decide)
    | upTo severity => cases severity <;> exact absurd hhead (by decide)

theorem pending_of_settle (h : r.settle = .ok r₀) : r₀.pending = none := by
  unfold settle at h
  split at h
  next hpending =>
    cases h
    exact hpending
  next => cases h
  next => exact pending_of_choose h

/-- What one argument does to the reading, if it is not the end of it. -/
inductive Step (r : Reading) : Argument → Reading → Prop where
  | await (choice : Choice) {r₀ : Reading} :
      r.settle = .ok r₀ → Step r (.long choice.name none) { r₀ with pending := some ⟨choice, none⟩ }
  | turn (switch : Switch) {r₀ r' : Reading} :
      r.settle = .ok r₀ → r₀.turnOn switch = .ok r' → Step r (.long switch.name none) r'
  | assign (choice : Choice) (value : String) {r₀ r' : Reading} :
      r.settle = .ok r₀ → r₀.choose choice value = .ok r' →
      Step r (.long choice.name (some value)) r'
  | supply (choice : Choice) (value : String) :
      r.pending = some ⟨choice, none⟩ →
      Step r (.plain value) { r with pending := some ⟨choice, some value⟩ }

theorem press_eq_ok {key : Key} (h : r.press key = .ok r') : r.Step (.long key.name none) r' := by
  obtain ⟨r₀, hsettle, h⟩ := bind_eq_ok_iff.mp h
  cases key with
  | choice choice =>
    cases h
    exact .await choice hsettle
  | switch switch => exact .turn switch hsettle h
  | help => cases h
  | version => cases h

theorem assign_eq_ok {key : Key} {value : String} (h : r.assign key value = .ok r') :
    r.Step (.long key.name (some value)) r' := by
  cases key with
  | choice choice =>
    obtain ⟨r₀, hsettle, h⟩ := bind_eq_ok_iff.mp h
    exact .assign choice value hsettle h
  | switch switch => cases h
  | help => cases h
  | version => cases h

theorem step_of_next {argument : Argument} (hargument : argument ≠ .separator)
    (h : r.next argument = .ok r') : r.Step argument r' := by
  cases argument with
  | separator => exact absurd rfl hargument
  | long name value =>
    simp only [next] at h
    split at h
    next => cases h
    next key hkey =>
      rw [← Key.name_of_ofName? hkey]
      exact press_eq_ok h
    next key value hkey =>
      rw [← Key.name_of_ofName? hkey]
      exact assign_eq_ok h
  | short letter =>
    -- the letters there are ask for help and for the version
    simp only [next] at h
    split at h
    next => cases h
    next key hkey =>
      obtain ⟨r₀, -, h⟩ := bind_eq_ok_iff.mp h
      unfold Key.ofLetter? at hkey
      split at hkey
      · cases hkey
        cases h
      · cases hkey
        cases h
      · cases hkey
  | plain text =>
    simp only [next, supply] at h
    split at h
    next choice hpending =>
      cases h
      exact .supply choice text hpending
    next => cases h

theorem next_of_step {argument : Argument} (h : r.Step argument r') : r.next argument = .ok r' := by
  have hpress : ∀ key : Key, r.next (.long key.name none) = r.press key := by
    intro key
    simp only [next, Key.ofName?_name]
  have hassign : ∀ (key : Key) (value : String),
      r.next (.long key.name (some value)) = r.assign key value := by
    intro key value
    simp only [next, Key.ofName?_name]
  cases h with
  | await choice hsettle =>
    exact (hpress (.choice choice)).trans (bind_eq_ok_iff.mpr ⟨_, hsettle, rfl⟩)
  | turn switch hsettle hturn =>
    exact (hpress (.switch switch)).trans (bind_eq_ok_iff.mpr ⟨_, hsettle, hturn⟩)
  | assign choice value hsettle hchoose =>
    exact (hassign (.choice choice) value).trans (bind_eq_ok_iff.mpr ⟨_, hsettle, hchoose⟩)
  | supply choice value hpending => simp only [next, supply, hpending]

/-- A pending option may be settled before the next argument as well as by it. -/
theorem Step.of_settle {argument : Argument} (hsettle : r.settle = .ok r₀)
    (h : r₀.Step argument r') : r.Step argument r' := by
  have hpending : r₀.pending = none := pending_of_settle hsettle
  have hsettled : r₀.settle = .ok r₀ := settle_of_pending_none hpending
  cases h with
  | await choice h =>
    rw [hsettled] at h
    cases h
    exact .await choice hsettle
  | turn switch h hturn =>
    rw [hsettled] at h
    cases h
    exact .turn switch hsettle hturn
  | assign choice value h hchoose =>
    rw [hsettled] at h
    cases h
    exact .assign choice value hsettle hchoose
  | supply choice value h =>
    rw [hpending] at h
    cases h

/-! ## Whole lists -/

/-- The settings that have been read. -/
def settings (r : Reading) : Settings :=
  let defaults : Settings := {}
  { strategy := r.strategy.getD defaults.strategy
    threshold := r.threshold.getD defaults.threshold
    listMoves := r.printMoves
    manual := r.markdownHelp }

theorem finish_eq_ok_iff {settings : Settings} :
    r.finish = .ok settings ↔ ∃ r₀, r.settle = .ok r₀ ∧ r₀.settings = settings := by
  unfold finish
  rw [bind_eq_ok_iff]
  constructor
  · rintro ⟨r₀, hsettle, h⟩
    cases h
    exact ⟨r₀, hsettle, rfl⟩
  · rintro ⟨r₀, hsettle, rfl⟩
    exact ⟨r₀, hsettle, rfl⟩

theorem readAll_separator_eq_ok_iff {rest : List String} {settings : Settings} :
    r.readAll ("--" :: rest) = .ok settings ↔ rest = [] ∧ r.finish = .ok settings := by
  cases rest with
  | nil => exact ⟨fun h => ⟨rfl, h⟩, fun h => h.2⟩
  | cons extra rest =>
    constructor
    · intro h
      cases h
    · rintro ⟨h, -⟩
      cases h

theorem readAll_cons {text : String} {rest : List String}
    (h : Argument.ofString text ≠ .separator) :
    r.readAll (text :: rest) =
      r.next (Argument.ofString text) >>= fun r' => r'.readAll rest := by
  rw [readAll.eq_def]
  dsimp only
  split
  next hsep => exact absurd hsep h
  next => rfl

theorem readAll_cons_eq_ok_iff {text : String} {rest : List String} {settings : Settings}
    (h : Argument.ofString text ≠ .separator) :
    r.readAll (text :: rest) = .ok settings ↔
      ∃ r', r.Step (Argument.ofString text) r' ∧ r'.readAll rest = .ok settings := by
  rw [readAll_cons h, bind_eq_ok_iff]
  constructor
  · rintro ⟨r', hnext, hrest⟩
    exact ⟨r', step_of_next h hnext, hrest⟩
  · rintro ⟨r', hstep, hrest⟩
    exact ⟨r', next_of_step hstep, hrest⟩

theorem readAll_of_step {text : String} {argument : Argument} {rest : List String}
    {settings : Settings} (hform : Argument.ofString text = argument) (hstep : r.Step argument r')
    (hrest : r'.readAll rest = .ok settings) : r.readAll (text :: rest) = .ok settings := by
  have hsep : Argument.ofString text ≠ .separator := by
    rw [hform]
    intro hsep
    rw [hsep] at hstep
    cases hstep
  subst hform
  exact (readAll_cons_eq_ok_iff hsep).mpr ⟨r', hstep, hrest⟩

/-- Settling early does not change what the rest is read as. -/
theorem readAll_of_settle {arguments : List String} {settings : Settings}
    (hsettle : r.settle = .ok r₀) (h : r₀.readAll arguments = .ok settings) :
    r.readAll arguments = .ok settings := by
  have hfinish : r₀.finish = .ok settings → r.finish = .ok settings := by
    intro h
    obtain ⟨r₁, hsettled, rfl⟩ := finish_eq_ok_iff.mp h
    rw [settle_of_pending_none (pending_of_settle hsettle)] at hsettled
    cases hsettled
    exact finish_eq_ok_iff.mpr ⟨r₀, hsettle, rfl⟩
  cases arguments with
  | nil => exact hfinish h
  | cons text rest =>
    by_cases hsep : Argument.ofString text = .separator
    · rw [Argument.eq_of_ofString_separator hsep] at h ⊢
      obtain ⟨hrest, h⟩ := readAll_separator_eq_ok_iff.mp h
      exact readAll_separator_eq_ok_iff.mpr ⟨hrest, hfinish h⟩
    · obtain ⟨r', hstep, hrest⟩ := (readAll_cons_eq_ok_iff hsep).mp h
      exact (readAll_cons_eq_ok_iff hsep).mpr ⟨r', hstep.of_settle hsettle, hrest⟩

end Reading

/-! ## Groups -/

/-- An option with its value, or a switch. -/
inductive Group where
  | choice (choice : Choice) (value : String)
  | switch (switch : Switch)
  deriving DecidableEq, Repr

/-- The ways to write a group: a value stands in an argument of its own or after an equals sign. -/
inductive Group.Spelling : Group → List String → Prop where
  | apart (choice : Choice) (value : String) :
      Spelling (.choice choice value) ["--" ++ choice.name, value]
  | joined (choice : Choice) (value : String) :
      Spelling (.choice choice value) ["--" ++ choice.name ++ "=" ++ value]
  | switch (switch : Switch) : Spelling (.switch switch) ["--" ++ switch.name]

/-- The arguments spell out the groups in order. There may be a separator at the end. -/
inductive Spells : List Group → List String → Prop where
  | done : Spells [] []
  | separator : Spells [] ["--"]
  | cons {group : Group} {groups : List Group} {front rest : List String} :
      group.Spelling front → Spells groups rest → Spells (group :: groups) (front ++ rest)

namespace Reading

variable {r r₀ r' : Reading}

/-- Notes a group. -/
def take (r : Reading) : Group → Except Ending Reading
  | .choice choice value => r.choose choice value
  | .switch switch => r.turnOn switch

/-- Notes groups in order. -/
def takeAll (r : Reading) (groups : List Group) : Except Ending Reading := groups.foldlM take r

theorem takeAll_nil (r : Reading) : r.takeAll [] = .ok r := rfl

theorem takeAll_cons_eq_ok_iff {group : Group} {groups : List Group} :
    r.takeAll (group :: groups) = .ok r' ↔
      ∃ r₀, r.take group = .ok r₀ ∧ r₀.takeAll groups = .ok r' :=
  bind_eq_ok_iff

/-- What taking one group does. -/
inductive Taken (r : Reading) : Group → Reading → Prop where
  | strategy (strategy : Strategy) :
      r.strategy = none → Taken r (.choice .method strategy.name) { r with strategy := some strategy }
  | threshold {value : String} (level : Log.Threshold) :
      value.toList.map Char.toUpper = level.name.toList → r.threshold = none →
      Taken r (.choice .logLevel value) { r with threshold := some level }
  | printMoves : r.printMoves = false → Taken r (.switch .printMoves) { r with printMoves := true }
  | markdownHelp :
      r.markdownHelp = false → Taken r (.switch .markdownHelp) { r with markdownHelp := true }

theorem take_eq_ok_iff {group : Group} : r.take group = .ok r' ↔ r.Taken group r' := by
  constructor
  · intro h
    match group with
    | .choice .method value =>
      obtain ⟨hnone, strategy, hname, rfl⟩ := choose_method_eq_ok_iff.mp h
      rw [← Strategy.name_of_ofName? hname]
      exact .strategy strategy hnone
    | .choice .logLevel value =>
      obtain ⟨hnone, level, hname, rfl⟩ := choose_logLevel_eq_ok_iff.mp h
      exact .threshold level (Log.Threshold.ofName?_eq_some_iff.mp hname) hnone
    | .switch .printMoves =>
      obtain ⟨hoff, rfl⟩ := turnOn_printMoves_eq_ok_iff.mp h
      exact .printMoves hoff
    | .switch .markdownHelp =>
      obtain ⟨hoff, rfl⟩ := turnOn_markdownHelp_eq_ok_iff.mp h
      exact .markdownHelp hoff
  · intro h
    cases h with
    | strategy strategy hnone =>
      exact choose_method_eq_ok_iff.mpr ⟨hnone, strategy, strategy.ofName?_name, rfl⟩
    | threshold level hname hnone =>
      exact choose_logLevel_eq_ok_iff.mpr
        ⟨hnone, level, Log.Threshold.ofName?_eq_some_iff.mpr hname, rfl⟩
    | printMoves hoff => exact turnOn_printMoves_eq_ok_iff.mpr ⟨hoff, rfl⟩
    | markdownHelp hoff => exact turnOn_markdownHelp_eq_ok_iff.mpr ⟨hoff, rfl⟩

theorem pending_of_take {group : Group} (h : r.take group = .ok r') : r'.pending = r.pending := by
  cases take_eq_ok_iff.mp h <;> rfl

/-- The arguments that have been read and not been acted upon. -/
def heldBack (r : Reading) : List String :=
  match r.pending with
  | none => []
  | some ⟨choice, none⟩ => ["--" ++ choice.name]
  | some ⟨choice, some value⟩ => ["--" ++ choice.name, value]

theorem heldBack_of_pending_none (h : r.pending = none) : r.heldBack = [] := by
  rw [heldBack, h]

theorem heldBack_of_pending_value {choice : Choice} {value : String}
    (h : r.pending = some ⟨choice, some value⟩) : r.heldBack = ["--" ++ choice.name, value] := by
  rw [heldBack, h]

/-- The reading without the pending option. -/
def actedUpon (r : Reading) : Reading := { r with pending := none }

theorem actedUpon_of_pending_none (h : r.pending = none) : r.actedUpon = r := by
  obtain ⟨strategy, threshold, printMoves, markdownHelp, pending⟩ := r
  cases h
  rfl

/-- Settling takes the group that is held back, before those that follow. -/
theorem exists_spells_of_settle {groups : List Group} {arguments : List String}
    (h : r.settle = .ok r₀) (hspells : Spells groups arguments)
    (htake : r₀.takeAll groups = .ok r') :
    ∃ groups', Spells groups' (r.heldBack ++ arguments) ∧
      r.actedUpon.takeAll groups' = .ok r' := by
  unfold settle at h
  split at h
  next hpending =>
    cases h
    rw [actedUpon_of_pending_none hpending, heldBack_of_pending_none hpending]
    exact ⟨groups, hspells, htake⟩
  next => cases h
  next choice value hpending =>
    rw [heldBack_of_pending_value hpending]
    exact ⟨.choice choice value :: groups, .cons (.apart choice value) hspells,
      takeAll_cons_eq_ok_iff.mpr ⟨r₀, h, htake⟩⟩

/-- A list that is read to its end spells out groups, together with what was held back. -/
theorem exists_spells_of_readAll {arguments : List String} {settings : Settings}
    (h : r.readAll arguments = .ok settings) :
    ∃ groups r', Spells groups (r.heldBack ++ arguments) ∧
      r.actedUpon.takeAll groups = .ok r' ∧ r'.settings = settings := by
  -- an argument that settles what was pending starts a group of its own
  have hsettled : ∀ {r r₀ r' : Reading} {groups : List Group} {arguments : List String},
      r.settle = .ok r₀ → Spells groups arguments → r₀.takeAll groups = .ok r' →
      r'.settings = settings →
      ∃ groups r', Spells groups (r.heldBack ++ arguments) ∧
        r.actedUpon.takeAll groups = .ok r' ∧ r'.settings = settings := by
    intro r r₀ r' groups arguments hsettle hspells htake hsettings
    obtain ⟨groups', hspells', htake'⟩ := exists_spells_of_settle hsettle hspells htake
    exact ⟨groups', r', hspells', htake', hsettings⟩
  induction arguments generalizing r with
  | nil =>
    obtain ⟨r₀, hsettle, hsettings⟩ := finish_eq_ok_iff.mp h
    exact hsettled hsettle .done (takeAll_nil r₀) hsettings
  | cons text rest ih =>
    by_cases hsep : Argument.ofString text = .separator
    · rw [Argument.eq_of_ofString_separator hsep] at h ⊢
      obtain ⟨rfl, h⟩ := readAll_separator_eq_ok_iff.mp h
      obtain ⟨r₀, hsettle, hsettings⟩ := finish_eq_ok_iff.mp h
      exact hsettled hsettle .separator (takeAll_nil r₀) hsettings
    · obtain ⟨r₁, hstep, hrest⟩ := (readAll_cons_eq_ok_iff hsep).mp h
      obtain ⟨groups, r', hgroups, htake, hsettings⟩ := ih hrest
      generalize hargument : Argument.ofString text = argument at hstep
      cases hstep with
      | @await choice r₀ hsettle =>
        rw [Argument.eq_of_ofString_name hargument]
        have hacted : r₀.actedUpon = r₀ := actedUpon_of_pending_none (pending_of_settle hsettle)
        rw [← hacted] at hsettle
        exact hsettled hsettle hgroups htake hsettings
      | @turn switch r₀ _ hsettle hturn =>
        rw [Argument.eq_of_ofString_name hargument]
        have hpending : r₁.pending = none :=
          (pending_of_turnOn hturn).trans (pending_of_settle hsettle)
        rw [actedUpon_of_pending_none hpending] at htake
        rw [heldBack_of_pending_none hpending, List.nil_append] at hgroups
        exact hsettled hsettle (.cons (.switch switch) hgroups)
          (takeAll_cons_eq_ok_iff.mpr ⟨r₁, hturn, htake⟩) hsettings
      | @assign choice value r₀ _ hsettle hchoose =>
        rw [Argument.eq_of_ofString_assignment hargument]
        have hpending : r₁.pending = none :=
          (pending_of_choose hchoose).trans (pending_of_settle hsettle)
        rw [actedUpon_of_pending_none hpending] at htake
        rw [heldBack_of_pending_none hpending, List.nil_append] at hgroups
        exact hsettled hsettle (.cons (.joined choice value) hgroups)
          (takeAll_cons_eq_ok_iff.mpr ⟨r₁, hchoose, htake⟩) hsettings
      | supply choice value hpending =>
        rw [Argument.eq_of_ofString_plain hargument, heldBack, hpending]
        exact ⟨groups, r', hgroups, htake, hsettings⟩

/-- A group that can be taken is read, however it is spelled. -/
theorem readAll_of_spelling {group : Group} {front rest : List String} {settings : Settings}
    (hspelling : group.Spelling front) (hpending : r.pending = none) (htake : r.take group = .ok r₀)
    (hrest : r₀.readAll rest = .ok settings) : r.readAll (front ++ rest) = .ok settings := by
  have hsettled : r.settle = .ok r := settle_of_pending_none hpending
  cases hspelling with
  | apart choice value =>
    have hsettle : { r with pending := some ⟨choice, some value⟩ }.settle = .ok r₀ := by
      show r.actedUpon.choose choice value = .ok r₀
      rw [actedUpon_of_pending_none hpending]
      exact htake
    apply readAll_of_step (Argument.ofString_choice choice) (.await choice hsettled)
    apply readAll_of_step (ofString_of_choose htake) (.supply choice value rfl)
    exact readAll_of_settle hsettle hrest
  | joined choice value =>
    exact readAll_of_step (Argument.ofString_assignment choice value)
      (.assign choice value hsettled htake) hrest
  | switch switch =>
    exact readAll_of_step (Argument.ofString_switch switch) (.turn switch hsettled htake) hrest

theorem readAll_of_spells {groups : List Group} {arguments : List String}
    (hspells : Spells groups arguments) (hpending : r.pending = none)
    (htake : r.takeAll groups = .ok r') : r.readAll arguments = .ok r'.settings := by
  induction hspells generalizing r with
  | done =>
    cases htake
    exact finish_eq_ok_iff.mpr ⟨r', settle_of_pending_none hpending, rfl⟩
  | separator =>
    cases htake
    exact readAll_separator_eq_ok_iff.mpr
      ⟨rfl, finish_eq_ok_iff.mpr ⟨r', settle_of_pending_none hpending, rfl⟩⟩
  | cons hspelling _ ih =>
    obtain ⟨r₀, hgroup, hrest⟩ := takeAll_cons_eq_ok_iff.mp htake
    have hpending₀ : r₀.pending = none := (pending_of_take hgroup).trans hpending
    exact readAll_of_spelling hspelling hpending hgroup (ih hpending₀ hrest)

end Reading

/-- **The language of argument lists.** The lists that are read to their end are those that spell
out groups which can be taken one after another, and the settings are what that comes to. -/
theorem readArguments_eq_ok_iff {arguments : List String} {settings : Settings} :
    readArguments arguments = .ok settings ↔
      ∃ groups r, Spells groups arguments ∧ Reading.takeAll {} groups = .ok r ∧
        r.settings = settings := by
  constructor
  · exact Reading.exists_spells_of_readAll
  · rintro ⟨groups, r, hspells, htake, rfl⟩
    exact Reading.readAll_of_spells hspells rfl htake

/-! ## Doing without the listing -/

namespace Reading

variable {r r' : Reading}

/-- The reading with the switch for the listing off. -/
def unlisted (r : Reading) : Reading := { r with printMoves := false }

theorem unlisted_of_printMoves (h : r.printMoves = false) : r.unlisted = r := by
  obtain ⟨strategy, threshold, printMoves, markdownHelp, pending⟩ := r
  cases h
  rfl

/-- Once the switch is on, no group depends on it. -/
theorem take_unlisted {group : Group} (hon : r.printMoves = true) (h : r.take group = .ok r') :
    r'.printMoves = true ∧ r.unlisted.take group = .ok r'.unlisted := by
  rw [take_eq_ok_iff] at h ⊢
  cases h with
  | strategy strategy hnone => exact ⟨hon, .strategy strategy hnone⟩
  | threshold level hname hnone => exact ⟨hon, .threshold level hname hnone⟩
  | printMoves hoff =>
    -- a second one would have been refused
    rw [hon] at hoff
    cases hoff
  | markdownHelp hoff => exact ⟨hon, .markdownHelp hoff⟩

theorem takeAll_unlisted {groups : List Group} (hon : r.printMoves = true)
    (h : r.takeAll groups = .ok r') : r.unlisted.takeAll groups = .ok r'.unlisted := by
  induction groups generalizing r with
  | nil =>
    cases h
    rfl
  | cons group groups ih =>
    obtain ⟨r₀, htake, hrest⟩ := takeAll_cons_eq_ok_iff.mp h
    obtain ⟨hon₀, htake₀⟩ := take_unlisted hon htake
    exact takeAll_cons_eq_ok_iff.mpr ⟨r₀.unlisted, htake₀, ih hon₀ hrest⟩

/-- Only the switch for the listing turns it on. -/
theorem printMoves_of_take {group : Group} (h : r.take group = .ok r')
    (hgroup : group ≠ .switch .printMoves) : r'.printMoves = r.printMoves := by
  cases take_eq_ok_iff.mp h with
  | strategy _ _ => rfl
  | threshold _ _ _ => rfl
  | printMoves _ => exact absurd rfl hgroup
  | markdownHelp _ => rfl

end Reading

/-- No other group that can be taken has the switch for the listing among its arguments. -/
theorem Group.Spelling.printMoves_notMem {group : Group} {front : List String} {r r' : Reading}
    (hspelling : group.Spelling front) (htake : r.take group = .ok r')
    (hgroup : group ≠ .switch .printMoves) : "--print-moves" ∉ front := by
  -- arguments of different forms are different
  have hform : ∀ {text : String} {argument : Argument}, Argument.ofString text = argument →
      argument ≠ .long "print-moves" none → "--print-moves" ≠ text := by
    rintro text argument h hne rfl
    exact hne h.symm
  cases hspelling with
  | apart choice value =>
    have hname := hform (Argument.ofString_choice choice) (by cases choice <;> decide)
    have hvalue := hform (Reading.ofString_of_choose htake) (by simp)
    simp [hname, hvalue]
  | joined choice value =>
    have hname := hform (Argument.ofString_assignment choice value) (by simp)
    simp [hname]
  | switch switch =>
    cases switch with
    | printMoves => exact absurd rfl hgroup
    | markdownHelp => decide

/-- A list that turns the listing on, without the switch that does it, spells out the other
groups. -/
theorem exists_spells_erase {groups : List Group} {arguments : List String} {r r' : Reading}
    (hspells : Spells groups arguments) (htake : r.takeAll groups = .ok r')
    (hoff : r.printMoves = false) (hon : r'.printMoves = true) :
    ∃ groups', Spells groups' (arguments.erase "--print-moves") ∧
      r.takeAll groups' = .ok r'.unlisted := by
  induction hspells generalizing r with
  | done =>
    cases htake
    rw [hoff] at hon
    cases hon
  | separator =>
    cases htake
    rw [hoff] at hon
    cases hon
  | @cons group groups front rest hspelling hspells ih =>
    obtain ⟨r₀, hgroup, hrest⟩ := Reading.takeAll_cons_eq_ok_iff.mp htake
    by_cases hswitch : group = .switch .printMoves
    · subst hswitch
      cases hspelling
      obtain ⟨-, rfl⟩ := Reading.turnOn_printMoves_eq_ok_iff.mp hgroup
      refine ⟨groups, ?_, ?_⟩
      · show Spells groups (("--print-moves" :: rest).erase "--print-moves")
        rw [List.erase_cons_head]
        exact hspells
      · rw [← Reading.unlisted_of_printMoves hoff]
        exact Reading.takeAll_unlisted (r := { r with printMoves := true }) rfl hrest
    · have hoff₀ := (Reading.printMoves_of_take hgroup hswitch).trans hoff
      obtain ⟨groups', hspells', htake'⟩ := ih hrest hoff₀
      refine ⟨group :: groups', ?_, Reading.takeAll_cons_eq_ok_iff.mpr ⟨r₀, hgroup, htake'⟩⟩
      rw [List.erase_append_right _ (hspelling.printMoves_notMem hgroup hswitch)]
      exact .cons hspelling hspells'

/-- Leaving out the switch for the listing changes nothing else. -/
theorem readArguments_erase {arguments : List String} {settings : Settings}
    (h : readArguments arguments = .ok settings) (hlist : settings.listMoves = true) :
    readArguments (arguments.erase "--print-moves") = .ok { settings with listMoves := false } := by
  obtain ⟨groups, r, hspells, htake, rfl⟩ := readArguments_eq_ok_iff.mp h
  obtain ⟨groups', hspells', htake'⟩ := exists_spells_erase hspells htake rfl hlist
  exact readArguments_eq_ok_iff.mpr ⟨groups', r.unlisted, hspells', htake', rfl⟩

end Command

end TowerOfHanoi
