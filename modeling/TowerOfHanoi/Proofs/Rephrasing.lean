import Mathlib.Data.List.Nodup
import Mathlib.Logic.Relation
import TowerOfHanoi.Proofs.Outcome

/-!
# Saying the same in other words

Which groups can stand together in an argument list, and what they mean. No two may be about the
same key, and each value must be one that its option knows (`Coherent`). What they mean is said
without their order: each group holds in the settings, and whatever no group is about has its default
(`Settings.Follows`).

Taking one group (`Reading.Taken`) makes that group true, changes nothing that another key is about,
and from then on its key is no longer free. So a whole list makes all its groups true, and the
settings do not depend on the order in which that happened. Changes to the wording are then changes
to a list of groups that `Coherent` and `Settings.Follows` do not see.

What is not in the language is refused, unless reading comes upon a wish for help or for the version
first.
-/

namespace TowerOfHanoi.Command

/-! ## Groups and what they say -/

/-- What a group is about. -/
def Group.key : Group → Key
  | .choice kind _ => .choice kind
  | .switch kind => .switch kind

/-- The value, if there is one, is known to the option: as the exact name of a strategy, or as the
name of a level in any case. -/
def Group.Proper : Group → Prop
  | .choice .method value => ∃ strategy : Strategy, value = strategy.name
  | .choice .logLevel value =>
    ∃ level : Log.Threshold, value.toList.map Char.toUpper = level.name.toList
  | .switch _ => True

/-- The settings are as the group says. -/
def Group.HoldsIn (settings : Settings) : Group → Prop
  | .choice .method value => value = settings.strategy.name
  | .choice .logLevel value => value.toList.map Char.toUpper = settings.threshold.name.toList
  | .switch .printMoves => settings.listMoves = true
  | .switch .markdownHelp => settings.manual = true

/-- Groups that can stand in one list: each is proper, and no key is given twice. -/
structure Coherent (groups : List Group) : Prop where
  proper : ∀ group ∈ groups, group.Proper
  once : (groups.map Group.key).Nodup

/-- One of the settings, with its value. -/
inductive Entry where
  | strategy (strategy : Strategy)
  | threshold (threshold : Log.Threshold)
  | onOff (on : Bool)

namespace Settings

/-- The setting that a key is about. Help and version are about none. -/
def entry (settings : Settings) : Key → Entry
  | .choice .method => .strategy settings.strategy
  | .choice .logLevel => .threshold settings.threshold
  | .switch .printMoves => .onOff settings.listMoves
  | .switch .markdownHelp => .onOff settings.manual
  | .help => .onOff false
  | .version => .onOff false

/-- The settings are as the groups say, and by default where they say nothing. -/
structure Follows (settings : Settings) (groups : List Group) : Prop where
  heeds : ∀ group ∈ groups, group.HoldsIn settings
  defaults : ∀ key, key ∉ groups.map Group.key → settings.entry key = ({} : Settings).entry key

theorem eq_of_entry {s s' : Settings} (h : ∀ key, s.entry key = s'.entry key) : s = s' := by
  obtain ⟨strategy, threshold, listMoves, manual⟩ := s
  obtain ⟨strategy', threshold', listMoves', manual'⟩ := s'
  have hstrategy : strategy = strategy' := Entry.strategy.inj (h (.choice .method))
  have hthreshold : threshold = threshold' := Entry.threshold.inj (h (.choice .logLevel))
  have hlist : listMoves = listMoves' := Entry.onOff.inj (h (.switch .printMoves))
  have hmanual : manual = manual' := Entry.onOff.inj (h (.switch .markdownHelp))
  rw [hstrategy, hthreshold, hlist, hmanual]

end Settings

namespace Group

variable {s s' : Settings} {group : Group}

/-- A group says all there is to say about its key. -/
theorem entry_eq_of_holdsIn (h : group.HoldsIn s) (h' : group.HoldsIn s') :
    s.entry group.key = s'.entry group.key := by
  match group with
  | .choice .method value =>
    have hname : s.strategy.name = s'.strategy.name := h.symm.trans h'
    exact congrArg Entry.strategy (Strategy.eq_of_name_eq hname)
  | .choice .logLevel value =>
    have hname : s.threshold.name.toList = s'.threshold.name.toList := h.symm.trans h'
    exact congrArg Entry.threshold (Log.Threshold.eq_of_name_eq (String.toList_inj.mp hname))
  | .switch .printMoves => exact congrArg Entry.onOff (h.trans h'.symm)
  | .switch .markdownHelp => exact congrArg Entry.onOff (h.trans h'.symm)

theorem HoldsIn.of_entry_eq (h : group.HoldsIn s) (hsame : s'.entry group.key = s.entry group.key) :
    group.HoldsIn s' := by
  match group with
  | .choice .method value =>
    have hstrategy : s'.strategy = s.strategy := Entry.strategy.inj hsame
    exact Eq.trans h (congrArg Strategy.name hstrategy.symm)
  | .choice .logLevel value =>
    have hthreshold : s'.threshold = s.threshold := Entry.threshold.inj hsame
    exact Eq.trans h (congrArg (fun t : Log.Threshold => t.name.toList) hthreshold.symm)
  | .switch .printMoves => exact (Entry.onOff.inj hsame).trans h
  | .switch .markdownHelp => exact (Entry.onOff.inj hsame).trans h

end Group

/-- Groups leave no choice of settings. -/
theorem Settings.Follows.unique {s s' : Settings} {groups : List Group} (h : s.Follows groups)
    (h' : s'.Follows groups) : s = s' := by
  apply Settings.eq_of_entry
  intro key
  by_cases hkey : key ∈ groups.map Group.key
  · obtain ⟨group, hgroup, rfl⟩ := List.mem_map.mp hkey
    exact Group.entry_eq_of_holdsIn (h.heeds group hgroup) (h'.heeds group hgroup)
  · exact (h.defaults key hkey).trans (h'.defaults key hkey).symm

/-! ## Taking groups -/

namespace Reading

variable {r r' : Reading} {group : Group}

/-- The key has not been given yet. -/
def Free (r : Reading) : Key → Prop
  | .choice .method => r.strategy = none
  | .choice .logLevel => r.threshold = none
  | .switch .printMoves => r.printMoves = false
  | .switch .markdownHelp => r.markdownHelp = false
  | .help => True
  | .version => True

/-- A proper group whose key is free can be taken. -/
theorem exists_taken (hproper : group.Proper) (hfree : r.Free group.key) :
    ∃ r', r.Taken group r' := by
  match group with
  | .choice .method value =>
    obtain ⟨strategy, rfl⟩ := hproper
    exact ⟨_, .strategy strategy hfree⟩
  | .choice .logLevel value =>
    obtain ⟨level, hlevel⟩ := hproper
    exact ⟨_, .threshold level hlevel hfree⟩
  | .switch .printMoves => exact ⟨_, .printMoves hfree⟩
  | .switch .markdownHelp => exact ⟨_, .markdownHelp hfree⟩

namespace Taken

theorem proper (h : r.Taken group r') : group.Proper := by
  cases h with
  | strategy strategy _ => exact ⟨strategy, rfl⟩
  | threshold level hname _ => exact ⟨level, hname⟩
  | printMoves _ => trivial
  | markdownHelp _ => trivial

theorem holdsIn (h : r.Taken group r') : group.HoldsIn r'.settings := by
  cases h with
  | strategy _ _ => rfl
  | threshold _ hname _ => exact hname
  | printMoves _ => rfl
  | markdownHelp _ => rfl

theorem free (h : r.Taken group r') : r.Free group.key := by
  cases h with
  | strategy _ hnone => exact hnone
  | threshold _ _ hnone => exact hnone
  | printMoves hoff => exact hoff
  | markdownHelp hoff => exact hoff

theorem not_free (h : r.Taken group r') : ¬r'.Free group.key := by
  cases h <;> simp [Group.key, Free]

/-- Nothing changes in what the other keys are about. -/
theorem frame (h : r.Taken group r') {key : Key} (hkey : key ≠ group.key) :
    (r'.Free key ↔ r.Free key) ∧ r'.settings.entry key = r.settings.entry key := by
  cases h <;> rcases key with (_ | _) | (_ | _) | _ | _ <;>
    simp_all [Group.key, Free, settings, Settings.entry]

end Taken

/-- Groups that have been taken in a row are coherent and were free. They hold in the end, since none
of them touches what another is about. -/
theorem of_takeAll {groups : List Group} (h : r.takeAll groups = .ok r') :
    Coherent groups ∧ (∀ group ∈ groups, r.Free group.key ∧ group.HoldsIn r'.settings) ∧
      ∀ key, key ∉ groups.map Group.key → r'.settings.entry key = r.settings.entry key := by
  induction groups generalizing r with
  | nil =>
    cases h
    exact ⟨⟨by simp, by simp⟩, by simp, fun _ _ => rfl⟩
  | cons group groups ih =>
    obtain ⟨r₀, htake, hrest⟩ := takeAll_cons_eq_ok_iff.mp h
    have htaken : r.Taken group r₀ := take_eq_ok_iff.mp htake
    obtain ⟨hcoherent, hgroups, hframe⟩ := ih hrest
    -- the key of the first group is taken now, so no other group is about it
    have hne : ∀ other ∈ groups, other.key ≠ group.key := by
      intro other hother heq
      exact htaken.not_free (heq ▸ (hgroups other hother).1)
    have hfirst : group.key ∉ groups.map Group.key := by
      intro hmem
      obtain ⟨other, hother, heq⟩ := List.mem_map.mp hmem
      exact hne other hother heq
    refine ⟨⟨?_, ?_⟩, ?_, ?_⟩
    · exact List.forall_mem_cons.mpr ⟨htaken.proper, hcoherent.proper⟩
    · exact List.nodup_cons.mpr ⟨hfirst, hcoherent.once⟩
    · refine List.forall_mem_cons.mpr ⟨⟨htaken.free, ?_⟩, ?_⟩
      · exact htaken.holdsIn.of_entry_eq (hframe group.key hfirst)
      · intro other hother
        obtain ⟨hfree, hholds⟩ := hgroups other hother
        exact ⟨(htaken.frame (hne other hother)).1.mp hfree, hholds⟩
    · intro key hkey
      rw [List.map_cons, List.mem_cons, not_or] at hkey
      exact (hframe key hkey.2).trans (htaken.frame hkey.1).2

theorem exists_takeAll {groups : List Group} (h : Coherent groups)
    (hfree : ∀ group ∈ groups, r.Free group.key) : ∃ r', r.takeAll groups = .ok r' := by
  induction groups generalizing r with
  | nil => exact ⟨r, takeAll_nil r⟩
  | cons group groups ih =>
    obtain ⟨hproper, hproper'⟩ := List.forall_mem_cons.mp h.proper
    obtain ⟨hfirst, honce⟩ := List.nodup_cons.mp h.once
    obtain ⟨hfree₁, hfree'⟩ := List.forall_mem_cons.mp hfree
    obtain ⟨r₀, htaken⟩ := exists_taken hproper hfree₁
    have hfree₀ : ∀ other ∈ groups, r₀.Free other.key := by
      intro other hother
      have hne : other.key ≠ group.key := fun heq => hfirst (heq ▸ List.mem_map_of_mem hother)
      exact (htaken.frame hne).1.mpr (hfree' other hother)
    obtain ⟨r', hrest⟩ := ih ⟨hproper', honce⟩ hfree₀
    exact ⟨r', takeAll_cons_eq_ok_iff.mpr ⟨r₀, take_eq_ok_iff.mpr htaken, hrest⟩⟩

theorem free_start (key : Key) : ({} : Reading).Free key := by
  rcases key with (_ | _) | (_ | _) | _ | _ <;> trivial

end Reading

/-! ## The language and its meaning -/

theorem follows_of_takeAll {groups : List Group} {r : Reading}
    (h : Reading.takeAll {} groups = .ok r) : r.settings.Follows groups := by
  obtain ⟨-, hgroups, hframe⟩ := Reading.of_takeAll h
  exact ⟨fun group hgroup => (hgroups group hgroup).2, hframe⟩

/-- Coherent groups can be followed, and reading them finds out how. -/
theorem Coherent.exists_takeAll {groups : List Group} (h : Coherent groups) :
    ∃ r, Reading.takeAll {} groups = .ok r :=
  Reading.exists_takeAll h fun group _ => Reading.free_start group.key

/-- The lists that are read to their end spell out coherent groups, and are read as settings that
follow them. -/
theorem readArguments_eq_ok_iff_follows {arguments : List String} {settings : Settings} :
    readArguments arguments = .ok settings ↔
      ∃ groups, Spells groups arguments ∧ Coherent groups ∧ settings.Follows groups := by
  rw [readArguments_eq_ok_iff]
  constructor
  · rintro ⟨groups, r, hspells, htake, rfl⟩
    exact ⟨groups, hspells, (Reading.of_takeAll htake).1, follows_of_takeAll htake⟩
  · rintro ⟨groups, hspells, hcoherent, hsettings⟩
    obtain ⟨r, htake⟩ := hcoherent.exists_takeAll
    exact ⟨groups, r, hspells, htake, (follows_of_takeAll htake).unique hsettings⟩

/-! ## Other words -/

/-- One change of wording: the groups in another order, the name of a level in other cases, or one
group less that only states a default. -/
inductive Rephrasing : List Group → List Group → Prop where
  | reorder {groups groups' : List Group} : groups.Perm groups' → Rephrasing groups groups'
  | recase {before after : List Group} {value value' : String} :
      value.toList.map Char.toUpper = value'.toList.map Char.toUpper →
      Rephrasing (before ++ .choice .logLevel value :: after)
        (before ++ .choice .logLevel value' :: after)
  | dropMethod {before after : List Group} :
      Rephrasing (before ++ .choice .method "closed-form" :: after) (before ++ after)
  | dropLevel {before after : List Group} {value : String} :
      value.toList.map Char.toUpper = "INFO".toList →
      Rephrasing (before ++ .choice .logLevel value :: after) (before ++ after)

section

variable {before after groups groups' : List Group} {group group' : Group} {s : Settings}

theorem Coherent.perm (h : Coherent groups) (hperm : groups.Perm groups') : Coherent groups' where
  proper group hgroup := h.proper group (hperm.mem_iff.mpr hgroup)
  once := (hperm.map Group.key).nodup_iff.mp h.once

theorem Coherent.replace (h : Coherent (before ++ group :: after)) (hkey : group'.key = group.key)
    (hproper : group'.Proper) : Coherent (before ++ group' :: after) where
  proper := by
    have hall := h.proper
    rw [List.forall_mem_append, List.forall_mem_cons] at hall ⊢
    exact ⟨hall.1, hproper, hall.2.2⟩
  once := by
    have honce := h.once
    rw [List.map_append, List.map_cons] at honce ⊢
    rw [hkey]
    exact honce

theorem Coherent.drop (h : Coherent (before ++ group :: after)) : Coherent (before ++ after) := by
  have hsub : (before ++ after).Sublist (before ++ group :: after) :=
    (List.Sublist.refl before).append (List.sublist_cons_self group after)
  exact ⟨fun other hother => h.proper other (hsub.subset hother), h.once.sublist (hsub.map Group.key)⟩

namespace Settings.Follows

theorem perm (h : s.Follows groups) (hperm : groups.Perm groups') : s.Follows groups' where
  heeds group hgroup := h.heeds group (hperm.mem_iff.mpr hgroup)
  defaults key hkey := h.defaults key fun hmem => hkey ((hperm.map Group.key).mem_iff.mp hmem)

theorem replace (h : s.Follows (before ++ group :: after)) (hkey : group'.key = group.key)
    (hholds : group'.HoldsIn s) : s.Follows (before ++ group' :: after) where
  heeds := by
    have hall := h.heeds
    rw [List.forall_mem_append, List.forall_mem_cons] at hall ⊢
    exact ⟨hall.1, hholds, hall.2.2⟩
  defaults := by
    have hdefaults := h.defaults
    rw [List.map_append, List.map_cons] at hdefaults ⊢
    rw [hkey]
    exact hdefaults

/-- A group that holds by default is not missed. -/
theorem drop (h : s.Follows (before ++ group :: after)) (hdefault : group.HoldsIn {}) :
    s.Follows (before ++ after) where
  heeds other hother := h.heeds other (by
    rw [List.mem_append, List.mem_cons]
    exact (List.mem_append.mp hother).imp_right Or.inr)
  defaults key hkey := by
    by_cases hgroup : key = group.key
    · rw [hgroup]
      exact Group.entry_eq_of_holdsIn (h.heeds group (by simp)) hdefault
    · apply h.defaults
      rw [List.map_append, List.map_cons, List.mem_append, List.mem_cons]
      rw [List.map_append, List.mem_append] at hkey
      tauto

end Settings.Follows

/-- A change of wording leaves coherent groups coherent and their meaning as it was. -/
theorem Rephrasing.preserves (h : Rephrasing groups groups') (hcoherent : Coherent groups)
    (hfollows : s.Follows groups) : Coherent groups' ∧ s.Follows groups' := by
  cases h with
  | reorder hperm => exact ⟨hcoherent.perm hperm, hfollows.perm hperm⟩
  | @recase before after value value' hcase =>
    have hholds : value.toList.map Char.toUpper = s.threshold.name.toList :=
      hfollows.heeds (.choice .logLevel value) (by simp)
    have hvalue : value'.toList.map Char.toUpper = s.threshold.name.toList := hcase.symm.trans hholds
    exact ⟨hcoherent.replace rfl ⟨s.threshold, hvalue⟩, hfollows.replace rfl hvalue⟩
  | dropMethod => exact ⟨hcoherent.drop, hfollows.drop rfl⟩
  | dropLevel hlevel => exact ⟨hcoherent.drop, hfollows.drop hlevel⟩

theorem preserves_of_rephrasings (h : Relation.ReflTransGen Rephrasing groups groups')
    (hcoherent : Coherent groups) (hfollows : s.Follows groups) :
    Coherent groups' ∧ s.Follows groups' := by
  induction h with
  | refl => exact ⟨hcoherent, hfollows⟩
  | tail _ hstep ih => exact hstep.preserves ih.1 ih.2

end

/-! ## Refusals -/

namespace Reading

variable {r : Reading}

/-- A value passes for a method exactly if it is one of the names, and all names can be read. -/
theorem choose_method_cases (hnone : r.strategy = none) (value : String) :
    (value ∈ Strategy.all.map Strategy.name →
      ∃ strategy, Strategy.ofName? value = some strategy ∧
        r.choose .method value = .ok { r with strategy := some strategy }) ∧
    (value ∉ Strategy.all.map Strategy.name →
      ∃ e, r.choose .method value = .error (.refused e)) := by
  constructor
  · intro hmem
    obtain ⟨strategy, -, rfl⟩ := List.mem_map.mp hmem
    exact ⟨strategy, strategy.ofName?_name,
      choose_method_eq_ok_iff.mpr ⟨hnone, strategy, strategy.ofName?_name, rfl⟩⟩
  · intro hnotMem
    cases hchoose : r.choose .method value with
    | error ending =>
      obtain ⟨e, rfl⟩ := isRefusal_of_choose hchoose
      exact ⟨e, rfl⟩
    | ok r' =>
      obtain ⟨-, strategy, hname, -⟩ := choose_method_eq_ok_iff.mp hchoose
      exact absurd (Strategy.mem_names_iff.mpr ⟨strategy, hname⟩) hnotMem

end Reading

/-- A list outside the language that asks for nothing about the program is refused. -/
theorem refused_of_not_spells {arguments : List String}
    (h : ¬∃ groups, Spells groups arguments ∧ Coherent groups)
    (hrequests : ∀ text ∈ arguments, ¬Requests text) : Refused arguments := by
  cases hread : readArguments arguments with
  | ok settings =>
    obtain ⟨groups, hspells, hcoherent, -⟩ := readArguments_eq_ok_iff_follows.mp hread
    exact absurd ⟨groups, hspells, hcoherent⟩ h
  | error ending =>
    rcases Reading.readAll_eq_error hread with ⟨e, rfl⟩ | ⟨⟨text, hmem, htext⟩, -⟩
    · exact ⟨e, hread⟩
    · exact absurd htext (hrequests text hmem)

/-- A run knows its arguments only as they are read. -/
theorem run_eq_of_readArguments_eq {arguments arguments' : List String}
    (h : readArguments arguments' = readArguments arguments) (invocation : Invocation) :
    run { invocation with arguments := arguments' } = run { invocation with arguments } := by
  simp only [run, h]

/-- **The language of argument lists, and what it says.** The lists that are accepted are those that
spell out coherent groups, perhaps with a separator at the end, and the settings follow the groups.
Any other list that does not ask for help or for the version is refused with code 2. Reordering the
groups, changing the case of a level, dropping a default, and spelling the result in any of the ways
there are, leaves the settings as they were, and so all that a run does with any input and
environment. And a method that passes for one of the names can always be read, so no argument list
makes reading break down. -/
theorem arguments_say_settings (arguments : List String) :
    (∀ settings, readArguments arguments = .ok settings ↔
      ∃ groups, Spells groups arguments ∧ Coherent groups ∧ settings.Follows groups) ∧
    (∀ invocation : Invocation, invocation.arguments = arguments →
      (∀ text ∈ arguments, ¬Requests text) →
      ((run invocation).code = 2 ↔ ¬∃ groups, Spells groups arguments ∧ Coherent groups)) ∧
    (∀ groups, Spells groups arguments → Coherent groups →
      ∃ settings : Settings, settings.Follows groups ∧ readArguments arguments = .ok settings ∧
        ∀ groups' arguments', Relation.ReflTransGen Rephrasing groups groups' →
          Spells groups' arguments' →
          readArguments arguments' = .ok settings ∧
          ∀ invocation : Invocation,
            run { invocation with arguments := arguments' } = run { invocation with arguments }) ∧
    (∀ (r : Reading) (value : String), r.strategy = none →
      (value ∈ Strategy.all.map Strategy.name →
        ∃ strategy, Strategy.ofName? value = some strategy ∧
          r.choose .method value = .ok { r with strategy := some strategy }) ∧
      (value ∉ Strategy.all.map Strategy.name →
        ∃ e, r.choose .method value = .error (.refused e))) ∧
    (∀ b, readArguments arguments ≠ .error (.brokeDown b)) := by
  refine ⟨fun settings => readArguments_eq_ok_iff_follows, ?_, ?_, ?_,
    readArguments_ne_brokeDown arguments⟩
  · rintro invocation rfl hrequests
    rw [code_eq_two_iff]
    constructor
    · rintro ⟨e, hrefused⟩ ⟨groups, hspells, hcoherent⟩
      obtain ⟨r, htake⟩ := hcoherent.exists_takeAll
      have hread := readArguments_eq_ok_iff.mpr ⟨groups, r, hspells, htake, rfl⟩
      rw [hrefused] at hread
      cases hread
    · exact fun h => refused_of_not_spells h hrequests
  · intro groups hspells hcoherent
    obtain ⟨r, htake⟩ := hcoherent.exists_takeAll
    have hfollows := follows_of_takeAll htake
    have hread := readArguments_eq_ok_iff_follows.mpr ⟨groups, hspells, hcoherent, hfollows⟩
    refine ⟨r.settings, hfollows, hread, ?_⟩
    intro groups' arguments' hrephrased hspells'
    have hgroups' := preserves_of_rephrasings hrephrased hcoherent hfollows
    have hread' := readArguments_eq_ok_iff_follows.mpr ⟨groups', hspells', hgroups'⟩
    exact ⟨hread', run_eq_of_readArguments_eq (hread'.trans hread.symm)⟩
  · intro r value hnone
    exact Reading.choose_method_cases hnone value

/-- A level that is the default anyway, a method and a switch. -/
def wordyGroups : List Group :=
  [.choice .logLevel "iNFo", .choice .method "doubling", .switch .printMoves]

/-- A run on three disks with a filter from the environment. -/
def countThree (arguments : List String) : Invocation where
  arguments
  input := "3".toUTF8
  logSpec := some "hanoi=debug"

/-- The same without the level, in another order and with a separator; and a method in the wrong
case. -/
theorem arguments_say_settings_wordy :
    run (countThree ["--print-moves", "--method=doubling", "--"]) =
      run (countThree ["--log-level", "iNFo", "--method", "doubling", "--print-moves"]) ∧
    (run (countThree ["--method", "Doubling"])).code = 2 := by
  constructor
  · obtain ⟨-, -, hsame, -⟩ := arguments_say_settings
      ["--log-level", "iNFo", "--method", "doubling", "--print-moves"]
    have hspells : Spells wordyGroups
        ["--log-level", "iNFo", "--method", "doubling", "--print-moves"] :=
      .cons (.apart .logLevel "iNFo") (.cons (.apart .method "doubling")
        (.cons (.switch .printMoves) .done))
    have hspells' : Spells [.switch .printMoves, .choice .method "doubling"]
        ["--print-moves", "--method=doubling", "--"] :=
      .cons (.switch .printMoves) (.cons (.joined .method "doubling") .separator)
    have hproper : ∀ group ∈ wordyGroups, group.Proper := by
      simp only [wordyGroups, List.forall_mem_cons]
      exact ⟨⟨.upTo .info, by decide⟩, ⟨.doubling, rfl⟩, trivial, by simp⟩
    have hdropped : Rephrasing wordyGroups [.choice .method "doubling", .switch .printMoves] :=
      @Rephrasing.dropLevel [] _ _ (by decide)
    have hreordered : Rephrasing [.choice .method "doubling", .switch .printMoves]
        [.switch .printMoves, .choice .method "doubling"] := .reorder (.swap _ _ [])
    obtain ⟨settings, -, -, hrun⟩ := hsame wordyGroups hspells ⟨hproper, by decide⟩
    exact (hrun _ _ (.tail (.single hdropped) hreordered) hspells').2 (countThree [])
  · obtain ⟨hread, hcode, -⟩ := arguments_say_settings ["--method", "Doubling"]
    refine (hcode (countThree ["--method", "Doubling"]) rfl ?_).mpr ?_
    · simp [Requests]
    · rintro ⟨groups, hspells, hcoherent⟩
      obtain ⟨r, htake⟩ := hcoherent.exists_takeAll
      cases (hread r.settings).mpr ⟨groups, hspells, hcoherent, follows_of_takeAll htake⟩

end TowerOfHanoi.Command
