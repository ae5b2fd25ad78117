import Mathlib.Data.List.Basic
import TowerOfHanoi.Proofs.FailingOutput
import TowerOfHanoi.Proofs.LogIndependence
import TowerOfHanoi.Proofs.LogRule

/-!
# Who decides about the log

Two parties have a say in which events are written down: the threshold on the command line and the
filter that is written in the environment. The rule is that of `TowerOfHanoi.Proofs.LogRule`. Hence the
threshold plays no part once a level stands alone in the environment. Where it does play one, letting
more through adds lines and takes none away. And without a written filter, or with one that is ignored
for its slashes, it is the only one to decide.

What the lines are is said beside the definitions that make them: `Event.Worded` is the table of what
each event looks like, `Shows` the line that is made of that in a style, and `Invocation.Tells` lists
the events of every run, in order.
-/

namespace TowerOfHanoi

open Output Command

namespace Log

/-! ## What the threshold can change -/

/-- The text has at most one slash, and one of the pieces that commas make of what comes before it is
the name of a level, apart from blanks. -/
def Spec.SetsLevel (text : String) : Prop :=
  text.toList.count '/' ≤ 1 ∧
    ∃ piece ∈ Text.pieces ',' (text.toList.takeWhile fun c => c ≠ '/'), ∃ level : Threshold,
      (Text.trim piece).map Char.toUpper = level.name.toList

namespace Spec.Reads

variable {patterns : PatternLanguage} {ds : List Directive} {pattern : Option (String → Bool)}

/-- A level that stands alone is a directive without a scope. -/
theorem exists_unscoped {text : String} (h : Reads patterns (some text) ds pattern)
    (hlevel : SetsLevel text) : ∃ d ∈ ds, d.scope = none := by
  obtain ⟨hcount, piece, hpiece, level, hname⟩ := hlevel
  refine ⟨⟨none, level⟩, ?_, rfl⟩
  have hmeans : Means (Text.trim piece) ⟨none, level⟩ := .level hname
  cases h with
  | ignored h => omega
  | noPattern htext hlist =>
    rw [Text.takeWhile_of_notMem htext] at hpiece
    exact hlist.mem hpiece hmeans
  | pattern htext hslash _ hlist | badPattern htext hslash _ hlist =>
    rw [htext, Text.takeWhile_append hslash] at hpiece
    exact hlist.mem hpiece hmeans

/-- Without a text, or with too many slashes in it, nothing is said. -/
theorem eq_nil_of_ignored {spec : Option String} (h : Reads patterns spec ds pattern)
    (hignored : ∀ text, spec = some text → 2 ≤ text.toList.count '/') : ds = [] ∧ pattern = none := by
  cases h with
  | absent | ignored => exact ⟨rfl, rfl⟩
  | @noPattern text ds htext =>
    have hcount := hignored text rfl
    rw [List.count_eq_zero.mpr htext] at hcount
    omega
  | @pattern text list rest _ _ htext hslash hrest | @badPattern text _ list rest _ htext hslash hrest =>
    have hcount := hignored text rfl
    rw [htext, List.count_append, List.count_cons_self, List.count_eq_zero.mpr hslash,
      List.count_eq_zero.mpr hrest] at hcount
    omega

end Spec.Reads

namespace Filter

variable {patterns : PatternLanguage} {t u : Threshold}

/-- Letting more through by the directive without a scope takes no event away. -/
theorem admits_base_mono (h : t.verbosity ≤ u.verbosity) (rest : List Directive)
    (pattern : Option (String → Bool)) {e : Event}
    (he : (Filter.mk (⟨none, t⟩ :: rest) pattern).admits e = true) :
    (Filter.mk (⟨none, u⟩ :: rest) pattern).admits e = true := by
  unfold admits at he ⊢
  obtain ⟨hthreshold, hpattern⟩ := Bool.and_eq_true_iff.mp he
  refine Bool.and_eq_true_iff.mpr ⟨?_, hpattern⟩
  rw [decisive?_base] at hthreshold ⊢
  cases hdecisive : (Filter.mk rest pattern).decisive? e.origin.target with
  | some d =>
    rw [hdecisive] at hthreshold
    exact hthreshold
  | none =>
    rw [hdecisive] at hthreshold
    exact Threshold.admits_of_verbosity_le h hthreshold

/-- A level in the environment overrides the one on the command line. -/
theorem configure_eq_of_setsLevel {text : String} (h : Spec.SetsLevel text) (t u : Threshold) :
    configure patterns t (some text) = configure patterns u (some text) := by
  apply Prod.ext
  · obtain ⟨ds, pattern, hreads, hfilter⟩ := exists_reads patterns (some text)
    rw [hfilter, hfilter, foldl_add_threshold, foldl_add_threshold,
      unscoped_eq_of_mem (hreads.exists_unscoped h) t u]
  · exact snd_configure patterns t u (some text)

/-- A higher threshold lets the same events through, and perhaps more. -/
theorem admits_configure_mono (h : t.verbosity ≤ u.verbosity) (spec : Option String) {e : Event}
    (he : (configure patterns t spec).1.admits e = true) :
    (configure patterns u spec).1.admits e = true := by
  obtain ⟨ds, pattern, -, hfilter⟩ := exists_reads patterns spec
  rw [hfilter, foldl_add_threshold] at he ⊢
  exact admits_base_mono (verbosity_unscoped_le h ds) _ _ he

theorem admits_configure_of_ignored {spec : Option String}
    (h : ∀ text, spec = some text → 2 ≤ text.toList.count '/') (t : Threshold) (e : Event) :
    (configure patterns t spec).1.admits e = t.admits e.severity := by
  obtain ⟨ds, pattern, hreads, hfilter⟩ := exists_reads patterns spec
  obtain ⟨rfl, rfl⟩ := hreads.eq_nil_of_ignored h
  rw [hfilter, List.foldl_nil, admits, decisive?_base]
  simp [decisive?]

end Filter

/-! ## What the lines are -/

/-- What each event looks like to a reader of the log: its severity, the name of the part of the
program it comes from, and its wording. -/
inductive Event.Worded : Event → Severity → String → String → Prop
  | diskCountRead (disks : Nat) :
    Worded (.diskCountRead disks) .debug "hanoi" ("Read disk count " ++ toString disks)
  | strategyIgnored (strategy : Strategy) :
    Worded (.strategyIgnored strategy) .warn "hanoi"
      ("Listing moves solves the puzzle recursively, ignoring `--method " ++ strategy.name ++ "`")
  | counting (disks : Nat) (strategy : Strategy) :
    Worded (.counting disks strategy) .debug "hanoi::counter"
      ("Counting moves for " ++ toString disks ++ " disks (" ++ strategy.name ++ ")")
  | solving (disks : Nat) :
    Worded (.solving disks) .trace "hanoi::counter"
      ("Solving " ++ toString disks ++ " disks recursively")
  | solved (disks : Nat) (moves : UInt64) :
    Worded (.solved disks moves) .trace "hanoi::counter"
      ("Solved " ++ toString disks ++ " disks in " ++ toString moves.toNat ++ " moves")

theorem Event.worded (e : Event) : e.Worded e.severity e.origin.target e.message := by
  cases e with
  | diskCountRead disks => exact .diskCountRead disks
  | strategyIgnored strategy => exact .strategyIgnored strategy
  | counting disks strategy => exact .counting disks strategy
  | solving disks => exact .solving disks
  | solved disks moves => exact .solved disks moves

/-- The line of an event: its wording, which in the coloured style stands between two control
sequences, and after a third that turns warnings yellow. -/
inductive Shows : Style → Event → String → Prop
  | plain {e : Event} {severity : Severity} {target text : String}
    (h : e.Worded severity target text) : Shows .plain e (text ++ "\n")
  | yellow {e : Event} {target text : String} (h : e.Worded .warn target text) :
    Shows .coloured e ("\x1b[0m" ++ "\x1b[33m" ++ text ++ "\x1b[0m" ++ "\n")
  | uncoloured {e : Event} {severity : Severity} {target text : String}
    (h : e.Worded severity target text) (hseverity : severity ≠ .warn) :
    Shows .coloured e ("\x1b[0m" ++ text ++ "\x1b[0m" ++ "\n")

theorem shows_line (style : Style) (e : Event) : Shows style e (style.line e) := by
  cases style with
  | plain => exact .plain e.worded
  | coloured =>
    cases e with
    | strategyIgnored strategy => exact .yellow (.strategyIgnored strategy)
    | diskCountRead | counting | solving | solved =>
      simp only [Style.line, Event.severity, Style.paint, String.append_empty]
      exact .uncoloured (Event.worded _) (by simp [Event.severity])

theorem forall₂_shows_map (style : Style) (events : List Event) :
    List.Forall₂ (Shows style) events (events.map style.line) := by
  induction events with
  | nil => exact .nil
  | cons e events ih => exact .cons (shows_line style e) ih

end Log

namespace Command

/-! ## What a run tells -/

section

variable {settings : Settings} {disks : Nat}

/-- What a run tells once it has read the disk count, in order. A walk is told of when it begins, and
again when it is completed. -/
def story (settings : Settings) (disks : Nat) (completed : Bool) : List Log.Event :=
  .diskCountRead disks ::
    ((if settings.listMoves then listingWarnings settings.strategy
      else [.counting disks settings.strategy]) ++
    if disks ≤ 64 ∧ (settings.listMoves = true ∨ settings.strategy = .recursive) then
      .solving disks :: if completed then [.solved disks (UInt64.ofNat (2 ^ disks - 1))] else []
    else [])

theorem story_of_walks (h : disks ≤ 64) (hwalks : settings.Walks) (completed : Bool) :
    story settings disks completed = .diskCountRead disks ::
      ((if settings.listMoves then listingWarnings settings.strategy
        else [.counting disks settings.strategy]) ++ .solving disks ::
        if completed then [.solved disks (UInt64.ofNat (moveCount disks))] else []) := by
  have hboth : disks ≤ 64 ∧ (settings.listMoves = true ∨ settings.strategy = .recursive) :=
    ⟨h, hwalks⟩
  rw [story, if_pos hboth, moveCount_eq]

theorem story_of_not_walks (h : ¬(disks ≤ 64 ∧ settings.Walks)) (completed : Bool) :
    story settings disks completed = .diskCountRead disks ::
      if settings.listMoves then listingWarnings settings.strategy
      else [.counting disks settings.strategy] := by
  have hnot : ¬(disks ≤ 64 ∧ (settings.listMoves = true ∨ settings.strategy = .recursive)) := h
  rw [story, if_neg hnot, List.append_nil]

/-- What has been told when the number of moves is known, or a failure has come before it. -/
theorem run_reckon_story (settings : Settings) (disks : Nat) (s : Stream) :
    ∃ result t events completed,
      (reckon Stream.sink settings disks).run s = ⟨result, t, events⟩ ∧
      .diskCountRead disks :: events = story settings disks completed ∧
      (completed = false ↔ ∃ fault, result = .error (.moveNotWritten fault)) := by
  unfold reckon
  by_cases hlist : settings.listMoves = true
  · have hwalks : settings.Walks := Or.inl hlist
    rw [if_pos hlist]
    rcases Nat.lt_or_ge 64 disks with hgt | hle
    · refine ⟨_, _, _, true, run_listMoves_of_gt Stream.sink settings.strategy hgt s, ?_, by simp⟩
      rw [story_of_not_walks (by omega), if_pos hlist]
    · rw [Stream.sink_eq]
      rcases takes_or_fails Stream.write s (moveLines (moves disks .a .b .c)) with
        ⟨t, htakes⟩ | ⟨before, text, after, fault, t, hlines, hfails⟩
      · refine ⟨_, _, _, true, run_listMoves_of_takes settings.strategy hle htakes, ?_, by simp⟩
        rw [story_of_walks hle hwalks, if_pos hlist]
        rfl
      · refine ⟨_, _, _, false, run_listMoves_of_failsAfter settings.strategy hle hlines hfails, ?_,
          by simp⟩
        rw [story_of_walks hle hwalks, if_pos hlist]
        rfl
  · rw [if_neg hlist]
    by_cases hstrategy : settings.strategy = .recursive
    · have hwalks : settings.Walks := Or.inr hstrategy
      rcases Nat.lt_or_ge 64 disks with hgt | hle
      · rw [hstrategy]
        refine ⟨_, _, _, true, run_count_recursive_of_gt _ hgt s, ?_, by simp⟩
        rw [story_of_not_walks (by omega), if_neg hlist, hstrategy]
      · rw [hstrategy]
        refine ⟨_, _, _, true, run_count_recursive_of_le _ hle s, ?_, by simp⟩
        rw [story_of_walks hle hwalks, if_neg hlist, hstrategy]
        rfl
    · have hnotWalks : ¬settings.Walks := not_or.mpr ⟨hlist, hstrategy⟩
      refine ⟨_, _, _, true, run_count_of_ne_recursive _ hstrategy disks s, ?_, by simp⟩
      rw [story_of_not_walks fun h => hnotWalks h.2, if_neg hlist]

/-- Writing the result tells nothing, and if it fails it is not for a move. -/
theorem run_answer (line : String) (s : Stream) :
    ∃ result t, (do
      expect .countNotWritten (Stream.sink.put line)
      expect .countNotWritten Stream.sink.flush : Session Stream (Failure Fault) Unit).run s =
        ⟨result, t, []⟩ ∧ ∀ fault, result ≠ .error (.moveNotWritten fault) := by
  match hput : s.put line with
  | (.error fault, t) =>
    have hfailed := run_expect_error .countNotWritten (fun stream : Stream => stream.put line) hput
    exact ⟨_, _, Session.run_bind_error hfailed, by simp⟩
  | (.ok (), t) =>
    match hflush : t.flush with
    | (.error fault, u) =>
      have hfailed : (expect .countNotWritten Stream.sink.flush).run t = _ :=
        run_expect_error .countNotWritten Stream.flush hflush
      rw [Session.run_bind_ok (run_expect_put_ok .countNotWritten hput), hfailed]
      exact ⟨_, _, rfl, by simp⟩
    | (.ok (), u) =>
      rw [Session.run_bind_ok (run_expect_put_ok .countNotWritten hput),
        run_expect_flush_ok .countNotWritten hflush]
      exact ⟨_, _, rfl, by simp⟩

/-- All that is told on the way from a disk count to the end. -/
theorem events_work_of_read {text : String} (hread : DiskCount.read text = .ok disks)
    (settings : Settings) (device : Device) :
    ∃ completed, (work settings text.toUTF8 device).events = story settings disks completed ∧
      (completed = false ↔
        ∃ fault, (work settings text.toUTF8 device).result = .error (.moveNotWritten fault)) := by
  obtain ⟨result, t, events, completed, hreckon, hstory, hfails⟩ :=
    run_reckon_story settings disks ⟨device, "", ""⟩
  refine ⟨completed, ?_⟩
  rw [← hstory, hfails, work]
  cases result with
  | error failure =>
    rw [run_perform_of_reckon_error hread hreckon]
    exact ⟨rfl, by simp⟩
  | ok count =>
    obtain ⟨result, u, hanswer, hother⟩ := run_answer (toString count ++ "\n") t
    rw [perform_eq, Session.run_bind_ok (run_diskCount_of_ok hread _),
      Session.run_bind_ok (Session.run_log _ _), Session.run_bind_ok hreckon, hanswer,
      List.append_nil]
    refine ⟨rfl, iff_of_false (by simp) ?_⟩
    rintro ⟨fault, hfault⟩
    exact hother fault hfault

end

/-- The events that a run tells. Printing the manual, it tells none. -/
def Invocation.events (invocation : Invocation) (settings : Settings) : List Log.Event :=
  if settings.manual then [] else (work settings invocation.input invocation.device).events

/-- The events that a run writes down. -/
def Invocation.records (invocation : Invocation) (settings : Settings) : List Log.Event :=
  (invocation.events settings).filter (invocation.recorder settings).filter.admits

/-- The lines that it writes for them. -/
def Invocation.lines (invocation : Invocation) (settings : Settings) : List String :=
  (invocation.records settings).map (invocation.recorder settings).style.line

/-- The report that a run ends with. -/
def Invocation.report (invocation : Invocation) (settings : Settings) : String :=
  if settings.manual then (printManual invocation.device "").stderr
  else (conclude (work settings invocation.input invocation.device).result).2

/-- The events of a run: none if it prints the manual or cannot read a disk count, and else its story,
which ends early where a move could not be written. -/
inductive Invocation.Tells (invocation : Invocation) (settings : Settings) : List Log.Event → Prop
  | manual (h : settings.manual = true) : Tells invocation settings []
  | unread (h : ∀ text disks, text.toUTF8 = invocation.input → DiskCount.read text ≠ .ok disks) :
    Tells invocation settings []
  | cutShort {text : String} {disks : Nat} {fault : Fault} (hmanual : settings.manual = false)
    (htext : text.toUTF8 = invocation.input) (hread : DiskCount.read text = .ok disks)
    (h : (work settings invocation.input invocation.device).result =
      .error (.moveNotWritten fault)) :
    Tells invocation settings (story settings disks false)
  | completed {text : String} {disks : Nat} (hmanual : settings.manual = false)
    (htext : text.toUTF8 = invocation.input) (hread : DiskCount.read text = .ok disks)
    (h : ∀ fault, (work settings invocation.input invocation.device).result ≠
      .error (.moveNotWritten fault)) :
    Tells invocation settings (story settings disks true)

section

variable {invocation : Invocation} {settings : Settings}

theorem tells_events (invocation : Invocation) (settings : Settings) :
    invocation.Tells settings (invocation.events settings) := by
  unfold Invocation.events
  cases hmanual : settings.manual with
  | true => exact .manual hmanual
  | false =>
    rw [if_neg (by simp)]
    by_cases hread : ∃ text disks, text.toUTF8 = invocation.input ∧ DiskCount.read text = .ok disks
    · obtain ⟨text, disks, htext, hread⟩ := hread
      obtain ⟨completed, hevents, hfails⟩ := events_work_of_read hread settings invocation.device
      rw [htext] at hevents hfails
      rw [hevents]
      cases completed with
      | false =>
        obtain ⟨fault, hfault⟩ := hfails.mp rfl
        exact .cutShort hmanual htext hread hfault
      | true =>
        refine .completed hmanual htext hread fun fault hfault => ?_
        cases hfails.mpr ⟨fault, hfault⟩
    · have hunread : ∀ text disks, text.toUTF8 = invocation.input →
          DiskCount.read text ≠ .ok disks :=
        fun text disks htext hok => hread ⟨text, disks, htext, hok⟩
      have hbad : (¬∃ text : String, text.toUTF8 = invocation.input) ∨
          ∃ text : String, text.toUTF8 = invocation.input ∧ ∃ e, DiskCount.read text = .error e := by
        by_cases htext : ∃ text : String, text.toUTF8 = invocation.input
        · obtain ⟨text, htext⟩ := htext
          cases hcount : DiskCount.read text with
          | ok disks => exact absurd hcount (hunread text disks htext)
          | error e => exact Or.inr ⟨text, htext, e, hcount⟩
        · exact Or.inl htext
      obtain ⟨failure, hfailed⟩ := run_diskCount_of_error hbad ⟨invocation.device, "", ""⟩
      rw [work, perform_eq, Session.run_bind_error hfailed]
      exact .unread hunread

/-- What is on the error channel at the end of a run: warnings, lines, report. -/
theorem stderr_run (h : readArguments invocation.arguments = .ok settings) :
    (run invocation).stderr = invocation.warnings settings ++
      String.join (invocation.lines settings) ++ invocation.report settings := by
  unfold Invocation.lines Invocation.records Invocation.events Invocation.report
  cases hmanual : settings.manual with
  | true =>
    obtain ⟨code, stdout, message, hprinted, -⟩ := printManual_eq invocation.device
    rw [run_of_manual h hmanual, hprinted, if_pos rfl, if_pos rfl, hprinted]
    simp [Invocation.warnings]
  | false =>
    rw [run_eq_of_work h hmanual rfl]
    rfl

/-- Two runs that differ in the threshold differ in nothing if it makes no other filter. -/
theorem run_eq_of_configure_eq {arguments : List String} {threshold : Log.Threshold}
    (h : readArguments invocation.arguments = .ok settings)
    (h' : readArguments arguments = .ok { settings with threshold })
    (hsame : Log.Filter.configure invocation.patterns threshold invocation.logSpec =
      Log.Filter.configure invocation.patterns settings.threshold invocation.logSpec) :
    run { invocation with arguments } = run invocation := by
  rw [run, run, h, h']
  simp only [hsame]
  rfl

end

/-- **Who decides about the log.** On the error channel of a run there are its warnings, then a line
for each event that it writes down, and then its report. What the events are, which of them are written
down and what their lines look like is settled in every case, by the threshold on the command line and
by what the filter in the environment says.

If a level stands alone in that filter, the threshold makes no difference to anything. Whatever the
filter, a run with a higher threshold writes the same lines, in the same order and perhaps with others
between them. If there is no filter, or one that is ignored for its slashes, the events that are
written down are those of at least the severity asked for, out of all that are told. -/
theorem log_level_precedence (invocation : Invocation) (settings : Settings)
    (h : readArguments invocation.arguments = .ok settings) :
    ((run invocation).stderr = invocation.warnings settings ++
        String.join (invocation.lines settings) ++ invocation.report settings ∧
      invocation.Tells settings (invocation.events settings) ∧
      (∀ e : Log.Event, e.Worded e.severity e.origin.target e.message) ∧
      List.Forall₂
        (Log.Shows (if invocation.logStyle = some "always" then .coloured else .plain))
        (invocation.records settings) (invocation.lines settings)) ∧
    (∃ ds pattern, Log.Spec.Reads invocation.patterns invocation.logSpec ds pattern ∧
      ∃ admitted : Log.Event → Bool,
        invocation.records settings = (invocation.events settings).filter admitted ∧
        ∀ e, admitted e = true ↔
          (∃ d, Log.Rules (⟨none, settings.threshold⟩ :: ds) e.origin.target d ∧
            e.severity.verbosity ≤ d.threshold.verbosity) ∧
          ∀ isMatch, pattern = some isMatch → isMatch e.message = true) ∧
    (∀ (arguments : List String) (threshold : Log.Threshold),
      readArguments arguments = .ok { settings with threshold } →
      (∀ text, invocation.logSpec = some text → Log.Spec.SetsLevel text →
        run { invocation with arguments } = run invocation) ∧
      (settings.threshold.verbosity ≤ threshold.verbosity →
        (invocation.records settings).Sublist
          (Invocation.records { invocation with arguments } { settings with threshold }) ∧
        (invocation.lines settings).Sublist
          (Invocation.lines { invocation with arguments } { settings with threshold }))) ∧
    ((∀ text, invocation.logSpec = some text → 2 ≤ text.toList.count '/') →
      invocation.records settings = (invocation.events settings).filter
        fun e => e.severity.verbosity ≤ settings.threshold.verbosity) ∧
    [Log.Threshold.off, .upTo .error, .upTo .warn, .upTo .info, .upTo .debug,
      .upTo .trace].Pairwise (fun t u => t.verbosity < u.verbosity) ∧
    ∀ severity : Log.Severity, severity.verbosity = (Log.Threshold.upTo severity).verbosity := by
  refine ⟨⟨stderr_run h, tells_events invocation settings, Log.Event.worded,
    Log.forall₂_shows_map _ _⟩, ?_, ?_, ?_, by decide, fun severity => rfl⟩
  · obtain ⟨ds, pattern, hreads, hfilter⟩ :=
      Log.Filter.exists_reads invocation.patterns invocation.logSpec
    refine ⟨ds, pattern, hreads, _, rfl, fun e => ?_⟩
    rw [Invocation.recorder, hfilter]
    exact Log.Filter.admits_iff
  · intro arguments threshold h'
    constructor
    · intro text htext hlevel
      apply run_eq_of_configure_eq h h'
      rw [htext]
      exact Log.Filter.configure_eq_of_setsLevel hlevel threshold settings.threshold
    · intro hle
      have hrecords : (invocation.records settings).Sublist
          (Invocation.records { invocation with arguments } { settings with threshold }) :=
        List.monotone_filter_right _ fun e he =>
          Log.Filter.admits_configure_mono hle invocation.logSpec he
      exact ⟨hrecords, hrecords.map _⟩
  · intro hignored
    apply List.filter_congr
    intro e _
    exact Log.Filter.admits_configure_of_ignored hignored settings.threshold e

/-- One disk is listed, at a level and with a written filter. -/
def listOne (level spec : String) : Invocation where
  arguments := ["--print-moves", "--log-level", level]
  input := "1".toUTF8
  logSpec := some spec

/-- A level written among other directives and before a pattern; a filter with a level that makes no
sense and one for the empty scope; and a filter with two slashes. -/
theorem log_level_precedence_listOne :
    run (listOne "trace" "hanoi::counter=trace, Warn /Sol") =
      run (listOne "off" "hanoi::counter=trace, Warn /Sol") ∧
    (listOne "off" "hanoi::counter=trace, Warn /Sol").lines { threshold := .off, listMoves := true } =
      ["Solving 1 disks recursively\n", "Solved 1 disks in 1 moves\n"] ∧
    ((listOne "warn" "hanoi=x,=debug").lines
      { threshold := .upTo .warn, listMoves := true }).Sublist
      ((listOne "trace" "hanoi=x,=debug").lines
        { threshold := .upTo .trace, listMoves := true }) ∧
    (listOne "debug" "off/a/b").records { threshold := .upTo .debug, listMoves := true } =
      [.diskCountRead 1, .strategyIgnored .closedForm] := by
  have hlevel : Log.Spec.SetsLevel "hanoi::counter=trace, Warn /Sol" :=
    ⟨by decide, " Warn ".toList, by decide, .upTo .warn, by decide⟩
  obtain ⟨⟨-, -, -, hshown⟩, -, hoff, -⟩ :=
    log_level_precedence (listOne "off" "hanoi::counter=trace, Warn /Sol")
      { threshold := .off, listMoves := true } rfl
  obtain ⟨-, -, hwarn, -⟩ := log_level_precedence (listOne "warn" "hanoi=x,=debug")
    { threshold := .upTo .warn, listMoves := true } rfl
  obtain ⟨-, -, -, hdebug, -⟩ := log_level_precedence (listOne "debug" "off/a/b")
    { threshold := .upTo .debug, listMoves := true } rfl
  refine ⟨?_, ?_, ?_, ?_⟩
  · exact (hoff ["--print-moves", "--log-level", "trace"] (.upTo .trace) rfl).1 _ rfl hlevel
  · have hrecords : (listOne "off" "hanoi::counter=trace, Warn /Sol").records
        { threshold := .off, listMoves := true } = [.solving 1, .solved 1 1] := rfl
    rw [hrecords] at hshown
    generalize (listOne "off" "hanoi::counter=trace, Warn /Sol").lines
      { threshold := .off, listMoves := true } = lines at hshown
    obtain _ | ⟨⟨⟨_⟩⟩, _ | ⟨⟨⟨_⟩⟩, _ | _⟩⟩ := hshown
    rfl
  · exact ((hwarn ["--print-moves", "--log-level", "trace"] (.upTo .trace) rfl).2 (by decide)).2
  · rw [hdebug fun text htext => by cases htext; decide]
    rfl

end Command

end TowerOfHanoi
