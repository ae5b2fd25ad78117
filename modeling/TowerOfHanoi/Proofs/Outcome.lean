import TowerOfHanoi.Command.Run
import TowerOfHanoi.Proofs.Refusals
import TowerOfHanoi.Proofs.StrategiesAgree

/-!
# What comes of a run

The exit code and the standard output of every run on a working device. A run ends in one of four
ways: its arguments are refused; they ask for a text about the program; the input has no answer
(`Unanswerable`); or the count is printed, after the listing if one is wanted.

Output is buffered, so what a reader has received lags behind what has been written. The invariant
`Stream.Holds` speaks of both together: one write keeps it (`Holds.put`), hence a listing of any
length does (`holds_hear`), and flushing hands over all of it (`Holds.flush`). All checks of a run
come before its first write; that is why a failing run prints nothing at all.
-/

namespace TowerOfHanoi

open Output Command

/-! ## A working stream -/

namespace Output.Stream

/-- The device works, and `text` has been written: what its reader has received and what is still
collected make up `text`. -/
structure Holds (s : Stream) (text : String) : Prop where
  working : s.device = .working
  text_eq : s.received ++ s.collected = text

theorem deliver_working (s : Stream) (h : s.device = .working) (chunks : List String) :
    s.deliver chunks = (.ok (), ⟨.working, s.received ++ String.join chunks, s.collected⟩) := by
  induction chunks generalizing s with
  | nil =>
    obtain ⟨device, received, collected⟩ := s
    cases h
    simp [deliver]
  | cons chunk rest ih =>
    have hwrite : s.device.write chunk = .ok (chunk, .working) := by rw [h, Device.write]
    rw [deliver, hwrite, String.join_cons, ← String.append_assoc]
    exact ih ⟨.working, s.received ++ chunk, s.collected⟩ rfl

theorem handOver_working (s : Stream) (h : s.device = .working) (handover : Handover) :
    s.handOver handover =
      (.ok (), ⟨.working, s.received ++ String.join handover.chunks, handover.kept⟩) := by
  rw [handOver, deliver_working s h]

theorem holds_fresh : Holds ⟨.working, "", ""⟩ "" := ⟨rfl, rfl⟩

/-- Writing succeeds and loses nothing, whether the buffer goes out or not. -/
theorem Holds.put {s : Stream} {written : String} (h : s.Holds written) (text : String) :
    ∃ t, s.put text = (.ok (), t) ∧ t.Holds (written ++ text) := by
  refine ⟨_, handOver_working s h.working (push s.collected text), ⟨rfl, ?_⟩⟩
  rw [String.append_assoc, join_push, ← String.append_assoc, h.text_eq]

/-- After flushing, the reader has everything. -/
theorem Holds.flush {s : Stream} {written : String} (h : s.Holds written) :
    ∃ t, s.flush = (.ok (), t) ∧ t.received = written := by
  refine ⟨_, handOver_working s h.working (drain s.collected), ?_⟩
  show s.received ++ String.join (chunked s.collected) = written
  rw [join_chunked, h.text_eq]

end Output.Stream

/-! ## Writing the moves -/

namespace Command

/-- A write that succeeds is passed over. -/
theorem run_expect_ok {σ ω : Type} (blame : ω → Failure ω) (write : σ → Except ω Unit × σ)
    {s t : σ} (h : write s = (.ok (), t)) :
    (expect blame (Session.step write) : Session σ (Failure ω) Unit).run s =
      ⟨.ok (), t, []⟩ := by
  have hstep : (Session.step write : Session σ (Failure ω) _).run s = ⟨.ok (.ok ()), t, []⟩ := by
    rw [Session.run_step, h]
  unfold expect
  rw [Session.run_bind_ok hstep]
  rfl

theorem run_expect_put_ok (blame : Fault → Failure Fault) {s t : Stream} {text : String}
    (h : s.put text = (.ok (), t)) :
    (expect blame (Stream.sink.put text) : Session Stream (Failure Fault) Unit).run s =
      ⟨.ok (), t, []⟩ :=
  run_expect_ok blame (fun stream : Stream => stream.put text) h

theorem run_expect_flush_ok (blame : Fault → Failure Fault) {s t : Stream}
    (h : s.flush = (.ok (), t)) :
    (expect blame Stream.sink.flush : Session Stream (Failure Fault) Unit).run s =
      ⟨.ok (), t, []⟩ :=
  run_expect_ok blame Stream.flush h

/-- What a listing does with a move. -/
def writeMove {m : Type → Type} [Monad m] {ω : Type} [MonadExcept (Failure ω) m]
    (sink : Sink m ω) (move : Move) : m Unit :=
  expect .moveNotWritten (sink.put (move.text ++ "\n"))

/-- A list of moves as text, one a line. -/
def listing (walk : List Move) : String := unlines (walk.map Move.text)

theorem listing_cons (move : Move) (rest : List Move) :
    listing (move :: rest) = move.text ++ "\n" ++ listing rest := by
  simp [listing, unlines]

/-- A listing on a working stream writes all moves, and neither fails nor tells anything. -/
theorem holds_hear {s : Stream} {written : String}
    (h : s.Holds written) (walk : List Move) :
    ∃ t, hear (writeMove Stream.sink) walk s = ⟨walk, t, [], none⟩ ∧
      t.Holds (written ++ listing walk) := by
  induction walk generalizing s written with
  | nil => exact ⟨s, rfl, by simpa [listing, unlines] using h⟩
  | cons move rest ih =>
    obtain ⟨t, hput, ht⟩ := h.put (move.text ++ "\n")
    obtain ⟨u, hrest, hu⟩ := ih ht
    have hmove : (writeMove Stream.sink move).run s = ⟨.ok (), t, []⟩ :=
      run_expect_put_ok .moveNotWritten hput
    refine ⟨u, ?_, ?_⟩
    · rw [hear_cons_of_ok rest hmove, hrest]
      rfl
    · rw [listing_cons, ← String.append_assoc]
      exact hu

/-- The warning before a listing that was asked for with another strategy. -/
def listingWarnings (strategy : Strategy) : List Log.Event :=
  if strategy = .recursive then [] else [.strategyIgnored strategy]

/-- Listing moves is solving with `writeMove` as the listener, after the warning. -/
theorem run_listMoves {σ ω : Type} {sink : Sink (Session σ (Failure ω)) ω} {disks : Nat}
    {s t : σ} {result : Except (Failure ω) UInt64} {events : List Log.Event}
    (strategy : Strategy)
    (h : (solve Failure.unlistable (writeMove sink) disks).run s = ⟨result, t, events⟩) :
    (listMoves sink strategy disks).run s =
      ⟨result.map UInt64.toNat, t, listingWarnings strategy ++ events⟩ := by
  have hwalk : (do
      let count ← solve Failure.unlistable (writeMove sink) disks
      pure count.toNat : Session σ (Failure ω) Nat).run s =
        ⟨result.map UInt64.toNat, t, events⟩ := by
    cases result with
    | error e => rw [Session.run_bind_error h, Except.map]
    | ok count => rw [Session.run_bind_ok h, Session.run_pure, List.append_nil, Except.map]
  unfold listMoves listingWarnings
  by_cases hstrategy : strategy = .recursive
  · rw [if_neg (not_not_intro hstrategy), if_pos hstrategy]
    exact hwalk
  · rw [if_pos hstrategy, if_neg hstrategy,
      Session.run_bind_ok (Session.run_log (.strategyIgnored strategy) s)]
    exact congrArg (fun trace : Trace σ (Failure ω) Nat =>
      (⟨trace.result, trace.state, [.strategyIgnored strategy] ++ trace.events⟩ :
        Trace σ (Failure ω) Nat)) hwalk

/-- A tower that can be walked is listed completely. -/
theorem run_listMoves_of_le {s : Stream} {written : String} (hs : s.Holds written)
    (strategy : Strategy) {disks : Nat} (h : disks ≤ maxWalkedDisks) :
    ∃ t, (listMoves Stream.sink strategy disks).run s =
        ⟨.ok (moveCount disks), t, listingWarnings strategy ++
          [.solving disks, .solved disks (UInt64.ofNat (moveCount disks))]⟩ ∧
      t.Holds (written ++ listing (moves disks .a .b .c)) := by
  obtain ⟨t, hhear, ht⟩ := holds_hear hs (moves disks .a .b .c)
  have hsolve := run_solve_of_le Failure.unlistable (writeMove Stream.sink) h s
  rw [hhear, ← moveCount_eq] at hsolve
  refine ⟨t, ?_, ht⟩
  rw [run_listMoves strategy hsolve, Except.map, toNat_ofNat_moveCount h]
  rfl

/-- A tower that cannot be walked is not listed at all. -/
theorem run_listMoves_of_gt {σ ω : Type} (sink : Sink (Session σ (Failure ω)) ω)
    (strategy : Strategy) {disks : Nat} (h : maxWalkedDisks < disks) (s : σ) :
    (listMoves sink strategy disks).run s =
      ⟨.error (.unlistable ⟨disks, maxWalkedDisks⟩), s, listingWarnings strategy⟩ := by
  rw [run_listMoves strategy (run_solve_of_gt Failure.unlistable (writeMove sink) h s), Except.map,
    List.append_nil]

/-! ## From the disk count to the number of moves -/

/-- The run walks the solution, either to list it or to count by it. -/
def Settings.Walks (settings : Settings) : Prop :=
  settings.listMoves = true ∨ settings.strategy = .recursive

/-- The part of a run between reading the disk count and writing the result. -/
def reckon {σ ω : Type} (sink : Sink (Session σ (Failure ω)) ω) (settings : Settings)
    (disks : Nat) : Session σ (Failure ω) Nat :=
  if settings.listMoves then listMoves sink settings.strategy disks
  else settings.strategy.count (Failure.uncountable disks) disks

/-- What a run prints before the result. -/
def preamble (settings : Settings) (disks : Nat) : String :=
  if settings.listMoves then listing (moves disks .a .b .c) else ""

theorem preamble_of_listMoves {settings : Settings} (h : settings.listMoves = true) (disks : Nat) :
    preamble settings disks = listing (moves disks .a .b .c) := if_pos h

theorem preamble_of_not_listMoves {settings : Settings} (h : settings.listMoves = false)
    (disks : Nat) : preamble settings disks = "" := if_neg (by simp [h])

theorem run_reckon_of_feasible {settings : Settings} {disks : Nat} {s : Stream} {written : String}
    (hs : s.Holds written) (h : disks ≤ maxWalkedDisks ∨ ¬settings.Walks) :
    ∃ t events, (reckon Stream.sink settings disks).run s = ⟨.ok (moveCount disks), t, events⟩ ∧
      t.Holds (written ++ preamble settings disks) := by
  unfold reckon
  by_cases hlist : settings.listMoves = true
  · have hle : disks ≤ maxWalkedDisks := h.resolve_right fun hwalks => hwalks (Or.inl hlist)
    rw [if_pos hlist, preamble_of_listMoves hlist]
    obtain ⟨t, hrun, ht⟩ := run_listMoves_of_le hs settings.strategy hle
    exact ⟨t, _, hrun, ht⟩
  · rw [if_neg hlist, preamble_of_not_listMoves (Bool.eq_false_iff.mpr hlist), String.append_empty]
    by_cases hstrategy : settings.strategy = .recursive
    · have hle : disks ≤ maxWalkedDisks := h.resolve_right fun hwalks => hwalks (Or.inr hstrategy)
      rw [hstrategy]
      exact ⟨s, _, run_count_recursive_of_le _ hle s, hs⟩
    · exact ⟨s, _, run_count_of_ne_recursive _ hstrategy disks s, hs⟩

/-- Both ways of walking refuse a tower that is too tall before they do anything else. -/
theorem run_reckon_of_infeasible {settings : Settings} {disks : Nat}
    (h : maxWalkedDisks < disks) (hwalks : settings.Walks) (s : Stream) :
    ∃ failure events, (reckon Stream.sink settings disks).run s = ⟨.error failure, s, events⟩ := by
  unfold reckon
  by_cases hlist : settings.listMoves = true
  · rw [if_pos hlist]
    exact ⟨_, _, run_listMoves_of_gt Stream.sink settings.strategy h s⟩
  · rw [if_neg hlist, hwalks.resolve_left hlist]
    exact ⟨_, _, run_count_recursive_of_gt _ h s⟩

/-! ## The whole work -/

theorem fromUTF8?_eq_some_iff (input : ByteArray) (text : String) :
    String.fromUTF8? input = some text ↔ text.toUTF8 = input := by
  unfold String.fromUTF8?
  constructor
  · intro h
    split at h
    · cases h
      rfl
    · cases h
  · rintro rfl
    exact dif_pos text.isValidUTF8

theorem perform_eq {σ ω : Type} (sink : Sink (Session σ (Failure ω)) ω) (settings : Settings)
    (input : ByteArray) :
    perform sink settings input = (do
      let disks ← diskCount ω input
      Log.log (.diskCountRead disks)
      let count ← reckon sink settings disks
      expect .countNotWritten (sink.put (toString count ++ "\n"))
      expect .countNotWritten sink.flush) := by
  unfold perform reckon
  cases settings.listMoves with
  | true => rfl
  | false => rfl

/-- Input without an answer: it is not text, or its text holds no disk count, or the count is too
large to be walked and the settings make the run walk. -/
def Unanswerable (settings : Settings) (input : ByteArray) : Prop :=
  (¬∃ text : String, text.toUTF8 = input) ∨
  ∃ text : String, text.toUTF8 = input ∧
    ((∃ e, DiskCount.read text = .error e) ∨
      ∃ disks, DiskCount.read text = .ok disks ∧ 64 < disks ∧
        (settings.listMoves = true ∨ settings.strategy = .recursive))

theorem exists_disks_of_not_unanswerable {settings : Settings} {input : ByteArray}
    (h : ¬Unanswerable settings input) :
    ∃ (text : String) (disks : Nat), text.toUTF8 = input ∧ DiskCount.read text = .ok disks ∧
      (disks ≤ 64 ∨ ¬settings.Walks) := by
  unfold Unanswerable at h
  obtain ⟨htext, hrest⟩ := not_or.mp h
  obtain ⟨text, htext⟩ := Classical.not_not.mp htext
  cases hread : DiskCount.read text with
  | error e => exact absurd ⟨text, htext, Or.inl ⟨e, hread⟩⟩ hrest
  | ok disks =>
    refine ⟨text, disks, htext, hread, ?_⟩
    by_cases hle : disks ≤ 64
    · exact Or.inl hle
    · right
      intro hwalks
      exact hrest ⟨text, htext, Or.inr ⟨disks, hread, Nat.lt_of_not_le hle, hwalks⟩⟩

theorem run_diskCount_of_ok {σ ω : Type} {text : String} {disks : Nat}
    (h : DiskCount.read text = .ok disks) (s : σ) :
    (diskCount ω text.toUTF8 : Session σ (Failure ω) Nat).run s = ⟨.ok disks, s, []⟩ := by
  unfold diskCount
  rw [(fromUTF8?_eq_some_iff _ text).mpr rfl]
  simp only [h]
  rfl

theorem run_diskCount_of_error {input : ByteArray}
    (h : (¬∃ text : String, text.toUTF8 = input) ∨
      ∃ text : String, text.toUTF8 = input ∧ ∃ e, DiskCount.read text = .error e) (s : Stream) :
    ∃ failure, (diskCount Fault input : Session Stream (Failure Fault) Nat).run s =
      ⟨.error failure, s, []⟩ := by
  unfold diskCount
  rcases h with hnone | ⟨text, htext, e, hread⟩
  · have hutf8 : String.fromUTF8? input = none := by
      cases hsome : String.fromUTF8? input with
      | none => rfl
      | some text => exact absurd ⟨text, (fromUTF8?_eq_some_iff _ _).mp hsome⟩ hnone
    rw [hutf8]
    exact ⟨_, rfl⟩
  · rw [(fromUTF8?_eq_some_iff _ _).mpr htext]
    simp only [hread]
    exact ⟨_, rfl⟩

/-- An answer is printed in full. -/
theorem work_of_feasible {settings : Settings} {text : String} {disks : Nat}
    (hread : DiskCount.read text = .ok disks) (h : disks ≤ maxWalkedDisks ∨ ¬settings.Walks) :
    (work settings text.toUTF8 .working).result = .ok () ∧
      (work settings text.toUTF8 .working).state.received =
        preamble settings disks ++ toString (moveCount disks) ++ "\n" := by
  obtain ⟨s, events, hreckon, hs⟩ := run_reckon_of_feasible Stream.holds_fresh h
  obtain ⟨t, hput, ht⟩ := hs.put (toString (moveCount disks) ++ "\n")
  obtain ⟨u, hflush, hu⟩ := ht.flush
  unfold work
  rw [perform_eq, Session.run_bind_ok (run_diskCount_of_ok hread _),
    Session.run_bind_ok (Session.run_log _ _), Session.run_bind_ok hreckon,
    Session.run_bind_ok (run_expect_put_ok .countNotWritten hput),
    run_expect_flush_ok .countNotWritten hflush]
  refine ⟨rfl, ?_⟩
  rw [hu, String.empty_append, String.append_assoc]

/-- Without an answer nothing is printed, on any device. -/
theorem work_of_unanswerable {settings : Settings} {input : ByteArray}
    (h : Unanswerable settings input) (device : Device) :
    ∃ failure, (work settings input device).result = .error failure ∧
      (work settings input device).state.received = "" := by
  have hcases : ((¬∃ text : String, text.toUTF8 = input) ∨
      ∃ text : String, text.toUTF8 = input ∧ ∃ e, DiskCount.read text = .error e) ∨
      ∃ (text : String) (disks : Nat), text.toUTF8 = input ∧ DiskCount.read text = .ok disks ∧
        64 < disks ∧ settings.Walks := by
    rcases h with hnone | ⟨text, htext, hread | ⟨disks, hread, hwalks⟩⟩
    · exact Or.inl (Or.inl hnone)
    · exact Or.inl (Or.inr ⟨text, htext, hread⟩)
    · exact Or.inr ⟨text, disks, htext, hread, hwalks⟩
  unfold work
  rw [perform_eq]
  rcases hcases with hbad | ⟨text, disks, rfl, hread, hgt, hwalks⟩
  · obtain ⟨failure, hfailed⟩ := run_diskCount_of_error hbad ⟨device, "", ""⟩
    rw [Session.run_bind_error hfailed]
    exact ⟨failure, rfl, rfl⟩
  · obtain ⟨failure, events, hfailed⟩ := run_reckon_of_infeasible hgt hwalks ⟨device, "", ""⟩
    rw [Session.run_bind_ok (run_diskCount_of_ok hread _),
      Session.run_bind_ok (Session.run_log _ _), Session.run_bind_error hfailed]
    exact ⟨failure, rfl, rfl⟩

/-! ## The run -/

/-- The arguments are refused. -/
def Refused (arguments : List String) : Prop :=
  ∃ e, readArguments arguments = .error (.refused e)

/-- The arguments ask for `text`, which is about the program, and for nothing else. -/
def AsksFor (arguments : List String) (text : String) : Prop :=
  (readArguments arguments = .error .help ∧ text = helpText) ∨
  (readArguments arguments = .error .version ∧ text = versionText) ∨
  ∃ settings, readArguments arguments = .ok settings ∧ settings.manual = true ∧ text = manualText

theorem received_announce_working (text stderr : String) :
    (announce .working text stderr).stdout = text := by
  show (Stream.deliver ⟨.working, "", ""⟩ [text]).2.received = text
  rw [Stream.deliver_working _ rfl]
  simp

theorem printManual_working (stderr : String) :
    printManual .working stderr = ⟨0, manualText, stderr⟩ := by
  rw [printManual, Stream.deliver_working _ rfl]
  simp [manualText]

/-- How printing the manual ends: with code 0, or with the message of a breakdown after whatever is on
the error channel already. -/
theorem printManual_eq (device : Device) :
    ∃ code stdout message, (∀ stderr, printManual device stderr = ⟨code, stdout, stderr ++ message⟩) ∧
      stdout = (Stream.deliver ⟨device, "", ""⟩ [manualBody, "\n"]).2.received ∧
      ((Stream.deliver ⟨device, "", ""⟩ [manualBody, "\n"]).1 = .ok () ∧ code = 0 ∧ message = "" ∨
        ∃ fault, (Stream.deliver ⟨device, "", ""⟩ [manualBody, "\n"]).1 = .error fault ∧
          code = 101 ∧ message = "failed printing to stdout: " ++ fault.message) := by
  match hdelivered : Stream.deliver ⟨device, "", ""⟩ [manualBody, "\n"] with
  | (.ok (), stream) =>
    refine ⟨0, stream.received, "", fun stderr => ?_, rfl, Or.inl ⟨rfl, rfl, rfl⟩⟩
    simp only [printManual, hdelivered, String.append_empty]
  | (.error fault, stream) =>
    refine ⟨101, stream.received, _, fun stderr => ?_, rfl, Or.inr ⟨fault, rfl, rfl, rfl⟩⟩
    simp only [printManual, hdelivered]
    rfl

theorem code_printManual_ne_two (device : Device) (stderr : String) :
    (printManual device stderr).code ≠ 2 := by
  obtain ⟨code, stdout, message, hprinted, -, ⟨-, rfl, -⟩ | ⟨fault, -, rfl, -⟩⟩ :=
    printManual_eq device
  · rw [hprinted]
    exact (by decide : (0 : UInt32) ≠ 2)
  · rw [hprinted]
    exact (by decide : (101 : UInt32) ≠ 2)

theorem run_of_refused {invocation : Invocation} {e : UsageError}
    (h : readArguments invocation.arguments = .error (.refused e)) :
    run invocation = ⟨2, "", unlines ["error: " ++ e.message]⟩ := by
  rw [run, h]

theorem run_of_wish {invocation : Invocation} {text : String}
    (h : readArguments invocation.arguments = .error .help ∧ text = helpText ∨
      readArguments invocation.arguments = .error .version ∧ text = versionText) :
    run invocation = announce invocation.device text "" := by
  rcases h with ⟨h, rfl⟩ | ⟨h, rfl⟩
  · rw [run, h]
  · rw [run, h]

theorem run_of_manual {invocation : Invocation} {settings : Settings}
    (h : readArguments invocation.arguments = .ok settings) (hmanual : settings.manual = true) :
    run invocation = printManual invocation.device (warningText
      (Log.Filter.configure invocation.patterns settings.threshold invocation.logSpec).2) := by
  rw [run, h]
  simp only [hmanual, if_true]

/-- If a text about the program is wanted, the input plays no part. It need not be printed on every
device, but on a working one it is. -/
theorem run_of_asksFor {invocation : Invocation} {text : String}
    (h : AsksFor invocation.arguments text) :
    (∀ input, run { invocation with input } = run invocation) ∧ (run invocation).code ≠ 2 ∧
      (invocation.device = .working →
        (run invocation).code = 0 ∧ (run invocation).stdout = text) := by
  rcases or_assoc.mpr h with hwish | ⟨settings, hread, hmanual, rfl⟩
  · rw [run_of_wish hwish]
    refine ⟨fun input => run_of_wish hwish, (by decide : (0 : UInt32) ≠ 2), ?_⟩
    intro hdevice
    rw [hdevice]
    exact ⟨rfl, received_announce_working text ""⟩
  · rw [run_of_manual hread hmanual]
    refine ⟨fun input => run_of_manual hread hmanual, code_printManual_ne_two _ _, ?_⟩
    intro hdevice
    rw [hdevice, printManual_working]
    exact ⟨rfl, rfl⟩

/-- Any other run shows what its work has come to. -/
theorem run_of_ok {invocation : Invocation} {settings : Settings}
    (h : readArguments invocation.arguments = .ok settings) (hmanual : settings.manual = false) :
    (run invocation).code =
        (conclude (work settings invocation.input invocation.device).result).1 ∧
      (run invocation).stdout =
        (work settings invocation.input invocation.device).state.received := by
  rw [run, h]
  simp [hmanual]

/-- All of it: on the error channel the warnings are first, then the records, and the report last. -/
theorem run_eq_of_work {invocation : Invocation} {settings : Settings}
    (h : readArguments invocation.arguments = .ok settings) (hmanual : settings.manual = false)
    {result : Except (Failure Fault) Unit} {stream : Stream} {events : List Log.Event}
    (hwork : work settings invocation.input invocation.device = ⟨result, stream, events⟩) :
    run invocation = ⟨(conclude result).1, stream.received,
      warningText
          (Log.Filter.configure invocation.patterns settings.threshold invocation.logSpec).2 ++
        eventText
          (Log.Filter.configure invocation.patterns settings.threshold invocation.logSpec).1
          (Log.Style.ofSetting invocation.logStyle) events ++
        (conclude result).2⟩ := by
  rw [run, h]
  simp only [hmanual, hwork, Bool.false_eq_true, if_false]

theorem run_of_unanswerable {invocation : Invocation} {settings : Settings}
    (h : readArguments invocation.arguments = .ok settings) (hmanual : settings.manual = false)
    (hinput : Unanswerable settings invocation.input) :
    (run invocation).code = 1 ∧ (run invocation).stdout = "" := by
  obtain ⟨hcode, hstdout⟩ := run_of_ok h hmanual
  obtain ⟨failure, hresult, hreceived⟩ := work_of_unanswerable hinput invocation.device
  refine ⟨?_, by rw [hstdout, hreceived]⟩
  rw [hcode, hresult]
  rfl

theorem run_of_feasible {invocation : Invocation} {settings : Settings} {text : String}
    {disks : Nat} (hdevice : invocation.device = .working)
    (h : readArguments invocation.arguments = .ok settings) (hmanual : settings.manual = false)
    (htext : text.toUTF8 = invocation.input) (hread : DiskCount.read text = .ok disks)
    (hfeasible : disks ≤ maxWalkedDisks ∨ ¬settings.Walks) :
    (run invocation).code = 0 ∧
      (run invocation).stdout =
        preamble settings disks ++ toString (moveCount disks) ++ "\n" := by
  obtain ⟨hcode, hstdout⟩ := run_of_ok h hmanual
  obtain ⟨hresult, hreceived⟩ := work_of_feasible hread hfeasible
  rw [hdevice, ← htext] at hcode hstdout
  refine ⟨?_, by rw [hstdout, hreceived]⟩
  rw [hcode, hresult]
  rfl

/-- A run with good arguments either has no answer or gives it. -/
theorem run_cases {invocation : Invocation} {settings : Settings}
    (hdevice : invocation.device = .working)
    (h : readArguments invocation.arguments = .ok settings)
    (hmanual : settings.manual = false) :
    (Unanswerable settings invocation.input ∧ (run invocation).code = 1 ∧
      (run invocation).stdout = "") ∨
    (¬Unanswerable settings invocation.input ∧ (run invocation).code = 0 ∧
      ∃ (text : String) (disks : Nat), text.toUTF8 = invocation.input ∧
        DiskCount.read text = .ok disks ∧ (disks ≤ 64 ∨ ¬settings.Walks) ∧
        (run invocation).stdout =
          preamble settings disks ++ toString (moveCount disks) ++ "\n") := by
  by_cases hinput : Unanswerable settings invocation.input
  · exact Or.inl ⟨hinput, run_of_unanswerable h hmanual hinput⟩
  · obtain ⟨text, disks, htext, hread, hfeasible⟩ := exists_disks_of_not_unanswerable hinput
    obtain ⟨hcode, hstdout⟩ := run_of_feasible hdevice h hmanual htext hread hfeasible
    exact Or.inr ⟨hinput, hcode, text, disks, htext, hread, hfeasible, hstdout⟩

/-- A run without a listing that ends well prints the count and nothing else. -/
theorem stdout_of_code_eq_zero {invocation : Invocation} {settings : Settings}
    (hdevice : invocation.device = .working)
    (h : readArguments invocation.arguments = .ok settings) (hmanual : settings.manual = false)
    (hlist : settings.listMoves = false) (hcode : (run invocation).code = 0) :
    ∃ (text : String) (disks : Nat), text.toUTF8 = invocation.input ∧
      DiskCount.read text = .ok disks ∧
      (run invocation).stdout = toString (moveCount disks) ++ "\n" := by
  rcases run_cases hdevice h hmanual with
    ⟨-, hfailed, -⟩ | ⟨-, -, text, disks, htext, hcount, -, hstdout⟩
  · rw [hfailed] at hcode
    exact absurd hcode (by decide)
  · rw [preamble_of_not_listMoves hlist, String.empty_append] at hstdout
    exact ⟨text, disks, htext, hcount, hstdout⟩

/-- What arguments can come to. -/
theorem arguments_cases (arguments : List String) :
    Refused arguments ∨ (∃ text, AsksFor arguments text) ∨
      ∃ settings, readArguments arguments = .ok settings ∧ settings.manual = false := by
  cases hread : readArguments arguments with
  | error ending =>
    cases ending with
    | refused e => exact Or.inl ⟨e, hread⟩
    | brokeDown b => exact absurd hread (readArguments_ne_brokeDown arguments b)
    | help => exact Or.inr (Or.inl ⟨_, Or.inl ⟨hread, rfl⟩⟩)
    | version => exact Or.inr (Or.inl ⟨_, Or.inr (Or.inl ⟨hread, rfl⟩)⟩)
  | ok settings =>
    cases hmanual : settings.manual with
    | true => exact Or.inr (Or.inl ⟨_, Or.inr (Or.inr ⟨settings, hread, hmanual, rfl⟩)⟩)
    | false => exact Or.inr (Or.inr ⟨settings, rfl, hmanual⟩)

theorem conclude_code_ne_two (result : Except (Failure Fault) Unit) : (conclude result).1 ≠ 2 := by
  cases result with
  | ok _ => exact (by decide : (0 : UInt32) ≠ 2)
  | error _ => exact (by decide : (1 : UInt32) ≠ 2)

theorem code_eq_two_iff (invocation : Invocation) :
    (run invocation).code = 2 ↔ Refused invocation.arguments := by
  constructor
  · intro hcode
    rcases arguments_cases invocation.arguments with hrefused | ⟨text, htext⟩ | ⟨settings, h⟩
    · exact hrefused
    · exact absurd hcode (run_of_asksFor htext).2.1
    · rw [(run_of_ok h.1 h.2).1] at hcode
      exact absurd hcode (conclude_code_ne_two _)
  · rintro ⟨e, he⟩
    rw [run_of_refused he]

/-- **The outcome of every run on a working device.** The code is 2 exactly if the arguments are
refused, and then nothing is printed. If they ask for a text about the program, that text is
printed, with code 0. In both cases the input makes no difference. Otherwise the code is 1 exactly
if the input has no answer, and again nothing is printed; and if it has one, the code is 0 and the
output is the listing of the moves that `solve` shows, if it was asked for, and the count. So runs
without a listing print the same for the same input, whatever their strategies, if they end well. -/
theorem run_outcome (invocation : Invocation) (hdevice : invocation.device = .working) :
    ((run invocation).code = 2 ↔ Refused invocation.arguments) ∧
    (Refused invocation.arguments → (run invocation).stdout = "") ∧
    (∀ text, AsksFor invocation.arguments text →
      (run invocation).code = 0 ∧ (run invocation).stdout = text) ∧
    ((Refused invocation.arguments ∨ ∃ text, AsksFor invocation.arguments text) →
      ∀ input, run { invocation with input } = run invocation) ∧
    (∀ settings, readArguments invocation.arguments = .ok settings → settings.manual = false →
      ((run invocation).code = 1 ↔ Unanswerable settings invocation.input) ∧
      (Unanswerable settings invocation.input → (run invocation).stdout = "") ∧
      (¬Unanswerable settings invocation.input →
        (run invocation).code = 0 ∧
        ∃ (text : String) (disks : Nat), text.toUTF8 = invocation.input ∧
          DiskCount.read text = .ok disks ∧
          (settings.listMoves = false →
            (run invocation).stdout = toString (2 ^ disks - 1) ++ "\n") ∧
          (settings.listMoves = true →
            ∀ {σ ε : Type} (refuse : TooManyDisks → ε) (onMove : Move → Session σ ε Unit) (s : σ),
              NeverFails onMove →
              (run invocation).stdout =
                listing (shown refuse onMove disks s) ++ toString (2 ^ disks - 1) ++ "\n")) ∧
      ∀ (other : Invocation) (settings' : Settings), other.device = .working →
        readArguments other.arguments = .ok settings' → settings'.manual = false →
        other.input = invocation.input →
        settings.listMoves = false → settings'.listMoves = false →
        (run invocation).code = 0 → (run other).code = 0 →
        (run other).stdout = (run invocation).stdout) := by
  refine ⟨code_eq_two_iff invocation, ?_, ?_, ?_, ?_⟩
  · rintro ⟨e, he⟩
    rw [run_of_refused he]
  · intro text htext
    exact (run_of_asksFor htext).2.2 hdevice
  · rintro (⟨e, he⟩ | ⟨text, htext⟩) input
    · rw [run_of_refused he]
      exact run_of_refused he
    · exact (run_of_asksFor htext).1 input
  · intro settings hread hmanual
    refine ⟨?_, ?_, ?_, ?_⟩
    · rcases run_cases hdevice hread hmanual with ⟨hinput, hcode, -⟩ | ⟨hinput, hcode, -⟩
      · simp [hinput, hcode]
      · simp [hinput, hcode]
    · intro hinput
      exact (run_of_unanswerable hread hmanual hinput).2
    · intro hinput
      rcases run_cases hdevice hread hmanual with
        ⟨hbad, -⟩ | ⟨-, hcode, text, disks, htext, hcount, hfeasible, hstdout⟩
      · exact absurd hbad hinput
      · refine ⟨hcode, text, disks, htext, hcount, ?_, ?_⟩
        · intro hlist
          rw [hstdout, preamble_of_not_listMoves hlist, moveCount_eq, String.empty_append]
        · intro hlist σ ε refuse onMove s hok
          have hle : disks ≤ maxWalkedDisks :=
            hfeasible.resolve_right fun hwalks => hwalks (Or.inl hlist)
          rw [hstdout, preamble_of_listMoves hlist, moveCount_eq, hok.shown_eq refuse hle]
    · intro other settings' hdevice' hread' hmanual' hinput hlist hlist' hcode hcode'
      obtain ⟨text, disks, htext, hcount, hstdout⟩ :=
        stdout_of_code_eq_zero hdevice hread hmanual hlist hcode
      obtain ⟨text', disks', htext', hcount', hstdout'⟩ :=
        stdout_of_code_eq_zero hdevice' hread' hmanual' hlist' hcode'
      -- both have read the same text, hence the same count
      have hsame : text' = text := by
        apply String.toByteArray_inj.mp
        exact htext'.trans (hinput.trans htext.symm)
      subst hsame
      rw [hcount] at hcount'
      cases hcount'
      rw [hstdout, hstdout']

/-- Two disks are listed, and 65 disks are too many to be counted by walking. -/
theorem run_outcome_two :
    (run { arguments := ["--print-moves"], input := "2".toUTF8 }).stdout =
        "move A --> B\nmove A --> C\nmove B --> C\n3\n" ∧
      (run { arguments := ["--method", "recursive"], input := "65".toUTF8 }).code = 1 ∧
      (run { arguments := ["--method"], input := "2".toUTF8 }).code = 2 := by
  obtain ⟨-, -, -, -, hlisted⟩ :=
    run_outcome { arguments := ["--print-moves"], input := "2".toUTF8 } rfl
  obtain ⟨-, -, -, -, hwalked⟩ :=
    run_outcome { arguments := ["--method", "recursive"], input := "65".toUTF8 } rfl
  obtain ⟨hrefused, -⟩ := run_outcome { arguments := ["--method"], input := "2".toUTF8 } rfl
  refine ⟨?_, ?_, hrefused.mpr ⟨.missingValue .method, rfl⟩⟩
  · have htext : ∀ text : String, text.toUTF8 = "2".toUTF8 → text = "2" :=
      fun text h => String.toByteArray_inj.mp h
    have hanswer : ¬Unanswerable { listMoves := true } "2".toUTF8 := by
      rintro (hnone | ⟨text, hinput, ⟨e, he⟩ | ⟨disks, hdisks, htall, -⟩⟩)
      · exact hnone ⟨"2", rfl⟩
      · rw [htext text hinput] at he
        cases he
      · rw [htext text hinput] at hdisks
        cases hdisks
        exact absurd htall (by decide)
    obtain ⟨-, text, disks, hinput, hdisks, -, hstdout⟩ :=
      (hlisted { listMoves := true } rfl rfl).2.2.1 hanswer
    rw [htext text hinput] at hdisks
    cases hdisks
    rw [hstdout rfl Journal.Interruption.refused (Journal.keep none) #[] fun _ _ => rfl]
    rfl
  · exact (hwalked { strategy := .recursive } rfl rfl).1.mpr
      (Or.inr ⟨"65", rfl, Or.inr ⟨65, rfl, by decide, Or.inr rfl⟩⟩)

end Command

end TowerOfHanoi
