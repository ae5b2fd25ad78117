import TowerOfHanoi.Proofs.Outcome
import TowerOfHanoi.Proofs.Simulation

/-!
# The log has no say

A session keeps the events it is told and leaves it to others what becomes of them. The running
program cannot wait for that: it filters an event when it is told, and writes it out between two
moves of a listing. `LiveSession` is a monad that does so. `LiveSession.telling` relates it to
sessions, and by the simulation of the whole work the two come to the same end, for every filter and
every style.

So two runs that differ in nothing but their log do the same work. They have the same events, of
which each writes down its own choice, and then the same report.
-/

namespace TowerOfHanoi

open Output Command

/-! ## Text of events -/

/-- What is done with events: which are written down, and how. -/
structure Log.Recorder where
  filter : Log.Filter
  style : Log.Style

namespace Log.Recorder

/-- The text that is written down for these events. -/
def text (recorder : Recorder) (events : List Event) : String :=
  eventText recorder.filter recorder.style events

theorem text_nil (recorder : Recorder) : recorder.text [] = "" := rfl

theorem text_singleton (recorder : Recorder) (event : Event) :
    recorder.text [event] =
      if recorder.filter.admits event then recorder.style.line event else "" := by
  by_cases h : recorder.filter.admits event = true <;> simp [text, eventText, h]

theorem text_append (recorder : Recorder) (before after : List Event) :
    recorder.text (before ++ after) = recorder.text before ++ recorder.text after := by
  simp [text, eventText, String.join_append]

end Log.Recorder

/-! ## Writing events down as they are told -/

/-- A session in which events are not kept. Beside its state it has the text of an error channel,
and an event is added to that when it is told, if it is to be written down at all. -/
abbrev LiveSession (σ ε : Type) : Type → Type :=
  ReaderT Log.Recorder (ExceptT ε (StateM (σ × String)))

namespace LiveSession

variable {σ ε α β : Type}

instance : Log.Logger (LiveSession σ ε) where
  log event := do
    let recorder ← read
    if recorder.filter.admits event then
      modify fun s => (s.1, s.2 ++ recorder.style.line event)

/-- Carries the session out from a first state and what is already on the error channel. -/
def runLive (x : LiveSession σ ε α) (recorder : Log.Recorder) (s : σ) (written : String) :
    Except ε α × σ × String :=
  ((ReaderT.run x recorder).run.run (s, written)).run

/-- A step on the state that gives a value. -/
def step (f : σ → α × σ) : LiveSession σ ε α := do
  modifyGet fun s => ((f s.1).1, (f s.1).2, s.2)

variable {recorder : Log.Recorder} {s t : σ} {written later : String}

theorem runLive_bind_ok {x : LiveSession σ ε α} {f : α → LiveSession σ ε β} {a : α}
    (h : x.runLive recorder s written = (.ok a, t, later)) :
    (x >>= f).runLive recorder s written = (f a).runLive recorder t later := by
  unfold runLive at h ⊢
  rw [ReaderT.run_bind, ExceptT.run_bind, StateT.run_bind, Id.run_bind, h]

theorem runLive_bind_error {x : LiveSession σ ε α} {f : α → LiveSession σ ε β} {e : ε}
    (h : x.runLive recorder s written = (.error e, t, later)) :
    (x >>= f).runLive recorder s written = (.error e, t, later) := by
  unfold runLive at h ⊢
  rw [ReaderT.run_bind, ExceptT.run_bind, StateT.run_bind, Id.run_bind, h]
  rfl

theorem runLive_log (event : Log.Event) :
    (Log.log event : LiveSession σ ε Unit).runLive recorder s written =
      (.ok (), s, written ++ recorder.text [event]) := by
  have hread : (read : LiveSession σ ε Log.Recorder).runLive recorder s written =
      (.ok recorder, s, written) := rfl
  unfold Log.log
  rw [recorder.text_singleton]
  refine (runLive_bind_ok hread).trans ?_
  by_cases h : recorder.filter.admits event = true
  · rw [if_pos h, if_pos h]
    rfl
  · rw [if_neg h, if_neg h, String.append_empty]
    rfl

theorem runLive_step (f : σ → α × σ) :
    (step f : LiveSession σ ε α).runLive recorder s written = (.ok (f s).1, (f s).2, written) :=
  rfl

/-- Writing events down at once comes to the same as writing them down in the end. -/
def telling (σ ε : Type) : Simulation ε (Session σ ε) (LiveSession σ ε) where
  Rel x y := ∀ recorder s written, y.runLive recorder s written =
    ((x.run s).result, (x.run s).state, written ++ recorder.text (x.run s).events)
  pure a recorder s written := by
    show _ = (Except.ok a, s, written ++ "")
    rw [String.append_empty]
    rfl
  throw e recorder s written := by
    show _ = (Except.error e, s, written ++ "")
    rw [String.append_empty]
    rfl
  log event recorder s written := runLive_log event
  bind := by
    intro α β x y f g hx hf recorder s written
    have hy := hx recorder s written
    match hxs : x.run s with
    | ⟨.error e, t, events⟩ =>
      rw [hxs] at hy
      rw [runLive_bind_error hy, Session.run_bind_error hxs]
    | ⟨.ok a, t, events⟩ =>
      -- what `x` tells is on the channel before `f` begins
      rw [hxs] at hy
      rw [runLive_bind_ok hy, Session.run_bind_ok hxs, hf, recorder.text_append,
        String.append_assoc]

theorem telling_step (f : σ → α × σ) : (telling σ ε).Rel (Session.step f) (step f) := by
  intro recorder s written
  show _ = (Except.ok (f s).1, (f s).2, written ++ "")
  rw [runLive_step, String.append_empty]

end LiveSession

/-- The stream as a sink of a session that writes its events down. -/
def Output.Stream.liveSink {ε : Type} : Sink (LiveSession Stream ε) Fault where
  put text := LiveSession.step (·.put text)
  flush := LiveSession.step (·.flush)

namespace Command

theorem runLive_perform (settings : Settings) (input : ByteArray) (recorder : Log.Recorder)
    (s : Stream) (written : String) :
    (perform Stream.liveSink settings input).runLive recorder s written =
      (((perform Stream.sink settings input).run s).result,
        ((perform Stream.sink settings input).run s).state,
        written ++ recorder.text ((perform Stream.sink settings input).run s).events) :=
  (LiveSession.telling Stream (Failure Fault)).perform
    (fun _ => LiveSession.telling_step _) (LiveSession.telling_step _) settings input recorder s
    written

/-! ## Runs -/

/-- What a run does with its events. -/
def Invocation.recorder (invocation : Invocation) (settings : Settings) : Log.Recorder where
  filter :=
    (Log.Filter.configure invocation.patterns settings.threshold invocation.logSpec).1
  style := Log.Style.ofSetting invocation.logStyle

/-- The warnings that a run begins with. -/
def Invocation.warnings (invocation : Invocation) (settings : Settings) : String :=
  warningText (Log.Filter.configure invocation.patterns settings.threshold invocation.logSpec).2

/-- A run that writes its events down as they are told. -/
def runLive (invocation : Invocation) (settings : Settings) : Outcome :=
  let (result, stream, written) := (perform Stream.liveSink settings invocation.input).runLive
    (invocation.recorder settings) ⟨invocation.device, "", ""⟩ (invocation.warnings settings)
  let (code, report) := conclude result
  ⟨code, stream.received, written ++ report⟩

section

variable {invocation : Invocation} {settings : Settings}

theorem runLive_eq {result : Except (Failure Fault) Unit} {stream : Stream}
    {events : List Log.Event}
    (hwork : work settings invocation.input invocation.device = ⟨result, stream, events⟩) :
    runLive invocation settings = ⟨(conclude result).1, stream.received,
      invocation.warnings settings ++ (invocation.recorder settings).text events ++
        (conclude result).2⟩ := by
  unfold work at hwork
  rw [runLive, runLive_perform, hwork]

end

/-- The threshold of the log plays no part in the work. -/
theorem work_eq_work {settings settings' : Settings}
    (hstrategy : settings.strategy = settings'.strategy)
    (hlist : settings.listMoves = settings'.listMoves) (input : ByteArray) (device : Device) :
    work settings input device = work settings' input device := by
  unfold work perform
  rw [hstrategy, hlist]

/-- **The log has no say.** Two runs with the same input and the same device, whose arguments differ
at most in the threshold of the log, have the same exit code and the same output, whatever the
environment of either has for the log, and however either reads the pattern in it. Their work has the
same result and the same events. Each run writes its own warnings and its own choice of the events,
and after these the report, which is the same for both. A run that is to print the manual tells
nothing, and if the device does not take the manual the run breaks down with a message about the
fault. And it makes no difference that events are written down in the midst of the work. -/
theorem run_independent_of_log {i j : Invocation} {settings settings' : Settings}
    (hi : readArguments i.arguments = .ok settings)
    (hj : readArguments j.arguments = .ok settings')
    (hstrategy : settings.strategy = settings'.strategy)
    (hlist : settings.listMoves = settings'.listMoves)
    (hmanual : settings.manual = settings'.manual) (hinput : i.input = j.input)
    (hdevice : i.device = j.device) :
    (run i).code = (run j).code ∧ (run i).stdout = (run j).stdout ∧
    (∃ (events : List Log.Event) (report : String),
      (run i).stderr = i.warnings settings ++ (i.recorder settings).text events ++ report ∧
      (run j).stderr = j.warnings settings' ++ (j.recorder settings').text events ++ report ∧
      (settings.manual = true → events = [] ∧
        let printed := Stream.deliver ⟨i.device, "", ""⟩ [manualBody, "\n"]
        (run i).stdout = printed.2.received ∧
        (printed.1 = .ok () ∧ (run i).code = 0 ∧ report = "" ∨
          ∃ fault, printed.1 = .error fault ∧ (run i).code = 101 ∧
            report = "failed printing to stdout: " ++ fault.message)) ∧
      (settings.manual = false → ∃ result stream,
        work settings i.input i.device = ⟨result, stream, events⟩ ∧
        (result = .ok () ∧ (run i).code = 0 ∧ report = "" ∨
          ∃ failure : Failure Fault, result = .error failure ∧ (run i).code = 1 ∧
            report = failure.report Fault.message))) ∧
    (settings.manual = false → run i = runLive i settings ∧ run j = runLive j settings') := by
  by_cases hm : settings.manual = true
  · obtain ⟨code, stdout, message, hprinted, hend⟩ := printManual_eq i.device
    rw [run_of_manual hi hm, run_of_manual hj (hmanual ▸ hm), ← hdevice, hprinted, hprinted]
    refine ⟨rfl, rfl, ⟨[], message, ?_, ?_, fun _ => ⟨rfl, hend⟩, ?_⟩, ?_⟩
    · rw [Log.Recorder.text_nil, String.append_empty]
      rfl
    · rw [Log.Recorder.text_nil, String.append_empty]
      rfl
    · exact fun hm' => absurd hm (Bool.eq_false_iff.mp hm')
    · exact fun hm' => absurd hm (Bool.eq_false_iff.mp hm')
  · have hfalse : settings.manual = false := Bool.eq_false_iff.mpr hm
    match hwork : work settings i.input i.device with
    | ⟨result, stream, events⟩ =>
    have hwork' : work settings' j.input j.device = ⟨result, stream, events⟩ := by
      rw [← work_eq_work hstrategy hlist, ← hinput, ← hdevice, hwork]
    rw [runLive_eq hwork, runLive_eq hwork', run_eq_of_work hi hfalse hwork,
      run_eq_of_work hj (hmanual ▸ hfalse) hwork']
    refine ⟨rfl, rfl, ⟨events, (conclude result).2, rfl, rfl, fun hm' => absurd hm' hm,
      fun _ => ⟨result, stream, rfl, ?_⟩⟩, fun _ => ⟨rfl, rfl⟩⟩
    cases result with
    | ok => exact Or.inl ⟨rfl, rfl, rfl⟩
    | error failure => exact Or.inr ⟨failure, rfl, rfl, rfl⟩

/-- A listing on a full device, with the log turned up and in colour, and a filter whose pattern
cannot be read. -/
def listLoudly : Invocation where
  arguments := ["--log-level", "trace", "--print-moves"]
  input := "2".toUTF8
  logSpec := some "hanoi/("
  patterns := ⟨fun _ => .error "unclosed group"⟩
  logStyle := some "always"
  device := .full

/-- The same without a word about the log. -/
def listQuietly : Invocation where
  arguments := ["--print-moves"]
  input := "2".toUTF8
  device := .full

/-- The manual for a device that refuses it, at a level of the log. -/
def manualRefused (level : String) : Invocation where
  arguments := ["--markdown-help", "--log-level", level]
  input := "".toUTF8
  device := .refusing ⟨"Input/output error", 5⟩

theorem run_independent_of_log_full :
    readArguments listLoudly.arguments = .ok { threshold := .upTo .trace, listMoves := true } ∧
    readArguments listQuietly.arguments = .ok { listMoves := true } ∧
    (run listLoudly).code = (run listQuietly).code ∧
    (run listLoudly).stdout = (run listQuietly).stdout ∧
    (∃ log report,
      (run listLoudly).stderr =
        "warning: invalid regex filter - unclosed group\n" ++ log ++ report ∧
      ∃ log', (run listQuietly).stderr = log' ++ report) ∧
    run listLoudly = runLive listLoudly { threshold := .upTo .trace, listMoves := true } ∧
    (run (manualRefused "off")).code = 101 ∧
    (run (manualRefused "trace")).code = 101 := by
  have hi : readArguments listLoudly.arguments =
      .ok { threshold := .upTo .trace, listMoves := true } := rfl
  have hj : readArguments listQuietly.arguments = .ok { listMoves := true } := rfl
  obtain ⟨hcode, hstdout, ⟨events, report, hloud, hquiet, -⟩, hlive⟩ :=
    run_independent_of_log hi hj rfl rfl rfl rfl rfl
  have hwarned : listLoudly.warnings { threshold := .upTo .trace, listMoves := true } =
      "warning: invalid regex filter - unclosed group\n" := by decide
  rw [hwarned] at hloud
  have hoff : readArguments (manualRefused "off").arguments =
      .ok { threshold := .off, manual := true } := rfl
  have htrace : readArguments (manualRefused "trace").arguments =
      .ok { threshold := .upTo .trace, manual := true } := rfl
  obtain ⟨hsame, -, ⟨_, _, -, -, hmanual, -⟩, -⟩ :=
    run_independent_of_log hoff htrace rfl rfl rfl rfl rfl
  have hbroken : (run (manualRefused "off")).code = 101 := by
    rcases (hmanual rfl).2.2 with ⟨hok, -⟩ | ⟨fault, -, hcode, -⟩
    · cases hok
    · exact hcode
  exact ⟨hi, hj, hcode, hstdout, ⟨_, report, hloud, _, hquiet⟩, (hlive rfl).1, hbroken,
    hsame.symm.trans hbroken⟩

end Command

end TowerOfHanoi
