import TowerOfHanoi.Proofs.Outcome
import TowerOfHanoi.Proofs.Simulation

/-!
# When output fails

A listing is handed to its sink line by line. For a writer that may fail at any text and change its
state in any way, `Takes` says that it takes a number of texts, and `FailsAfter` that it fails at one
of them. One of the two is the case, and either of them settles what a listing does: which lines the
writer is given, in which state it is left, and how the listing ends.

Behind a buffer a device that takes nothing is noticed late. Its first failure is that of the line
that no longer fits, or of the count, or comes only when the buffer is flushed at the very end.
-/

namespace TowerOfHanoi

open Output Command

/-! ## Writers -/

namespace Output

variable {σ ω : Type}

/-- A sink out of two steps on a state, one for writing a text and one for flushing. -/
def Sink.ofSteps {ε : Type} (write : String → σ → Except ω Unit × σ)
    (flush : σ → Except ω Unit × σ) : Sink (Session σ ε) ω where
  put text := Session.step (write text)
  flush := Session.step flush

/-- The writer with a list beside its state, on which it puts every text before it is written. -/
def noting (write : String → σ → Except ω Unit × σ) (text : String) (s : σ × List String) :
    Except ω Unit × σ × List String :=
  ((write text s.1).1, (write text s.1).2, s.2 ++ [text])

/-- From state `s` the writer takes all of the texts, and is in state `t` after that. -/
inductive Takes (write : String → σ → Except ω Unit × σ) : σ → List String → σ → Prop
  | nil (s : σ) : Takes write s [] s
  | cons {s t u : σ} {text : String} {rest : List String} :
      write text s = (.ok (), t) → Takes write t rest u → Takes write s (text :: rest) u

/-- From state `s` the writer takes the texts in `before`, and then fails with `fault` at `text` and
is left in state `t`. -/
def FailsAfter (write : String → σ → Except ω Unit × σ) (s : σ) (before : List String)
    (text : String) (fault : ω) (t : σ) : Prop :=
  ∃ u, Takes write s before u ∧ write text u = (.error fault, t)

variable {write : String → σ → Except ω Unit × σ} {s t : σ} {texts : List String}

theorem FailsAfter.cons {u : σ} {first text : String} {before : List String} {fault : ω}
    (h : write first s = (.ok (), u)) (hrest : FailsAfter write u before text fault t) :
    FailsAfter write s (first :: before) text fault t := by
  obtain ⟨v, hbefore, htext⟩ := hrest
  exact ⟨v, .cons h hbefore, htext⟩

/-- A writer takes all texts or fails at one of them. -/
theorem takes_or_fails (write : String → σ → Except ω Unit × σ) (s : σ) (texts : List String) :
    (∃ t, Takes write s texts t) ∨
      ∃ before text after fault t, texts = before ++ text :: after ∧
        FailsAfter write s before text fault t := by
  induction texts generalizing s with
  | nil => exact Or.inl ⟨s, .nil s⟩
  | cons first rest ih =>
    match hfirst : write first s with
    | (.error fault, t) => exact Or.inr ⟨[], first, rest, fault, t, rfl, s, .nil s, hfirst⟩
    | (.ok (), u) =>
      rcases ih u with ⟨t, hrest⟩ | ⟨before, text, after, fault, t, rfl, hfails⟩
      · exact Or.inl ⟨t, .cons hfirst hrest⟩
      · exact Or.inr ⟨first :: before, text, after, fault, t, rfl, hfails.cons hfirst⟩

theorem noting_eq {text : String} {result : Except ω Unit} (h : write text s = (result, t))
    (seen : List String) : noting write text (s, seen) = (result, t, seen ++ [text]) := by
  simp only [noting, h]

/-- With a list it takes the same texts, and has put all of them there. -/
theorem Takes.noting (h : Takes write s texts t) (seen : List String) :
    Takes (noting write) (s, seen) texts (t, seen ++ texts) := by
  induction h generalizing seen with
  | nil s =>
    rw [List.append_nil]
    exact .nil _
  | @cons s t u text rest hfirst hrest ih =>
    rw [List.append_cons]
    exact .cons (noting_eq hfirst seen) (ih (seen ++ [text]))

/-- It fails at the same text, which is then the last on the list. -/
theorem FailsAfter.noting {before : List String} {text : String} {fault : ω}
    (h : FailsAfter write s before text fault t) (seen : List String) :
    FailsAfter (noting write) (s, seen) before text fault (t, seen ++ before ++ [text]) := by
  obtain ⟨u, hbefore, htext⟩ := h
  exact ⟨(u, seen ++ before), hbefore.noting seen, noting_eq htext _⟩

/-- The observer of a sink keeps the list beside the writer. -/
theorem Sink.overheard_ofSteps {ε : Type} (write : String → σ → Except ω Unit × σ)
    (flush : σ → Except ω Unit × σ) :
    (ofSteps write flush : Sink (Session σ ε) ω).overheard =
      ofSteps (noting write) fun s => ((flush s.1).1, (flush s.1).2, s.2) :=
  rfl

end Output

/-! ## Listing to a writer -/

namespace Command

/-- The lines of a listing, one for each move. -/
def moveLines (walk : List Move) : List String := walk.map fun move => move.text ++ "\n"

theorem moveLines_cons (move : Move) (rest : List Move) :
    moveLines (move :: rest) = (move.text ++ "\n") :: moveLines rest := rfl

theorem exists_of_moveLines_eq {walk : List Move} {before after : List String} {text : String}
    (h : moveLines walk = before ++ text :: after) :
    ∃ ms m ns, walk = ms ++ m :: ns ∧ before = moveLines ms ∧ text = m.text ++ "\n" := by
  obtain ⟨ms, rest, rfl, rfl, hrest⟩ := List.map_eq_append_iff.mp h
  obtain ⟨m, ns, rfl, rfl, -⟩ := List.map_eq_cons_iff.mp hrest
  exact ⟨ms, m, ns, rfl, rfl, rfl⟩

section

variable {σ ω : Type} {write : String → σ → Except ω Unit × σ} {flush : σ → Except ω Unit × σ}
  {s t : σ}

/-- A write that fails is blamed on the fault. -/
theorem run_expect_error (blame : ω → Failure ω) (step : σ → Except ω Unit × σ) {fault : ω}
    (h : step s = (.error fault, t)) :
    (expect blame (Session.step step) : Session σ (Failure ω) Unit).run s =
      ⟨.error (blame fault), t, []⟩ := by
  have hstep : (Session.step step : Session σ (Failure ω) _).run s = ⟨.ok (.error fault), t, []⟩ := by
    rw [Session.run_step, h]
  unfold expect
  rw [Session.run_bind_ok hstep]
  rfl

/-- All moves are heard if the writer takes their lines. -/
theorem hear_of_takes {walk : List Move} (h : Takes write s (moveLines walk) t) :
    hear (writeMove (Sink.ofSteps write flush)) walk s = ⟨walk, t, [], none⟩ := by
  induction walk generalizing s with
  | nil =>
    cases h
    rfl
  | cons move rest ih =>
    cases h with
    | cons hfirst hrest =>
      have hmove := run_expect_ok .moveNotWritten (write (move.text ++ "\n")) hfirst
      rw [hear_cons_of_ok rest hmove, ih hrest]
      rfl

/-- Where the writer fails, that move is the last to be heard, and is rejected. -/
theorem hear_of_failsAfter {before : List Move} {move : Move} {fault : ω}
    (h : FailsAfter write s (moveLines before) (move.text ++ "\n") fault t) (after : List Move) :
    hear (writeMove (Sink.ofSteps write flush)) (before ++ move :: after) s =
      ⟨before ++ [move], t, [], some (.moveNotWritten fault)⟩ := by
  obtain ⟨u, hbefore, hfails⟩ := h
  induction before generalizing s with
  | nil =>
    cases hbefore
    exact hear_cons_of_error after
      (run_expect_error .moveNotWritten (write (move.text ++ "\n")) hfails)
  | cons first before ih =>
    cases hbefore with
    | cons hfirst hrest =>
      have hmove := run_expect_ok .moveNotWritten (write (first.text ++ "\n")) hfirst
      rw [List.cons_append, hear_cons_of_ok _ hmove, ih hrest]
      rfl

variable {disks : Nat}

theorem run_listMoves_of_takes (strategy : Strategy) (hle : disks ≤ maxWalkedDisks)
    (h : Takes write s (moveLines (moves disks .a .b .c)) t) :
    (listMoves (Sink.ofSteps write flush) strategy disks).run s =
      ⟨.ok (moveCount disks), t, listingWarnings strategy ++
        [.solving disks, .solved disks (UInt64.ofNat (moveCount disks))]⟩ := by
  have hsolve := run_solve_of_le Failure.unlistable (writeMove (Sink.ofSteps write flush)) hle s
  rw [hear_of_takes h, ← moveCount_eq] at hsolve
  rw [run_listMoves strategy hsolve, Except.map, toNat_ofNat_moveCount hle]
  rfl

theorem run_listMoves_of_failsAfter (strategy : Strategy) (hle : disks ≤ maxWalkedDisks)
    {before after : List String} {text : String} {fault : ω}
    (hlines : moveLines (moves disks .a .b .c) = before ++ text :: after)
    (h : FailsAfter write s before text fault t) :
    (listMoves (Sink.ofSteps write flush) strategy disks).run s =
      ⟨.error (.moveNotWritten fault), t, listingWarnings strategy ++ [.solving disks]⟩ := by
  obtain ⟨ms, m, ns, hmoves, rfl, rfl⟩ := exists_of_moveLines_eq hlines
  have hsolve := run_solve_of_le Failure.unlistable (writeMove (Sink.ofSteps write flush)) hle s
  rw [hmoves, hear_of_failsAfter h] at hsolve
  rw [run_listMoves strategy hsolve]
  rfl

/-- Who observes the writer sees all lines, if it takes them. -/
theorem run_listMoves_overheard_of_takes (flush : σ → Except ω Unit × σ) (strategy : Strategy)
    (hle : disks ≤ maxWalkedDisks) (h : Takes write s (moveLines (moves disks .a .b .c)) t) :
    ∃ events, (listMoves (Sink.ofSteps write flush).overheard strategy disks).run (s, []) =
      ⟨.ok (2 ^ disks - 1), (t, moveLines (moves disks .a .b .c)), events⟩ := by
  rw [Sink.overheard_ofSteps, run_listMoves_of_takes strategy hle (h.noting []), moveCount_eq]
  exact ⟨_, rfl⟩

/-- Otherwise the line that fails is the last one to be seen. -/
theorem run_listMoves_overheard_of_failsAfter (flush : σ → Except ω Unit × σ)
    (strategy : Strategy) (hle : disks ≤ maxWalkedDisks) {before after : List String} {text : String} {fault : ω}
    (hlines : moveLines (moves disks .a .b .c) = before ++ text :: after)
    (h : FailsAfter write s before text fault t) :
    ∃ events, (listMoves (Sink.ofSteps write flush).overheard strategy disks).run (s, []) =
      ⟨.error (.moveNotWritten fault), (t, before ++ [text]), events⟩ := by
  rw [Sink.overheard_ofSteps, run_listMoves_of_failsAfter strategy hle hlines (h.noting [])]
  exact ⟨_, rfl⟩

/-- The writer is given one line for each move that the walk shows. -/
theorem moveLines_shown_of_failsAfter (hle : disks ≤ maxWalkedDisks)
    {before after : List String} {text : String} {fault : ω}
    (hlines : moveLines (moves disks .a .b .c) = before ++ text :: after)
    (h : FailsAfter write s before text fault t) :
    moveLines (shown Failure.unlistable (writeMove (Sink.ofSteps write flush)) disks s) =
      before ++ [text] := by
  obtain ⟨ms, m, ns, hmoves, rfl, rfl⟩ := exists_of_moveLines_eq hlines
  rw [shown_of_le _ _ hle, hmoves, hear_of_failsAfter h, moveLines, List.map_append]
  rfl

theorem moveLines_shown_of_takes (hle : disks ≤ maxWalkedDisks)
    (h : Takes write s (moveLines (moves disks .a .b .c)) t) :
    moveLines (shown Failure.unlistable (writeMove (Sink.ofSteps write flush)) disks s) =
      moveLines (moves disks .a .b .c) := by
  rw [shown_of_le _ _ hle, hear_of_takes h]

end

end Command

/-! ## A device that takes nothing -/

namespace Output

/-- Every write to the device fails, with this fault. -/
def Device.Refuses (device : Device) (fault : Fault) : Prop :=
  ∀ chunk, device.write chunk = .error fault

/-- What does not fit into the buffer leaves something to be sent on. -/
theorem chunks_push_ne_nil {collected text : String}
    (h : ¬(collected.utf8ByteSize + text.utf8ByteSize ≤ capacity ∧
      text.utf8ByteSize < capacity)) : (push collected text).chunks ≠ [] := by
  by_cases small : text.utf8ByteSize < capacity
  · have hover : ¬collected.utf8ByteSize + text.utf8ByteSize ≤ capacity := fun fits => h ⟨fits, small⟩
    have hne : collected ≠ "" := by
      rintro rfl
      rw [String.utf8ByteSize_empty] at hover
      omega
    simp [push, hover, small, chunked, hne]
  · simp [push, small]

theorem push_of_fits {collected text : String}
    (fits : collected.utf8ByteSize + text.utf8ByteSize ≤ capacity)
    (small : text.utf8ByteSize < capacity) : push collected text = ⟨[], collected ++ text⟩ := by
  simp [push, fits, small]

namespace Stream

variable {device : Device} {fault : Fault} {received collected : String}

/-- A text that fits is collected. The device plays no part in it. -/
theorem put_of_fits {text : String}
    (fits : collected.utf8ByteSize + text.utf8ByteSize ≤ capacity)
    (small : text.utf8ByteSize < capacity) :
    put ⟨device, received, collected⟩ text = (.ok (), ⟨device, received, collected ++ text⟩) := by
  rw [put, push_of_fits fits small]
  rfl

theorem handOver_of_refuses (hdevice : device.Refuses fault) {handover : Handover}
    (h : handover.chunks ≠ []) :
    handOver ⟨device, received, collected⟩ handover =
      (.error fault, ⟨device, received, collected⟩) := by
  obtain ⟨chunks, kept⟩ := handover
  cases chunks with
  | nil => exact absurd rfl h
  | cons chunk rest => simp only [handOver, deliver, hdevice chunk]

/-- A text that does not fit is refused, and nothing changes. -/
theorem put_of_refuses (hdevice : device.Refuses fault) {text : String}
    (h : ¬(collected.utf8ByteSize + text.utf8ByteSize ≤ capacity ∧
      text.utf8ByteSize < capacity)) :
    put ⟨device, received, collected⟩ text =
      (.error fault, ⟨device, received, collected⟩) := by
  rw [put, handOver_of_refuses hdevice (chunks_push_ne_nil h)]

theorem flush_of_refuses (hdevice : device.Refuses fault) (h : collected ≠ "") :
    flush ⟨device, received, collected⟩ = (.error fault, ⟨device, received, collected⟩) := by
  apply handOver_of_refuses hdevice
  simp [drain, chunked, h]

/-- The stream as a writer. -/
def write (text : String) (stream : Stream) : Except Fault Unit × Stream := stream.put text

theorem sink_eq {ε : Type} :
    (sink : Sink (Session Stream ε) Fault) = Sink.ofSteps write Stream.flush :=
  rfl

end Stream

end Output

namespace Command

/-- Every line of a listing has 13 bytes. -/
theorem utf8ByteSize_line (move : Move) : (move.text ++ "\n").utf8ByteSize = 13 := by
  obtain ⟨disk, src, dst⟩ := move
  cases src <;> cases dst <;> rfl

theorem utf8ByteSize_listing (walk : List Move) :
    (listing walk).utf8ByteSize = 13 * walk.length := by
  induction walk with
  | nil => rfl
  | cons move rest ih =>
    rw [listing_cons, String.utf8ByteSize_append, utf8ByteSize_line, ih, List.length_cons]
    omega

section

variable {device : Device} {fault : Fault}

/-- As long as the lines fit into the buffer, they are taken. -/
theorem takes_of_fits {received collected : String} {walk : List Move}
    (h : collected.utf8ByteSize + 13 * walk.length ≤ capacity) :
    Takes Stream.write ⟨device, received, collected⟩ (moveLines walk)
      ⟨device, received, collected ++ listing walk⟩ := by
  induction walk generalizing collected with
  | nil =>
    rw [show listing [] = "" from rfl, String.append_empty]
    exact .nil _
  | cons move rest ih =>
    rw [List.length_cons] at h
    have hline := utf8ByteSize_line move
    have hput : Stream.write (move.text ++ "\n") ⟨device, received, collected⟩ = _ :=
      Stream.put_of_fits (by omega) (by rw [hline]; decide)
    rw [moveLines_cons, listing_cons, ← String.append_assoc]
    refine .cons hput (ih ?_)
    rw [String.utf8ByteSize_append, hline]
    omega

/-- After 630 lines, which have 8190 bytes, the next one is refused. -/
theorem failsAfter_of_refuses (hdevice : device.Refuses fault) {walk : List Move}
    (h : capacity < 13 * walk.length) :
    ∃ text after, moveLines walk = moveLines (walk.take 630) ++ text :: after ∧
      moveLines (walk.take 631) = moveLines (walk.take 630) ++ [text] ∧
      FailsAfter Stream.write ⟨device, "", ""⟩ (moveLines (walk.take 630))
        text fault ⟨device, "", listing (walk.take 630)⟩ := by
  have hcapacity : capacity = 8192 := rfl
  have hlength : 630 < walk.length := by omega
  have htake : (walk.take 630).length = 630 := List.length_take_of_le (by omega)
  have hsize : (listing (walk.take 630)).utf8ByteSize = 8190 := by
    rw [utf8ByteSize_listing, htake]
  refine ⟨walk[630].text ++ "\n", moveLines (walk.drop 631), ?_, ?_, ?_⟩
  · unfold moveLines
    rw [← List.map_cons (f := fun move : Move => move.text ++ "\n"), ← List.map_append,
      List.getElem_cons_drop, List.take_append_drop]
  · rw [← List.take_append_getElem hlength]
    exact List.map_append
  · refine ⟨⟨device, "", "" ++ listing (walk.take 630)⟩, takes_of_fits ?_, ?_⟩
    · rw [htake]
      decide
    · -- the buffer has two bytes left, and a line needs thirteen
      rw [String.empty_append]
      apply Stream.put_of_refuses hdevice
      rw [hsize, utf8ByteSize_line]
      omega

end

/-! ## A run on a device that takes nothing -/

section

variable {settings : Settings} {text : String} {disks : Nat}

theorem run_perform_of_reckon_error {σ ω : Type} {sink : Sink (Session σ (Failure ω)) ω} {s t : σ}
    {failure : Failure ω} {events : List Log.Event} (hread : DiskCount.read text = .ok disks)
    (h : (reckon sink settings disks).run s = ⟨.error failure, t, events⟩) :
    (perform sink settings text.toUTF8).run s =
      ⟨.error failure, t, .diskCountRead disks :: events⟩ := by
  rw [perform_eq, Session.run_bind_ok (run_diskCount_of_ok hread s),
    Session.run_bind_ok (Session.run_log _ _), Session.run_bind_error h]
  rfl

variable {device : Device} {fault : Fault}

/-- The last line does not get through. If it is not refused at once, it is when the buffer is
flushed. -/
theorem run_answer_of_refuses (hdevice : device.Refuses fault) (collected : String)
    (seen : List String) {line : String} (hline : line ≠ "") :
    ∃ stream, (do
      expect .countNotWritten (Stream.sink.overheard.put line)
      expect .countNotWritten Stream.sink.overheard.flush :
        Session (Stream × List String) (Failure Fault) Unit).run (⟨device, "", collected⟩, seen) =
      ⟨.error (.countNotWritten fault), (stream, seen ++ [line]), []⟩ := by
  by_cases hfits : collected.utf8ByteSize + line.utf8ByteSize ≤ capacity ∧
      line.utf8ByteSize < capacity
  · refine ⟨⟨device, "", collected ++ line⟩, ?_⟩
    have hput : Stream.write line ⟨device, "", collected⟩ = _ :=
      Stream.put_of_fits hfits.1 hfits.2
    have hwritten :
        (expect .countNotWritten (Stream.sink.overheard.put line) :
          Session (Stream × List String) (Failure Fault) Unit).run (⟨device, "", collected⟩, seen) =
          ⟨.ok (), (⟨device, "", collected ++ line⟩, seen ++ [line]), []⟩ :=
      run_expect_ok _ (noting Stream.write line) (noting_eq hput seen)
    have hflushed :
        (expect .countNotWritten Stream.sink.overheard.flush :
          Session (Stream × List String) (Failure Fault) Unit).run
            (⟨device, "", collected ++ line⟩, seen ++ [line]) =
          ⟨.error (.countNotWritten fault),
            (⟨device, "", collected ++ line⟩, seen ++ [line]), []⟩ := by
      refine run_expect_error _
        (fun s : Stream × List String => (s.1.flush.1, s.1.flush.2, s.2)) ?_
      simp only [Stream.flush_of_refuses hdevice (show collected ++ line ≠ "" by simp [hline])]
    rw [Session.run_bind_ok hwritten, hflushed]
    rfl
  · refine ⟨⟨device, "", collected⟩, ?_⟩
    have hput : Stream.write line ⟨device, "", collected⟩ = _ := Stream.put_of_refuses hdevice hfits
    exact Session.run_bind_error
      (run_expect_error _ (noting Stream.write line) (noting_eq hput seen))

theorem run_perform_of_reckon_ok (hdevice : device.Refuses fault) {collected : String}
    {seen : List String} {count : Nat} {events : List Log.Event}
    (hread : DiskCount.read text = .ok disks)
    (h : (reckon Stream.sink.overheard settings disks).run (⟨device, "", ""⟩, []) =
      ⟨.ok count, (⟨device, "", collected⟩, seen), events⟩) :
    ∃ stream, (perform Stream.sink.overheard settings text.toUTF8).run (⟨device, "", ""⟩, []) =
      ⟨.error (.countNotWritten fault), (stream, seen ++ [toString count ++ "\n"]),
        .diskCountRead disks :: events⟩ := by
  obtain ⟨stream, hanswer⟩ := run_answer_of_refuses hdevice collected seen
    (show toString count ++ "\n" ≠ "" by simp)
  refine ⟨stream, ?_⟩
  rw [perform_eq, Session.run_bind_ok (run_diskCount_of_ok hread _),
    Session.run_bind_ok (Session.run_log _ _), Session.run_bind_ok h, hanswer, List.append_nil]
  rfl

/-- The lines of the listing do not all fit into the buffer. -/
def OverflowsBuffer (settings : Settings) (disks : Nat) : Prop :=
  settings.listMoves = true ∧ 13 * (2 ^ disks - 1) > 8192

theorem OverflowsBuffer.capacity_lt (h : OverflowsBuffer settings disks) :
    capacity < 13 * (moves disks .a .b .c).length := by
  rw [length_moves]
  exact h.2

/-- A listing that does not fit ends at its 631st line. -/
theorem run_reckon_of_overflows (hdevice : device.Refuses fault) (hle : disks ≤ maxWalkedDisks)
    (h : OverflowsBuffer settings disks) :
    ∃ stream, (reckon Stream.sink.overheard settings disks).run (⟨device, "", ""⟩, []) =
      ⟨.error (.moveNotWritten fault), (stream, moveLines ((moves disks .a .b .c).take 631)),
        listingWarnings settings.strategy ++ [.solving disks]⟩ := by
  obtain ⟨line, after, hlines, htaken, hfails⟩ := failsAfter_of_refuses hdevice h.capacity_lt
  refine ⟨⟨device, "", listing ((moves disks .a .b .c).take 630)⟩, ?_⟩
  unfold reckon
  rw [if_pos h.1, Stream.sink_eq, Sink.overheard_ofSteps,
    run_listMoves_of_failsAfter settings.strategy hle hlines (hfails.noting []), htaken,
    List.nil_append]

theorem length_shown_of_overflows (hdevice : device.Refuses fault) (hle : disks ≤ maxWalkedDisks)
    (h : OverflowsBuffer settings disks) :
    (shown Failure.unlistable (writeMove Stream.sink) disks ⟨device, "", ""⟩).length = 631 := by
  obtain ⟨line, after, hlines, htaken, hfails⟩ := failsAfter_of_refuses hdevice h.capacity_lt
  have hshown : moveLines (shown Failure.unlistable (writeMove Stream.sink) disks
      ⟨device, "", ""⟩) = moveLines ((moves disks .a .b .c).take 631) := by
    rw [htaken, Stream.sink_eq]
    exact moveLines_shown_of_failsAfter hle hlines hfails
  have hlength := congrArg List.length hshown
  rw [moveLines, moveLines, List.length_map, List.length_map, List.length_take] at hlength
  have hlong := h.capacity_lt
  have hcapacity : capacity = 8192 := rfl
  omega

/-- Otherwise the count is found, and no line has been refused yet. -/
theorem run_reckon_of_not_overflows (device : Device)
    (hfeasible : disks ≤ maxWalkedDisks ∨ ¬settings.Walks) (h : ¬OverflowsBuffer settings disks) :
    ∃ collected events, (reckon Stream.sink.overheard settings disks).run (⟨device, "", ""⟩, []) =
        ⟨.ok (moveCount disks), (⟨device, "", collected⟩,
          if settings.listMoves then moveLines (moves disks .a .b .c) else []), events⟩ ∧
      (settings.Walks → .solved disks (UInt64.ofNat (moveCount disks)) ∈ events) := by
  unfold reckon
  by_cases hlist : settings.listMoves = true
  · have hle : disks ≤ maxWalkedDisks :=
      hfeasible.resolve_right fun hwalks => hwalks (Or.inl hlist)
    have hshort : "".utf8ByteSize + 13 * (moves disks .a .b .c).length ≤ capacity := by
      rw [length_moves, String.utf8ByteSize_empty, Nat.zero_add]
      exact Nat.le_of_not_lt fun hlong => h ⟨hlist, hlong⟩
    have htakes : Takes Stream.write ⟨device, "", ""⟩ (moveLines (moves disks .a .b .c)) _ :=
      takes_of_fits hshort
    rw [if_pos hlist, if_pos hlist, Stream.sink_eq, Sink.overheard_ofSteps]
    exact ⟨_, _, run_listMoves_of_takes settings.strategy hle (htakes.noting []),
      fun _ => by simp⟩
  · rw [if_neg hlist, if_neg hlist]
    by_cases hstrategy : settings.strategy = .recursive
    · have hle : disks ≤ maxWalkedDisks :=
        hfeasible.resolve_right fun hwalks => hwalks (Or.inr hstrategy)
      rw [hstrategy]
      exact ⟨"", _, run_count_recursive_of_le _ hle _, fun _ => by simp⟩
    · refine ⟨"", _, run_count_of_ne_recursive _ hstrategy disks _, ?_⟩
      rintro (hlist' | hstrategy')
      · exact absurd hlist' hlist
      · exact absurd hstrategy' hstrategy

/-- A run whose listing does not fit fails at its 631st line. -/
theorem run_perform_of_overflows (hdevice : device.Refuses fault)
    (hread : DiskCount.read text = .ok disks) (hle : disks ≤ maxWalkedDisks)
    (h : OverflowsBuffer settings disks) :
    ∃ stream events,
      (perform Stream.sink.overheard settings text.toUTF8).run (⟨device, "", ""⟩, []) =
        ⟨.error (.moveNotWritten fault), (stream, moveLines ((moves disks .a .b .c).take 631)),
          events⟩ ∧
      ∀ n total, .solved n total ∉ events := by
  obtain ⟨stream, hreckon⟩ := run_reckon_of_overflows hdevice hle h
  refine ⟨stream, _, run_perform_of_reckon_error hread hreckon, fun n total => ?_⟩
  unfold listingWarnings
  split <;> simp

/-- Any other run fails at its last line, or when the buffer is flushed after it. -/
theorem run_perform_of_not_overflows (hdevice : device.Refuses fault)
    (hread : DiskCount.read text = .ok disks) (hfeasible : disks ≤ maxWalkedDisks ∨ ¬settings.Walks)
    (h : ¬OverflowsBuffer settings disks) :
    ∃ stream events,
      (perform Stream.sink.overheard settings text.toUTF8).run (⟨device, "", ""⟩, []) =
        ⟨.error (.countNotWritten fault),
          (stream, (if settings.listMoves then moveLines (moves disks .a .b .c) else []) ++
            [toString (2 ^ disks - 1) ++ "\n"]), events⟩ ∧
      (settings.Walks → ∃ total : UInt64, total.toNat = 2 ^ disks - 1 ∧
        .solved disks total ∈ events) := by
  obtain ⟨collected, events, hreckon, hsolved⟩ := run_reckon_of_not_overflows device hfeasible h
  obtain ⟨stream, hrun⟩ := run_perform_of_reckon_ok hdevice hread hreckon
  rw [moveCount_eq] at hrun
  refine ⟨stream, _, hrun, fun hwalks => ⟨_, ?_, List.mem_cons_of_mem _ (hsolved hwalks)⟩⟩
  rw [toNat_ofNat_moveCount (hfeasible.resolve_right (not_not_intro hwalks)), moveCount_eq]

theorem report_moveNotWritten {ω : Type} (describe : ω → String) (fault : ω) :
    (Failure.moveNotWritten fault).report describe =
      "Error: failed to write the move list" ++ ("\n\nCaused by:\n    " ++ describe fault) := by
  show "Error: " ++ "failed to write the move list" ++ _ = _
  rw [show "Error: " ++ "failed to write the move list" =
    "Error: failed to write the move list" by decide]
  rfl

theorem report_countNotWritten {ω : Type} (describe : ω → String) (fault : ω) :
    (Failure.countNotWritten fault).report describe = "Error: " ++ describe fault := by
  show "Error: " ++ describe fault ++ "" = _
  rw [String.append_empty]

/-- A failure gives code 1 and is reported after everything else. -/
theorem run_of_failure {invocation : Invocation} {stream : Stream} {failure : Failure Fault}
    {events : List Log.Event} (hread : readArguments invocation.arguments = .ok settings)
    (hmanual : settings.manual = false)
    (h : work settings invocation.input invocation.device = ⟨.error failure, stream, events⟩) :
    (run invocation).code = 1 ∧
      (run invocation).stderr =
        warningText
            (Log.Filter.configure invocation.patterns settings.threshold invocation.logSpec).2 ++
          eventText
            (Log.Filter.configure invocation.patterns settings.threshold invocation.logSpec).1
            (Log.Style.ofSetting invocation.logStyle) events ++
          failure.report Fault.message := by
  rw [run_eq_of_work hread hmanual h]
  exact ⟨rfl, rfl⟩

end

/-- **A failed write is never passed over.** A listing to any writer hands it the lines of the moves
in order, and the first line that fails is the last that is handed over and the last move that the
walk shows. The listing fails with that fault, under the headline for the list of moves, if there is
such a line, and gives the number of moves if there is none.

A run on a device that takes nothing ends with code 1. If its listing does not fit into the buffer,
it fails under that headline, after 631 moves and without having told that the walk is complete.
Otherwise the walk is completed, if there is one, and the fault of the device is reported alone. -/
theorem failed_write_reported :
    (∀ {σ ω : Type} (write : String → σ → Except ω Unit × σ) (flush : σ → Except ω Unit × σ)
      (strategy : Strategy) (disks : Nat) (s : σ), disks ≤ 64 →
      let sink : Sink (Session σ (Failure ω)) ω := Sink.ofSteps write flush
      let lines := moveLines (moves disks .a .b .c)
      ∃ result t handed events,
        (listMoves sink.overheard strategy disks).run (s, []) = ⟨result, (t, handed), events⟩ ∧
        (listMoves sink strategy disks).run s = ⟨result, t, events⟩ ∧
        handed = moveLines (shown Failure.unlistable (writeMove sink) disks s) ∧
        (result = .ok (2 ^ disks - 1) ↔ ∃ u, Takes write s lines u) ∧
        (∀ u, Takes write s lines u → t = u ∧ handed = lines) ∧
        (∀ failure, result = .error failure ↔
          ∃ before text after fault u, lines = before ++ text :: after ∧
            FailsAfter write s before text fault u ∧ failure = .moveNotWritten fault) ∧
        ∀ before text after fault u, lines = before ++ text :: after →
          FailsAfter write s before text fault u → t = u ∧ handed = before ++ [text]) ∧
    (∀ {ω : Type} (describe : ω → String) (fault : ω),
      (Failure.moveNotWritten fault).report describe =
        "Error: failed to write the move list" ++ ("\n\nCaused by:\n    " ++ describe fault) ∧
      (Failure.countNotWritten fault).report describe = "Error: " ++ describe fault) ∧
    ∀ (invocation : Invocation) (settings : Settings) (text : String) (disks : Nat) (fault : Fault),
      invocation.device.Refuses fault → readArguments invocation.arguments = .ok settings →
      settings.manual = false → text.toUTF8 = invocation.input → DiskCount.read text = .ok disks →
      ∃ failure stream handed events,
        (perform Stream.sink.overheard settings invocation.input).run
          (⟨invocation.device, "", ""⟩, []) = ⟨.error failure, (stream, handed), events⟩ ∧
        work settings invocation.input invocation.device = ⟨.error failure, stream, events⟩ ∧
        (run invocation).code = 1 ∧
        (run invocation).stderr =
          warningText
              (Log.Filter.configure invocation.patterns settings.threshold invocation.logSpec).2 ++
            eventText
              (Log.Filter.configure invocation.patterns settings.threshold invocation.logSpec).1
              (Log.Style.ofSetting invocation.logStyle) events ++
            failure.report Fault.message ∧
        (disks ≤ 64 ∨ ¬settings.Walks →
          ((∃ fault, failure = .moveNotWritten fault) ↔ OverflowsBuffer settings disks) ∧
          (OverflowsBuffer settings disks →
            failure = .moveNotWritten fault ∧
            handed = moveLines ((moves disks .a .b .c).take 631) ∧
            (shown Failure.unlistable (writeMove Stream.sink) disks
              ⟨invocation.device, "", ""⟩).length = 631 ∧
            ∀ n total, .solved n total ∉ events) ∧
          (¬OverflowsBuffer settings disks →
            failure = .countNotWritten fault ∧
            handed = (if settings.listMoves then moveLines (moves disks .a .b .c) else []) ++
              [toString (2 ^ disks - 1) ++ "\n"] ∧
            (settings.Walks → ∃ total : UInt64, total.toNat = 2 ^ disks - 1 ∧
              .solved disks total ∈ events))) := by
  refine ⟨?_, fun describe fault =>
    ⟨report_moveNotWritten describe fault, report_countNotWritten describe fault⟩, ?_⟩
  · intro σ ω write flush strategy disks s hle sink lines
    match hrun : (listMoves sink.overheard strategy disks).run (s, []) with
    | ⟨result, (t, handed), events⟩ =>
    have hforget := forget_run_listMoves_overheard sink strategy disks s []
    rw [hrun] at hforget
    have htakes : ∀ u, Takes write s lines u →
        result = .ok (2 ^ disks - 1) ∧ t = u ∧ handed = lines := by
      intro u hu
      obtain ⟨events', hrun'⟩ := run_listMoves_overheard_of_takes flush strategy hle hu
      cases hrun.symm.trans hrun'
      exact ⟨rfl, rfl, rfl⟩
    have hfails : ∀ before text after fault u, lines = before ++ text :: after →
        FailsAfter write s before text fault u →
        result = .error (.moveNotWritten fault) ∧ t = u ∧ handed = before ++ [text] := by
      intro before text after fault u hlines hu
      obtain ⟨events', hrun'⟩ :=
        run_listMoves_overheard_of_failsAfter flush strategy hle hlines hu
      cases hrun.symm.trans hrun'
      exact ⟨rfl, rfl, rfl⟩
    -- one of the two is the case, which gives the way back in both equivalences
    have hsettled := takes_or_fails write s lines
    refine ⟨result, t, handed, events, rfl, hforget.symm, ?_, ⟨?_, ?_⟩,
      fun u hu => (htakes u hu).2, fun failure => ⟨?_, ?_⟩,
      fun before text after fault u hlines hu => (hfails before text after fault u hlines hu).2⟩
    · rcases hsettled with ⟨u, hu⟩ | ⟨before, text, after, fault, u, hlines, hu⟩
      · rw [(htakes u hu).2.2, moveLines_shown_of_takes hle hu]
      · rw [(hfails before text after fault u hlines hu).2.2,
          moveLines_shown_of_failsAfter hle hlines hu]
    · intro hok
      refine hsettled.resolve_right ?_
      rintro ⟨before, text, after, fault, u, hlines, hu⟩
      cases hok.symm.trans (hfails before text after fault u hlines hu).1
    · rintro ⟨u, hu⟩
      exact (htakes u hu).1
    · intro herror
      obtain ⟨before, text, after, fault, u, hlines, hu⟩ := hsettled.resolve_left (by
        rintro ⟨u, hu⟩
        cases herror.symm.trans (htakes u hu).1)
      cases herror.symm.trans (hfails before text after fault u hlines hu).1
      exact ⟨before, text, after, fault, u, hlines, hu, rfl⟩
    · rintro ⟨before, text, after, fault, u, hlines, hu, rfl⟩
      exact (hfails before text after fault u hlines hu).1
  · intro invocation settings text disks fault hdevice hread hmanual htext hcount
    match hrun : (perform Stream.sink.overheard settings invocation.input).run
      (⟨invocation.device, "", ""⟩, []) with
    | ⟨result, (stream, handed), events⟩ =>
    have hforget : work settings invocation.input invocation.device = ⟨result, stream, events⟩ := by
      rw [work, ← forget_run_perform_overheard Stream.sink settings invocation.input _ [], hrun]
      rfl
    rw [← htext] at hrun
    by_cases hfeasible : disks ≤ 64 ∨ ¬settings.Walks
    · by_cases hlong : OverflowsBuffer settings disks
      · have hle : disks ≤ 64 := hfeasible.resolve_right fun hwalks => hwalks (Or.inl hlong.1)
        obtain ⟨stream', events', hrun', hunsolved⟩ :=
          run_perform_of_overflows hdevice hcount hle hlong
        cases hrun.symm.trans hrun'
        obtain ⟨hcode, hstderr⟩ := run_of_failure hread hmanual hforget
        refine ⟨_, _, _, _, rfl, hforget, hcode, hstderr, fun _ => ⟨?_, fun _ => ?_, ?_⟩⟩
        · exact iff_of_true ⟨fault, rfl⟩ hlong
        · exact ⟨rfl, rfl, length_shown_of_overflows hdevice hle hlong, hunsolved⟩
        · exact fun hshort => absurd hlong hshort
      · obtain ⟨stream', events', hrun', hsolved⟩ :=
          run_perform_of_not_overflows hdevice hcount hfeasible hlong
        cases hrun.symm.trans hrun'
        obtain ⟨hcode, hstderr⟩ := run_of_failure hread hmanual hforget
        refine ⟨_, _, _, _, rfl, hforget, hcode, hstderr, fun _ => ⟨?_, ?_, fun _ => ?_⟩⟩
        · exact iff_of_false (by rintro ⟨fault', hfault⟩; cases hfault) hlong
        · exact fun hlong' => absurd hlong' hlong
        · exact ⟨rfl, rfl, hsolved⟩
    · -- too many disks for a walk, which is found out before anything is written
      have hinput : Unanswerable settings invocation.input := by
        obtain ⟨hgt, hwalks⟩ := not_or.mp hfeasible
        exact Or.inr ⟨text, htext, Or.inr ⟨disks, hcount, Nat.lt_of_not_le hgt,
          Classical.not_not.mp hwalks⟩⟩
      obtain ⟨failure, hresult, -⟩ := work_of_unanswerable hinput invocation.device
      rw [hforget] at hresult
      cases hresult
      obtain ⟨hcode, hstderr⟩ := run_of_failure hread hmanual hforget
      exact ⟨_, _, _, _, rfl, hforget, hcode, hstderr, fun h => absurd h hfeasible⟩

/-- A writer that takes as many texts as its state says. -/
def writeCounted (_ : String) : Nat → Except String Unit × Nat
  | 0 => (.error "no more", 0)
  | n + 1 => (.ok (), n)

/-- Ten disks, whose listing has 13299 bytes. -/
def listTenFull : Invocation where
  arguments := ["--print-moves"]
  input := "10".toUTF8
  device := .full

theorem failed_write_reported_ten :
    FailsAfter writeCounted 2 ["move A --> B\n", "move A --> C\n"] "move B --> C\n" "no more" 0 ∧
    ((listMoves (Sink.ofSteps writeCounted fun n => (.ok (), n)) .doubling 2).run 2).result =
      .error (.moveNotWritten "no more") ∧
    Device.full.Refuses .noSpace ∧
    readArguments listTenFull.arguments = .ok { listMoves := true } ∧
    DiskCount.read "10" = .ok 10 ∧ OverflowsBuffer { listMoves := true } 10 ∧
    (run listTenFull).code = 1 ∧
    (∃ log, (run listTenFull).stderr = log ++
      (Failure.moveNotWritten Fault.noSpace).report Fault.message) ∧
    (shown Failure.unlistable (writeMove Stream.sink) 10 ⟨.full, "", ""⟩).length = 631 := by
  have hfails : FailsAfter writeCounted 2 ["move A --> B\n", "move A --> C\n"] "move B --> C\n"
      "no more" 0 := ⟨0, .cons rfl (.cons rfl (.nil 0)), rfl⟩
  have hdevice : Device.full.Refuses .noSpace := fun _ => rfl
  have hread : readArguments listTenFull.arguments = .ok { listMoves := true } := rfl
  have hcount : DiskCount.read "10" = .ok 10 := rfl
  have hlong : OverflowsBuffer { listMoves := true } 10 := ⟨rfl, by decide⟩
  obtain ⟨hwriter, -, hrefused⟩ := failed_write_reported
  obtain ⟨result, t, handed, events, -, hlisted, -, -, -, herror, -⟩ :=
    hwriter writeCounted (fun n => (.ok (), n)) .doubling 2 2 (by decide)
  have hresult := (herror _).mpr ⟨_, _, [], _, _, rfl, hfails, rfl⟩
  obtain ⟨failure, stream, handed', events', -, -, hcode, hstderr, hfeasible⟩ :=
    hrefused listTenFull { listMoves := true } "10" 10 .noSpace hdevice hread rfl rfl hcount
  obtain ⟨rfl, -, hshown, -⟩ := (hfeasible (Or.inl (by decide))).2.1 hlong
  exact ⟨hfails, by rw [hlisted, hresult], hdevice, hread, hcount, hlong, hcode, ⟨_, hstderr⟩,
    hshown⟩

end Command

end TowerOfHanoi
