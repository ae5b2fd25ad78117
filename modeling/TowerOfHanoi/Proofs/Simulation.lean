import TowerOfHanoi.Command.Perform
import TowerOfHanoi.Proofs.Listening

/-!
# The same work in two monads

The work of a run is written once, for any monad that can fail and tell events and any sink for its
output. So whatever relates two such monads, and is kept by the few operations that the work is put
together from, relates what the work does in the one to what it does in the other. `Simulation` lists
these operations, and `Simulation.perform` is that statement.

The first use is `Session.watching`: an observer of the sink, who writes down every text before the
sink is given it, makes no difference to the work.
-/

namespace TowerOfHanoi

/-- A relation between the computations of two monads that all the ways of building them keep. -/
structure Simulation (ε : Type) (m n : Type → Type) [Monad m] [Monad n] [Log.Logger m]
    [Log.Logger n] [MonadExcept ε m] [MonadExcept ε n] where
  Rel : ∀ {α : Type}, m α → n α → Prop
  pure : ∀ {α : Type} (a : α), Rel (Pure.pure a) (Pure.pure a)
  bind : ∀ {α β : Type} {x : m α} {y : n α} {f : α → m β} {g : α → n β},
    Rel x y → (∀ a, Rel (f a) (g a)) → Rel (x >>= f) (y >>= g)
  throw : ∀ {α : Type} (e : ε), Rel (throw e : m α) (throw e : n α)
  log : ∀ event, Rel (Log.log event) (Log.log event)

namespace Simulation

variable {m n : Type → Type} [Monad m] [Monad n] [Log.Logger m] [Log.Logger n]

/-! ## Walking and counting -/

section

variable {ε : Type} [MonadExcept ε m] [MonadExcept ε n] (R : Simulation ε m n)

theorem carryM {κ : Type} {visit : κ → Move → m κ} {visit' : κ → Move → n κ}
    (h : ∀ acc move, R.Rel (visit acc move) (visit' acc move)) (disks : Nat) (src via dst : Peg)
    (acc : κ) : R.Rel (carryM visit disks src via dst acc) (carryM visit' disks src via dst acc) := by
  fun_induction TowerOfHanoi.carryM visit disks src via dst acc with
  | case1 src via dst acc => exact R.pure acc
  | case2 src via dst acc => exact h acc _
  | case3 disks src via dst acc ih₁ ih₂ =>
    refine R.bind (ih₁ ..) fun acc => R.bind (h acc _) fun acc => ?_
    exact ih₂ ..

theorem tally {onMove : Move → m Unit} {onMove' : Move → n Unit}
    (h : ∀ move, R.Rel (onMove move) (onMove' move)) (count : UInt64) (move : Move) :
    R.Rel (tally onMove count move) (tally onMove' count move) :=
  R.bind (h move) fun _ => R.pure _

theorem solve {onMove : Move → m Unit} {onMove' : Move → n Unit}
    (h : ∀ move, R.Rel (onMove move) (onMove' move)) (refuse : TooManyDisks → ε) (disks : Nat) :
    R.Rel (solve refuse onMove disks) (solve refuse onMove' disks) := by
  unfold TowerOfHanoi.solve
  split
  · exact R.throw _
  · refine R.bind (R.log _) fun _ => ?_
    refine R.bind (R.carryM (R.tally h) disks .a .b .c 0) fun count => ?_
    exact R.bind (R.log _) fun _ => R.pure count

theorem count (refuse : TooManyDisks → ε) (strategy : Strategy) (disks : Nat) :
    R.Rel (strategy.count refuse disks) (strategy.count refuse disks) := by
  unfold Strategy.count
  refine R.bind (R.log _) fun _ => ?_
  cases strategy with
  | recursive => exact R.bind (R.solve (fun _ => R.pure ()) refuse disks) fun _ => R.pure _
  | closedForm => exact R.pure _
  | doubling => exact R.pure _

end

/-! ## The work of a run -/

section

open Command

variable {ω : Type} [MonadExcept (Failure ω) m] [MonadExcept (Failure ω) n]
  (R : Simulation (Failure ω) m n)

theorem expect (blame : ω → Failure ω) {write : m (Except ω Unit)} {write' : n (Except ω Unit)}
    (h : R.Rel write write') : R.Rel (expect blame write) (expect blame write') := by
  refine R.bind h ?_
  rintro (fault | ⟨⟩)
  · exact R.throw _
  · exact R.pure ()

theorem listMoves {sink : Output.Sink m ω} {sink' : Output.Sink n ω}
    (hput : ∀ text, R.Rel (sink.put text) (sink'.put text)) (strategy : Strategy) (disks : Nat) :
    R.Rel (listMoves sink strategy disks) (listMoves sink' strategy disks) := by
  have hwalk := R.solve (fun move : Move => R.expect .moveNotWritten (hput (move.text ++ "\n")))
    Failure.unlistable disks
  unfold Command.listMoves
  split
  · exact R.bind (R.log _) fun _ => R.bind hwalk fun _ => R.pure _
  · exact R.bind hwalk fun _ => R.pure _

theorem diskCount (input : ByteArray) :
    R.Rel (diskCount ω input) (diskCount ω input) := by
  unfold Command.diskCount
  split
  · exact R.throw _
  · split
    · exact R.throw _
    · exact R.pure _

/-- **The work is the same in both monads**, if their sinks are. -/
theorem perform {sink : Output.Sink m ω} {sink' : Output.Sink n ω}
    (hput : ∀ text, R.Rel (sink.put text) (sink'.put text)) (hflush : R.Rel sink.flush sink'.flush)
    (settings : Settings) (input : ByteArray) :
    R.Rel (perform sink settings input) (perform sink' settings input) := by
  unfold Command.perform
  refine R.bind (R.diskCount input) fun disks => R.bind (R.log _) fun _ => ?_
  have hwrite : ∀ count : Nat, R.Rel
      (do Command.expect .countNotWritten (sink.put (toString count ++ "\n"))
          Command.expect .countNotWritten sink.flush)
      (do Command.expect .countNotWritten (sink'.put (toString count ++ "\n"))
          Command.expect .countNotWritten sink'.flush) := by
    intro count
    exact R.bind (R.expect _ (hput _)) fun _ => R.expect _ hflush
  cases settings.listMoves with
  | true => exact R.bind (R.listMoves hput settings.strategy disks) hwrite
  | false => exact R.bind (R.count _ settings.strategy disks) hwrite

end

end Simulation

/-! ## An observer of the output -/

variable {σ ε α γ : Type}

/-- A session beside which notes are kept does the same as without them. -/
def Session.watching (σ ε γ : Type) : Simulation ε (Session σ ε) (Session (σ × γ) ε) where
  Rel x y := ∀ s note, (y.run (s, note)).forget = x.run s
  pure _ _ _ := rfl
  throw _ _ _ := rfl
  log _ _ _ := rfl
  bind := by
    intro α β x y f g hx hf s note
    have hxs := hx s note
    match hy : y.run (s, note) with
    | ⟨.error e, (t, note'), events⟩ =>
      rw [hy] at hxs
      rw [Session.run_bind_error hy, Session.run_bind_error hxs.symm]
      rfl
    | ⟨.ok a, (t, note'), events⟩ =>
      rw [hy] at hxs
      rw [Session.run_bind_ok hy, Session.run_bind_ok hxs.symm, ← hf a t note']
      rfl

theorem Session.watching_noting (before after : γ → γ) (x : Session σ ε α) :
    (watching σ ε γ).Rel x (x.noting before after) := by
  intro s note
  match hx : x.run s with
  | ⟨.ok a, t, events⟩ =>
    rw [Session.run_noting_ok before after note hx]
    rfl
  | ⟨.error e, t, events⟩ =>
    rw [Session.run_noting_error before after note hx]
    rfl

namespace Output.Sink

/-- A sink together with an observer, who writes down every text before the sink is given it. -/
def overheard {ω : Type} (sink : Sink (Session σ ε) ω) :
    Sink (Session (σ × List String) ε) ω where
  put text := (sink.put text).noting (· ++ [text]) id
  flush := sink.flush.noting id id

end Output.Sink

namespace Command

variable {ω : Type}

theorem forget_run_listMoves_overheard (sink : Output.Sink (Session σ (Failure ω)) ω)
    (strategy : Strategy) (disks : Nat) (s : σ) (texts : List String) :
    ((listMoves sink.overheard strategy disks).run (s, texts)).forget =
      (listMoves sink strategy disks).run s :=
  (Session.watching σ (Failure ω) (List String)).listMoves
    (fun text => Session.watching_noting (· ++ [text]) id (sink.put text)) strategy disks s texts

/-- Observing the sink of a run makes no difference to it. -/
theorem forget_run_perform_overheard (sink : Output.Sink (Session σ (Failure ω)) ω)
    (settings : Settings) (input : ByteArray) (s : σ) (texts : List String) :
    ((perform sink.overheard settings input).run (s, texts)).forget =
      (perform sink settings input).run s :=
  (Session.watching σ (Failure ω) (List String)).perform
    (fun text => Session.watching_noting (· ++ [text]) id (sink.put text))
    (Session.watching_noting id id sink.flush) settings input s texts

end Command

end TowerOfHanoi
