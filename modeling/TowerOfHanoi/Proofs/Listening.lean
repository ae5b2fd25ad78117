import Mathlib.Algebra.Group.Nat.Defs
import TowerOfHanoi.Journal

/-!
# What a listener hears

A walk is performed for a listener, and the listener may end it. This module says exactly what
comes of that: `hear` shows a plain list of moves to a listener, one after another, until one is
rejected, and `solve` turns out to be `hear` on the list `moves`, with a count and two events
around it.

What a listener was shown cannot be read off its state, since a listener is free to forget. So
`Session.noting` lets an observer keep notes beside a session, which the session never sees, and
`overheard` is any listener with an observer who writes down each move it is shown.
-/

namespace TowerOfHanoi

variable {σ ε α γ : Type}

/-! ## How long the solution is -/

theorem length_moves_succ (n : Nat) (src via dst : Peg) :
    (moves n src via dst).length + 1 = 2 ^ n := by
  induction n generalizing src via dst with
  | zero => rfl
  | succ n ih =>
    have first := ih src dst via
    have second := ih via src dst
    simp only [moves_succ, List.length_append, List.length_cons]
    omega

/-- A tower of `n` disks takes `2 ^ n - 1` moves. -/
@[simp]
theorem length_moves (n : Nat) (src via dst : Peg) : (moves n src via dst).length = 2 ^ n - 1 := by
  have h := length_moves_succ n src via dst
  omega

theorem moveCount_eq (disks : Nat) : moveCount disks = 2 ^ disks - 1 := by
  rw [moveCount, Nat.one_shiftLeft]

/-! ## Notes beside a session -/

/-- The trace without the second half of its state. -/
def Trace.forget (t : Trace (σ × γ) ε α) : Trace σ ε α := ⟨t.result, t.state.1, t.events⟩

/-- Carries `x` out and keeps a note beside its state. The note is changed by `before` in any case,
and by `after` as well if `x` succeeds. -/
def Session.noting (before after : γ → γ) (x : Session σ ε α) : Session (σ × γ) ε α := fun s =>
  match x.run s.1 with
  | ⟨.ok a, t, events⟩ => ⟨.ok a, (t, after (before s.2)), events⟩
  | ⟨.error e, t, events⟩ => ⟨.error e, (t, before s.2), events⟩

theorem Session.run_noting (before after : γ → γ) (x : Session σ ε α) (s : σ) (note : γ) :
    (x.noting before after).run (s, note) =
      match x.run s with
      | ⟨.ok a, t, events⟩ => ⟨.ok a, (t, after (before note)), events⟩
      | ⟨.error e, t, events⟩ => ⟨.error e, (t, before note), events⟩ :=
  rfl

theorem Session.run_noting_ok {x : Session σ ε α} {s t : σ} {a : α} {events : List Log.Event}
    (before after : γ → γ) (note : γ) (h : x.run s = ⟨.ok a, t, events⟩) :
    (x.noting before after).run (s, note) = ⟨.ok a, (t, after (before note)), events⟩ := by
  rw [run_noting, h]

theorem Session.run_noting_error {x : Session σ ε α} {s t : σ} {e : ε} {events : List Log.Event}
    (before after : γ → γ) (note : γ) (h : x.run s = ⟨.error e, t, events⟩) :
    (x.noting before after).run (s, note) = ⟨.error e, (t, before note), events⟩ := by
  rw [run_noting, h]

/-! ## Showing moves until one is rejected -/

/-- What came of showing moves to a listener: the moves it was shown, its last state, the events it
told, and the failure with which it rejected the last of these moves, if it did. -/
structure Hearing (σ ε : Type) where
  heard : List Move
  state : σ
  events : List Log.Event
  rejection : Option ε

/-- The end of a walk: `a` if no move was rejected, and otherwise the failure as the listener gave
it. -/
def Hearing.result (h : Hearing σ ε) (a : α) : Except ε α :=
  match h.rejection with
  | none => .ok a
  | some e => .error e

/-- The same as the trace of solving a tower: the events of the listener stand between two of the
solver, of which the second is told only at the end of the walk, with the number of moves. -/
def Hearing.toTrace (h : Hearing σ ε) (disks : Nat) (total : UInt64) : Trace σ ε UInt64 :=
  match h.rejection with
  | none => ⟨.ok total, h.state, .solving disks :: h.events ++ [.solved disks total]⟩
  | some e => ⟨.error e, h.state, .solving disks :: h.events⟩

/-- Shows moves to a listener in order, until there are no more or one is rejected. -/
def hear (onMove : Move → Session σ ε Unit) : List Move → σ → Hearing σ ε
  | [], s => ⟨[], s, [], none⟩
  | move :: rest, s =>
    match (onMove move).run s with
    | ⟨.error e, t, events⟩ => ⟨[move], t, events, some e⟩
    | ⟨.ok (), t, events⟩ =>
      let later := hear onMove rest t
      ⟨move :: later.heard, later.state, events ++ later.events, later.rejection⟩

/-- A listener that accepts every move, whatever its state. -/
def NeverFails (onMove : Move → Session σ ε Unit) : Prop :=
  ∀ move s, ((onMove move).run s).result = .ok ()

variable {onMove : Move → Session σ ε Unit} {move : Move} {s t : σ} {events : List Log.Event}

@[simp]
theorem hear_nil (onMove : Move → Session σ ε Unit) (s : σ) :
    hear onMove [] s = ⟨[], s, [], none⟩ := rfl

theorem hear_cons_of_ok (rest : List Move) (h : (onMove move).run s = ⟨.ok (), t, events⟩) :
    hear onMove (move :: rest) s =
      ⟨move :: (hear onMove rest t).heard, (hear onMove rest t).state,
        events ++ (hear onMove rest t).events, (hear onMove rest t).rejection⟩ := by
  rw [hear, h]

theorem hear_cons_of_error {e : ε} (rest : List Move)
    (h : (onMove move).run s = ⟨.error e, t, events⟩) :
    hear onMove (move :: rest) s = ⟨[move], t, events, some e⟩ := by
  rw [hear, h]

/-- A listener that rejects nothing hears everything. -/
theorem heard_of_rejection_eq_none {walk : List Move} {s : σ}
    (h : (hear onMove walk s).rejection = none) : (hear onMove walk s).heard = walk := by
  induction walk generalizing s with
  | nil => rfl
  | cons move rest ih =>
    match hm : (onMove move).run s with
    | ⟨.error e, t, events⟩ =>
      rw [hear_cons_of_error rest hm] at h
      cases h
    | ⟨.ok (), t, events⟩ =>
      rw [hear_cons_of_ok rest hm] at h ⊢
      exact congrArg (move :: ·) (ih h)

/-- A rejection comes from one move: all moves before it were accepted, and nothing is heard and
nothing changes after it. -/
theorem exists_of_rejection_eq_some {walk : List Move} {s : σ} {e : ε}
    (h : (hear onMove walk s).rejection = some e) :
    ∃ before move after, walk = before ++ move :: after ∧
      (hear onMove before s).rejection = none ∧
      ((onMove move).run (hear onMove before s).state).result = .error e ∧
      ((onMove move).run (hear onMove before s).state).state = (hear onMove walk s).state ∧
      (hear onMove walk s).heard = before ++ [move] := by
  induction walk generalizing s with
  | nil => cases h
  | cons move rest ih =>
    match hm : (onMove move).run s with
    | ⟨.error e', t, events⟩ =>
      rw [hear_cons_of_error rest hm] at h ⊢
      cases h
      refine ⟨[], move, rest, rfl, rfl, ?_, ?_, rfl⟩
      · rw [hear_nil, hm]
      · rw [hear_nil, hm]
    | ⟨.ok (), t, events⟩ =>
      rw [hear_cons_of_ok rest hm] at h ⊢
      obtain ⟨before, move', after, hrest, haccepted, hresult, hstate, hheard⟩ := ih h
      have hbefore := hear_cons_of_ok before hm
      refine ⟨move :: before, move', after, ?_, ?_, ?_, ?_, ?_⟩
      · rw [hrest, List.cons_append]
      · rw [hbefore, haccepted]
      · rw [hbefore]
        exact hresult
      · rw [hbefore]
        exact hstate
      · rw [hheard, List.cons_append]

/-- Whatever a listener does, it hears the moves in order and from the first one on. -/
theorem heard_isPrefix (onMove : Move → Session σ ε Unit) (walk : List Move) (s : σ) :
    (hear onMove walk s).heard <+: walk := by
  cases hrejection : (hear onMove walk s).rejection with
  | none => exact ⟨[], by rw [heard_of_rejection_eq_none hrejection, List.append_nil]⟩
  | some e =>
    obtain ⟨before, move, after, hwalk, -, -, -, hheard⟩ := exists_of_rejection_eq_some hrejection
    rw [hheard]
    exact ⟨after, by rw [hwalk, List.append_assoc, List.singleton_append]⟩

theorem NeverFails.run_eq (h : NeverFails onMove) (move : Move) (s : σ) :
    ∃ t events, (onMove move).run s = ⟨.ok (), t, events⟩ := by
  match hm : (onMove move).run s with
  | ⟨.ok (), t, events⟩ => exact ⟨t, events, rfl⟩
  | ⟨.error e, t, events⟩ =>
    have hok := h move s
    rw [hm] at hok
    cases hok

theorem NeverFails.rejection_eq_none (h : NeverFails onMove) (walk : List Move) (s : σ) :
    (hear onMove walk s).rejection = none := by
  induction walk generalizing s with
  | nil => rfl
  | cons move rest ih =>
    obtain ⟨t, events, hm⟩ := h.run_eq move s
    rw [hear_cons_of_ok rest hm]
    exact ih t

theorem NeverFails.heard_eq (h : NeverFails onMove) (walk : List Move) (s : σ) :
    (hear onMove walk s).heard = walk :=
  heard_of_rejection_eq_none (h.rejection_eq_none walk s)

/-! ## Looking over the listener's shoulder -/

/-- A listener together with an observer, who writes down every move before the listener is asked
about it. -/
def overheard (onMove : Move → Session σ ε Unit) (move : Move) : Session (σ × List Move) ε Unit :=
  (onMove move).noting (· ++ [move]) id

/-- The moves that `solve` shows to a listener whose first state is `s`. -/
def shown (refuse : TooManyDisks → ε) (onMove : Move → Session σ ε Unit) (disks : Nat) (s : σ) :
    List Move :=
  ((solve refuse (overheard onMove) disks).run (s, [])).state.2

/-- The moves that carrying a tower shows to a listener whose first state is `s`. -/
def shownCarrying (onMove : Move → Session σ ε Unit) (n : Nat) (src via dst : Peg) (count : UInt64)
    (s : σ) : List Move :=
  ((carryM (tally (overheard onMove)) n src via dst count).run (s, [])).state.2

/-- The listener does not notice the observer, and the observer misses nothing. -/
theorem hear_overheard (onMove : Move → Session σ ε Unit) (walk : List Move) (s : σ)
    (noted : List Move) :
    hear (overheard onMove) walk (s, noted) =
      ⟨(hear onMove walk s).heard, ((hear onMove walk s).state, noted ++ (hear onMove walk s).heard),
        (hear onMove walk s).events, (hear onMove walk s).rejection⟩ := by
  induction walk generalizing s noted with
  | nil => rw [hear_nil, hear_nil, List.append_nil]
  | cons move rest ih =>
    match hm : (onMove move).run s with
    | ⟨.error e, t, events⟩ =>
      have ho : (overheard onMove move).run (s, noted) = _ :=
        Session.run_noting_error (· ++ [move]) id noted hm
      rw [hear_cons_of_error rest hm, hear_cons_of_error rest ho]
    | ⟨.ok (), t, events⟩ =>
      have ho : (overheard onMove move).run (s, noted) = _ :=
        Session.run_noting_ok (· ++ [move]) id noted hm
      rw [hear_cons_of_ok rest hm, hear_cons_of_ok rest ho]
      simp only [id, ih, List.append_assoc, List.singleton_append]

/-! ## Walks as hearings -/

theorem run_tally_ok (count : UInt64) (h : (onMove move).run s = ⟨.ok (), t, events⟩) :
    (tally onMove count move).run s = ⟨.ok (count + 1), t, events⟩ := by
  unfold tally
  rw [Session.run_bind_ok h, Session.run_pure, List.append_nil]

theorem run_tally_error {e : ε} (count : UInt64)
    (h : (onMove move).run s = ⟨.error e, t, events⟩) :
    (tally onMove count move).run s = ⟨.error e, t, events⟩ := by
  unfold tally
  rw [Session.run_bind_error h]

theorem add_one_add_ofNat (count : UInt64) (i : Nat) :
    count + 1 + UInt64.ofNat i = count + UInt64.ofNat (i + 1) := by
  rw [UInt64.ofNat_add, UInt64.add_comm (UInt64.ofNat i), ← UInt64.add_assoc]
  rfl

/-- Counting the moves of a list is hearing them, with one added for each that is accepted. -/
theorem run_foldlM_tally (onMove : Move → Session σ ε Unit) (walk : List Move) (count : UInt64)
    (s : σ) :
    (walk.foldlM (tally onMove) count).run s =
      ⟨(hear onMove walk s).result (count + UInt64.ofNat walk.length), (hear onMove walk s).state,
        (hear onMove walk s).events⟩ := by
  induction walk generalizing count s with
  | nil =>
    show (⟨.ok count, s, []⟩ : Trace σ ε UInt64) = ⟨.ok (count + 0), s, []⟩
    rw [UInt64.add_zero]
  | cons move rest ih =>
    rw [List.foldlM_cons]
    match hm : (onMove move).run s with
    | ⟨.error e, t, events⟩ =>
      rw [Session.run_bind_error (run_tally_error count hm), hear_cons_of_error rest hm]
      rfl
    | ⟨.ok (), t, events⟩ =>
      rw [Session.run_bind_ok (run_tally_ok count hm), hear_cons_of_ok rest hm, ih,
        List.length_cons, add_one_add_ofNat]
      rfl

theorem run_carryM_tally (onMove : Move → Session σ ε Unit) (n : Nat) (src via dst : Peg)
    (count : UInt64) (s : σ) :
    (carryM (tally onMove) n src via dst count).run s =
      ⟨(hear onMove (moves n src via dst) s).result (count + UInt64.ofNat (2 ^ n - 1)),
        (hear onMove (moves n src via dst) s).state,
        (hear onMove (moves n src via dst) s).events⟩ := by
  rw [carryM_eq_foldlM, run_foldlM_tally, length_moves]

/-- A tower that is not too tall is walked to its end, or to the first rejection. -/
theorem run_solve_of_le (refuse : TooManyDisks → ε) (onMove : Move → Session σ ε Unit)
    {disks : Nat} (h : disks ≤ maxWalkedDisks) (s : σ) :
    (solve refuse onMove disks).run s =
      (hear onMove (moves disks .a .b .c) s).toTrace disks (UInt64.ofNat (2 ^ disks - 1)) := by
  have hwalk := run_carryM_tally onMove disks .a .b .c 0 s
  rw [UInt64.zero_add, Hearing.result] at hwalk
  unfold solve Hearing.toTrace
  rw [if_neg (Nat.not_lt.mpr h), Session.run_bind_ok (Session.run_log (.solving disks) s)]
  match hrejection : (hear onMove (moves disks .a .b .c) s).rejection with
  | none =>
    rw [hrejection] at hwalk
    rw [Session.run_bind_ok hwalk]
    rfl
  | some e =>
    rw [hrejection] at hwalk
    rw [Session.run_bind_error hwalk]
    rfl

/-- A tower that is too tall is refused at once. -/
theorem run_solve_of_gt (refuse : TooManyDisks → ε) (onMove : Move → Session σ ε Unit)
    {disks : Nat} (h : maxWalkedDisks < disks) (s : σ) :
    (solve refuse onMove disks).run s = ⟨.error (refuse ⟨disks, maxWalkedDisks⟩), s, []⟩ := by
  unfold solve
  rw [if_pos h]
  rfl

/-- Whoever is solving does not notice the observer either. -/
theorem forget_run_solve_overheard (refuse : TooManyDisks → ε) (onMove : Move → Session σ ε Unit)
    (disks : Nat) (s : σ) :
    ((solve refuse (overheard onMove) disks).run (s, [])).forget =
      (solve refuse onMove disks).run s := by
  rcases Nat.lt_or_ge maxWalkedDisks disks with h | h
  · rw [run_solve_of_gt refuse onMove h, run_solve_of_gt refuse (overheard onMove) h]
    rfl
  · rw [run_solve_of_le refuse onMove h, run_solve_of_le refuse (overheard onMove) h,
      hear_overheard]
    unfold Hearing.toTrace
    cases (hear onMove (moves disks .a .b .c) s).rejection with
    | none => rfl
    | some e => rfl

theorem shown_of_le (refuse : TooManyDisks → ε) (onMove : Move → Session σ ε Unit) {disks : Nat}
    (h : disks ≤ maxWalkedDisks) (s : σ) :
    shown refuse onMove disks s = (hear onMove (moves disks .a .b .c) s).heard := by
  rw [shown, run_solve_of_le refuse (overheard onMove) h, hear_overheard]
  unfold Hearing.toTrace
  cases (hear onMove (moves disks .a .b .c) s).rejection with
  | none => exact List.nil_append _
  | some e => exact List.nil_append _

theorem shown_of_gt (refuse : TooManyDisks → ε) (onMove : Move → Session σ ε Unit) {disks : Nat}
    (h : maxWalkedDisks < disks) (s : σ) : shown refuse onMove disks s = [] := by
  rw [shown, run_solve_of_gt refuse (overheard onMove) h]

theorem shown_isPrefix (refuse : TooManyDisks → ε) (onMove : Move → Session σ ε Unit) (disks : Nat)
    (s : σ) : shown refuse onMove disks s <+: moves disks .a .b .c := by
  rcases Nat.lt_or_ge maxWalkedDisks disks with h | h
  · rw [shown_of_gt refuse onMove h]
    exact List.nil_prefix
  · rw [shown_of_le refuse onMove h]
    exact heard_isPrefix onMove _ s

/-- A listener that never fails is shown the whole solution. -/
theorem NeverFails.shown_eq (hok : NeverFails onMove) (refuse : TooManyDisks → ε) {disks : Nat}
    (h : disks ≤ maxWalkedDisks) (s : σ) :
    shown refuse onMove disks s = moves disks .a .b .c := by
  rw [shown_of_le refuse onMove h, hok.heard_eq]

theorem NeverFails.shownCarrying_eq (hok : NeverFails onMove) (n : Nat) (src via dst : Peg)
    (count : UInt64) (s : σ) :
    shownCarrying onMove n src via dst count s = moves n src via dst := by
  rw [shownCarrying, run_carryM_tally, hear_overheard, hok.heard_eq]
  exact List.nil_append _

theorem toNat_ofNat_two_pow_sub_one {n : Nat} (h : n ≤ 64) :
    (UInt64.ofNat (2 ^ n - 1)).toNat = 2 ^ n - 1 := by
  have hpow : 2 ^ n ≤ 2 ^ 64 := Nat.pow_le_pow_right (by decide) h
  have hpos : 0 < 2 ^ n := Nat.two_pow_pos n
  exact UInt64.toNat_ofNat_of_lt' (by rw [UInt64.size]; omega)

/-- **Solving is a traversal that ends at the first rejection.** A tower of at most 64 disks is
solved by showing the listener its moves in order. Either all are accepted, and then their number is
given and told, in these words; or the walk ends with the first one rejected, and then the listener has been shown
that move last, is left in the state of that call, and its failure is the result. A taller tower is
refused without a word to anyone. -/
theorem solve_traverses_moves (refuse : TooManyDisks → ε) (onMove : Move → Session σ ε Unit)
    (disks : Nat) (s : σ) :
    ((solve refuse (overheard onMove) disks).run (s, [])).forget =
        (solve refuse onMove disks).run s ∧
      (disks ≤ 64 →
        let walk := moves disks .a .b .c
        let h := hear onMove walk s
        (∃ total : UInt64, total.toNat = 2 ^ disks - 1 ∧
          (Log.Event.solved disks total).message =
            "Solved " ++ toString disks ++ " disks in " ++ toString (2 ^ disks - 1) ++ " moves" ∧
          (solve refuse onMove disks).run s =
            match h.rejection with
            | none => ⟨.ok total, h.state, .solving disks :: h.events ++ [.solved disks total]⟩
            | some e => ⟨.error e, h.state, .solving disks :: h.events⟩) ∧
        shown refuse onMove disks s = h.heard ∧
        (h.rejection = none → h.heard = walk) ∧
        ∀ e, h.rejection = some e →
          ∃ before move after, walk = before ++ move :: after ∧
            (hear onMove before s).rejection = none ∧
            ((onMove move).run (hear onMove before s).state).result = .error e ∧
            ((onMove move).run (hear onMove before s).state).state = h.state ∧
            h.heard = before ++ [move]) ∧
      (64 < disks →
        (solve refuse onMove disks).run s = ⟨.error (refuse ⟨disks, 64⟩), s, []⟩ ∧
        shown refuse onMove disks s = []) := by
  refine ⟨forget_run_solve_overheard refuse onMove disks s, ?_, ?_⟩
  · intro hle
    have htotal := toNat_ofNat_two_pow_sub_one hle
    refine ⟨⟨_, htotal, ?_, run_solve_of_le refuse onMove hle s⟩,
      shown_of_le refuse onMove hle s, heard_of_rejection_eq_none, ?_⟩
    · show "Solved " ++ toString disks ++ " disks in " ++
        toString (UInt64.ofNat (2 ^ disks - 1)).toNat ++ " moves" = _
      rw [htotal]
    intro e he
    exact exists_of_rejection_eq_some he
  · intro hgt
    exact ⟨run_solve_of_gt refuse onMove hgt s, shown_of_gt refuse onMove hgt s⟩

/-- Three disks before a listener that gives up at the second move, and before one that does not. -/
theorem solve_traverses_moves_halted :
    3 ≤ 64 ∧
      (Journal.solve (some 2) 3).result = .error (.halted 2) ∧
      shown Journal.Interruption.refused (Journal.keep (some 2)) 3 #[] =
        [⟨1, .a, .c⟩, ⟨2, .a, .b⟩] ∧
      (Journal.solve (some 2) 3).events = [.solving 3] ∧
      ∃ event, (Journal.solve none 3).events = [.solving 3, event] ∧
        event.message = "Solved 3 disks in 7 moves" := by
  obtain ⟨⟨total, -, -, hrun⟩, hshown, -⟩ :=
    (solve_traverses_moves Journal.Interruption.refused (Journal.keep (some 2)) 3 #[]).2.1
      (by decide)
  obtain ⟨⟨total', -, hmessage, hrun'⟩, -⟩ :=
    (solve_traverses_moves Journal.Interruption.refused (Journal.keep none) 3 #[]).2.1
      (by decide)
  refine ⟨by decide, ?_, ?_, ?_, .solved 3 total', ?_, ?_⟩
  · rw [Journal.solve, hrun]
    rfl
  · rw [hshown]
    rfl
  · rw [Journal.solve, hrun]
    rfl
  · rw [Journal.solve, hrun']
    rfl
  · rw [hmessage]
    decide

end TowerOfHanoi
