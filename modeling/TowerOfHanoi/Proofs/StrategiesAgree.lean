import TowerOfHanoi.Count
import TowerOfHanoi.Proofs.Listening

/-!
# All strategies count the same

Three algorithms count the moves of a tower: a walk through the whole solution in 64 bits, a shift
with a subtraction, and a loop that doubles. The two that are plain arithmetic satisfy the same
recurrence, so they agree for towers of any height. The walk agrees with them because its count is
the length of the solution; it has an answer exactly as far as that length fits in 64 bits, and is the
only one that can refuse.

What a run of each strategy does is said in full, state and events included, by the lemmas
`run_count_of_ne_recursive`, `run_count_recursive_of_le` and `run_count_recursive_of_gt`.
-/

namespace TowerOfHanoi

variable {σ ε : Type}

/-! ## The closed form and the loop -/

/-- The power is one more than the count, so nothing is cut off by subtracting. -/
theorem moveCount_add_one (disks : Nat) : moveCount disks + 1 = 2 ^ disks := by
  have hpos : 0 < 2 ^ disks := Nat.two_pow_pos disks
  rw [moveCount_eq]
  omega

theorem moveCount_succ (disks : Nat) : moveCount (disks + 1) = 2 * moveCount disks + 1 := by
  have hsmall := moveCount_add_one disks
  have hlarge := moveCount_add_one (disks + 1)
  rw [Nat.pow_succ] at hlarge
  omega

/-- Doubling arrives at the closed form, since each round does what one more disk does to it. -/
theorem moveCountByDoubling_eq (disks : Nat) : moveCountByDoubling disks = moveCount disks := by
  induction disks with
  | zero => rfl
  | succ disks ih => rw [moveCountByDoubling_succ, moveCount_succ, ih]

/-! ## Binary digits -/

/-- As many binary digits as are needed, and no more. -/
theorem bitLength_le_iff (n k : Nat) : bitLength n ≤ k ↔ n < 2 ^ k := by
  unfold bitLength
  split
  next hzero =>
    have hpos : 0 < 2 ^ k := Nat.two_pow_pos k
    omega
  next hne =>
    rw [← Nat.log2_lt hne]
    exact Nat.succ_le_iff

/-- All `disks` digits of the count are needed. -/
theorem bitLength_moveCount (disks : Nat) : bitLength (moveCount disks) = disks := by
  have hcount := moveCount_add_one disks
  apply Nat.le_antisymm
  · rw [bitLength_le_iff]
    omega
  · -- with fewer digits the count would be below half of what it is
    cases disks with
    | zero => exact Nat.zero_le _
    | succ disks =>
      apply Nat.le_of_not_lt
      intro hfewer
      have hlt : moveCount (disks + 1) < 2 ^ disks :=
        (bitLength_le_iff _ disks).mp (Nat.le_of_lt_succ hfewer)
      have hpos : 0 < 2 ^ disks := Nat.two_pow_pos disks
      rw [Nat.pow_succ] at hcount
      omega

/-! ## What a run of each strategy does -/

theorem run_count_of_ne_recursive (refuse : TooManyDisks → ε) {strategy : Strategy}
    (h : strategy ≠ .recursive) (disks : Nat) (s : σ) :
    (strategy.count refuse disks : Session σ ε Nat).run s =
      ⟨.ok (moveCount disks), s, [.counting disks strategy]⟩ := by
  unfold Strategy.count
  rw [Session.run_bind_ok (Session.run_log (.counting disks strategy) s)]
  cases strategy with
  | recursive => exact absurd rfl h
  | closedForm => rfl
  | doubling =>
    show (⟨.ok (moveCountByDoubling disks), s, _⟩ : Trace σ ε Nat) = _
    rw [moveCountByDoubling_eq]
    rfl

/-- A listener that only counts hears the whole solution and tells nothing. -/
theorem hear_silent (walk : List Move) (s : σ) :
    hear (fun _ => pure () : Move → Session σ ε Unit) walk s = ⟨walk, s, [], none⟩ := by
  induction walk with
  | nil => rfl
  | cons move rest ih =>
    rw [hear_cons_of_ok rest (Session.run_pure () s), ih]
    rfl

theorem toNat_ofNat_moveCount {disks : Nat} (h : disks ≤ maxWalkedDisks) :
    (UInt64.ofNat (moveCount disks)).toNat = moveCount disks := by
  rw [moveCount_eq]
  exact toNat_ofNat_two_pow_sub_one h

theorem run_count_recursive_of_le (refuse : TooManyDisks → ε) {disks : Nat}
    (h : disks ≤ maxWalkedDisks) (s : σ) :
    (Strategy.recursive.count refuse disks : Session σ ε Nat).run s =
      ⟨.ok (moveCount disks), s,
        [.counting disks .recursive, .solving disks,
          .solved disks (UInt64.ofNat (moveCount disks))]⟩ := by
  have hsolve := run_solve_of_le refuse (fun _ => pure () : Move → Session σ ε Unit) h s
  rw [hear_silent, ← moveCount_eq] at hsolve
  unfold Strategy.count
  rw [Session.run_bind_ok (Session.run_log (.counting disks .recursive) s)]
  show (⟨_, _, _⟩ : Trace σ ε Nat) = _
  rw [Session.run_bind_ok hsolve, Session.run_pure, toNat_ofNat_moveCount h]
  rfl

theorem run_count_recursive_of_gt (refuse : TooManyDisks → ε) {disks : Nat}
    (h : maxWalkedDisks < disks) (s : σ) :
    (Strategy.recursive.count refuse disks : Session σ ε Nat).run s =
      ⟨.error (refuse ⟨disks, maxWalkedDisks⟩), s, [.counting disks .recursive]⟩ := by
  have hsolve := run_solve_of_gt refuse (fun _ => pure () : Move → Session σ ε Unit) h s
  unfold Strategy.count
  rw [Session.run_bind_ok (Session.run_log (.counting disks .recursive) s)]
  show (⟨_, _, _⟩ : Trace σ ε Nat) = _
  rw [Session.run_bind_error hsolve]
  rfl

/-- The number that `solve` gives is the number of moves it has shown. -/
theorem NeverFails.result_solve {onMove : Move → Session σ ε Unit} (hok : NeverFails onMove)
    (refuse : TooManyDisks → ε) {disks : Nat} (h : disks ≤ maxWalkedDisks) (s : σ) :
    ((solve refuse onMove disks).run s).result = .ok (UInt64.ofNat (moveCount disks)) := by
  rw [run_solve_of_le refuse onMove h, ← moveCount_eq]
  unfold Hearing.toTrace
  rw [hok.rejection_eq_none]

/-- **All strategies agree.** The closed form and doubling count a tower of any height, and give the
same number `2 ^ disks - 1`, which has `disks` binary digits. Walking gives that number up to 64
disks, where it is also what `solve` gives to and shows a listener that never fails, and refuses all
taller towers. There is no other failure. -/
theorem strategies_agree (refuse : TooManyDisks → ε) (disks : Nat) (s : σ) :
    (1 ≤ 1 <<< disks ∧ moveCount disks = 2 ^ disks - 1 ∧ bitLength (moveCount disks) = disks) ∧
    ((Strategy.closedForm.count refuse disks : Session σ ε Nat).run s).result =
      .ok (moveCount disks) ∧
    ((Strategy.doubling.count refuse disks : Session σ ε Nat).run s).result =
      .ok (moveCount disks) ∧
    (disks ≤ 64 →
      ((Strategy.recursive.count refuse disks : Session σ ε Nat).run s).result =
        .ok (moveCount disks)) ∧
    (64 < disks →
      ((Strategy.recursive.count refuse disks : Session σ ε Nat).run s).result =
        .error (refuse ⟨disks, 64⟩)) ∧
    (∀ (strategy : Strategy) (e : ε),
      ((strategy.count refuse disks : Session σ ε Nat).run s).result = .error e →
        strategy = .recursive ∧ 64 < disks ∧ e = refuse ⟨disks, 64⟩) ∧
    (disks ≤ 64 →
      ∀ {τ δ : Type} (refuse' : TooManyDisks → δ) (onMove : Move → Session τ δ Unit) (t : τ),
        NeverFails onMove →
        (shown refuse' onMove disks t).length = moveCount disks ∧
        ∃ total : UInt64, ((solve refuse' onMove disks).run t).result = .ok total ∧
          total.toNat = moveCount disks) := by
  have hrecursive : disks ≤ 64 →
      ((Strategy.recursive.count refuse disks : Session σ ε Nat).run s).result =
        .ok (moveCount disks) := by
    intro hle
    rw [run_count_recursive_of_le refuse hle]
  have hrefused : 64 < disks →
      ((Strategy.recursive.count refuse disks : Session σ ε Nat).run s).result =
        .error (refuse ⟨disks, 64⟩) := by
    intro hgt
    rw [run_count_recursive_of_gt refuse hgt]
    rfl
  refine ⟨⟨?_, moveCount_eq disks, bitLength_moveCount disks⟩, ?_, ?_, hrecursive, hrefused,
    ?_, ?_⟩
  · rw [Nat.one_shiftLeft]
    exact Nat.two_pow_pos disks
  · rw [run_count_of_ne_recursive refuse (by decide)]
  · rw [run_count_of_ne_recursive refuse (by decide)]
  · intro strategy e he
    by_cases hstrategy : strategy = .recursive
    · subst hstrategy
      rcases Nat.lt_or_ge 64 disks with hgt | hle
      · rw [hrefused hgt] at he
        exact ⟨rfl, hgt, (Except.error.inj he).symm⟩
      · rw [hrecursive hle] at he
        cases he
    · rw [run_count_of_ne_recursive refuse hstrategy] at he
      cases he
  · intro hle τ δ refuse' onMove t hok
    refine ⟨?_, _, hok.result_solve refuse' hle t, toNat_ofNat_moveCount hle⟩
    rw [hok.shown_eq refuse' hle, length_moves, moveCount_eq]

/-- The tallest tower that is walked, and the first that is refused. -/
theorem strategies_agree_limit :
    ((Strategy.recursive.count id 64 : Session Unit TooManyDisks Nat).run ()).result =
        .ok 18446744073709551615 ∧
      ((Strategy.recursive.count id 65 : Session Unit TooManyDisks Nat).run ()).result =
        .error ⟨65, 64⟩ ∧
      NeverFails (Journal.keep none) ∧
      (shown Journal.Interruption.refused (Journal.keep none) 64 #[]).length =
        18446744073709551615 := by
  have hok : NeverFails (Journal.keep none) := fun _ _ => rfl
  obtain ⟨-, -, -, hcount, -, -, hshown⟩ := strategies_agree id 64 ()
  obtain ⟨-, -, -, -, hrefused, -⟩ := strategies_agree id 65 ()
  have hlength := (hshown (by decide) Journal.Interruption.refused (Journal.keep none) #[] hok).1
  exact ⟨hcount (by decide), hrefused (by decide), hok, hlength⟩

end TowerOfHanoi
