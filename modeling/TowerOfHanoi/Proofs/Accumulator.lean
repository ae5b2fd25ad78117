import Mathlib.Order.Bounds.Basic
import TowerOfHanoi.Proofs.Listening

/-!
# The count of a walk in 64 bits

The moves of a walk are counted in a machine word, which wraps around silently. That it never does so
in a walk of at most 64 disks cannot be seen from the outside: it is a statement about every
addition on the way. So a `Meter` is kept beside the walk, which notes the count at every call of
the listener and at every addition. `metered` is `tally` itself, with a meter that the listener does
not see; forgetting the meter gives back the walk as it was.

A listener that fails makes fewer additions, so the bound on the additions of a whole walk covers
every listener. For a listener that never fails the additions are known one by one, which makes the
limit of 64 disks exact.
-/

namespace TowerOfHanoi

variable {σ ε : Type}

/-! ## The meter -/

/-- What has been noted about the count of a walk. -/
structure Meter where
  /-- How many calls the listener has completed. -/
  completed : Nat
  /-- The count at each call, and how many calls had been completed before it. -/
  calls : List (UInt64 × Nat)
  /-- The counts to which one has been added. -/
  summands : List UInt64

namespace Meter

/-- The meter before a walk. -/
def blank : Meter := ⟨0, [], []⟩

/-- The listener is called at this count. -/
def call (count : UInt64) (meter : Meter) : Meter :=
  { meter with calls := meter.calls ++ [(count, meter.completed)] }

/-- The listener has accepted, and one is added to this count. -/
def add (count : UInt64) (meter : Meter) : Meter :=
  { meter with completed := meter.completed + 1, summands := meter.summands ++ [count] }

/-- At each call the count was the number of calls completed before it. -/
def CountsCalls (meter : Meter) : Prop := ∀ call ∈ meter.calls, call.1.toNat = call.2

/-- No addition has wrapped around. -/
def NoOverflow (meter : Meter) : Prop := ∀ count ∈ meter.summands, count.toNat < 2 ^ 64 - 1

theorem CountsCalls.call {meter : Meter} (h : meter.CountsCalls) {count : UInt64}
    (hcount : count.toNat = meter.completed) : (meter.call count).CountsCalls := by
  intro entry hentry
  rcases List.mem_append.mp hentry with hold | hnew
  · exact h entry hold
  · rw [List.mem_singleton.mp hnew]
    exact hcount

theorem NoOverflow.add {meter : Meter} (h : meter.NoOverflow) {count : UInt64}
    (hcount : count.toNat < 2 ^ 64 - 1) : (meter.add count).NoOverflow := by
  intro summand hsummand
  rcases List.mem_append.mp hsummand with hold | hnew
  · exact h summand hold
  · rw [List.mem_singleton.mp hnew]
    exact hcount

end Meter

/-- Shows a move to the listener and counts it, with a meter beside. -/
def metered (onMove : Move → Session σ ε Unit) (count : UInt64) (move : Move) :
    Session (σ × Meter) ε UInt64 :=
  tally (fun m => (onMove m).noting (Meter.call count) (Meter.add count)) count move

/-- The meter after carrying a tower. -/
def meterOf (onMove : Move → Session σ ε Unit) (n : Nat) (src via dst : Peg) (count : UInt64)
    (s : σ) : Meter :=
  ((carryM (metered onMove) n src via dst count).run (s, Meter.blank)).state.2

/-! ## One step and a whole walk -/

variable {onMove : Move → Session σ ε Unit} {move : Move} {s t : σ} {events : List Log.Event}

theorem run_metered_ok (count : UInt64) (meter : Meter)
    (h : (onMove move).run s = ⟨.ok (), t, events⟩) :
    (metered onMove count move).run (s, meter) =
      ⟨.ok (count + 1), (t, (meter.call count).add count), events⟩ := by
  unfold metered
  apply run_tally_ok
  exact Session.run_noting_ok (Meter.call count) (Meter.add count) meter h

theorem run_metered_error {e : ε} (count : UInt64) (meter : Meter)
    (h : (onMove move).run s = ⟨.error e, t, events⟩) :
    (metered onMove count move).run (s, meter) = ⟨.error e, (t, meter.call count), events⟩ := by
  unfold metered
  apply run_tally_error
  exact Session.run_noting_error (Meter.call count) (Meter.add count) meter h

/-- What a walk over a list leaves on the meter, one step at a time. -/
theorem run_foldlM_metered_cons_ok (rest : List Move) (count : UInt64) (meter : Meter)
    (h : (onMove move).run s = ⟨.ok (), t, events⟩) :
    (((move :: rest).foldlM (metered onMove) count).run (s, meter)).state =
      ((rest.foldlM (metered onMove) (count + 1)).run (t, (meter.call count).add count)).state := by
  rw [List.foldlM_cons, Session.run_bind_ok (run_metered_ok count meter h)]

theorem run_foldlM_metered_cons_error {e : ε} (rest : List Move) (count : UInt64) (meter : Meter)
    (h : (onMove move).run s = ⟨.error e, t, events⟩) :
    (((move :: rest).foldlM (metered onMove) count).run (s, meter)).state =
      (t, meter.call count) := by
  rw [List.foldlM_cons, Session.run_bind_error (run_metered_error count meter h)]

/-- **The meter is invisible.** Without its meter, a metered walk is the walk. -/
theorem forget_run_foldlM_metered (onMove : Move → Session σ ε Unit) (walk : List Move)
    (count : UInt64) (s : σ) (meter : Meter) :
    ((walk.foldlM (metered onMove) count).run (s, meter)).forget =
      (walk.foldlM (tally onMove) count).run s := by
  induction walk generalizing count s meter with
  | nil => rfl
  | cons move rest ih =>
    rw [List.foldlM_cons, List.foldlM_cons]
    match hm : (onMove move).run s with
    | ⟨.error e, t, events⟩ =>
      rw [Session.run_bind_error (run_metered_error count meter hm),
        Session.run_bind_error (run_tally_error count hm)]
      rfl
    | ⟨.ok (), t, events⟩ =>
      rw [Session.run_bind_ok (run_metered_ok count meter hm),
        Session.run_bind_ok (run_tally_ok count hm),
        ← ih (count + 1) t ((meter.call count).add count)]
      rfl

/-- The meter misses no call. -/
theorem length_calls_run_foldlM_metered (onMove : Move → Session σ ε Unit) (walk : List Move)
    (count : UInt64) (s : σ) (meter : Meter) :
    ((walk.foldlM (metered onMove) count).run (s, meter)).state.2.calls.length =
      meter.calls.length + (hear onMove walk s).heard.length := by
  induction walk generalizing count s meter with
  | nil => rfl
  | cons move rest ih =>
    match hm : (onMove move).run s with
    | ⟨.error e, t, events⟩ =>
      rw [run_foldlM_metered_cons_error rest count meter hm, hear_cons_of_error rest hm]
      exact List.length_append
    | ⟨.ok (), t, events⟩ =>
      rw [run_foldlM_metered_cons_ok rest count meter hm, hear_cons_of_ok rest hm, ih]
      simp only [Meter.add, Meter.call, List.length_append, List.length_cons, List.length_nil]
      omega

/-- As long as the count has room for the moves that are left, it is the number of completed calls
and nothing wraps around, whether the listener fails or not. -/
theorem exact_run_foldlM_metered (walk : List Move) (count : UInt64) (s : σ) (meter : Meter)
    (hcompleted : count.toNat = meter.completed) (hroom : count.toNat + walk.length < 2 ^ 64)
    (hcalls : meter.CountsCalls) (hsummands : meter.NoOverflow) :
    ((walk.foldlM (metered onMove) count).run (s, meter)).state.2.CountsCalls ∧
      ((walk.foldlM (metered onMove) count).run (s, meter)).state.2.NoOverflow := by
  induction walk generalizing count s meter with
  | nil => exact ⟨hcalls, hsummands⟩
  | cons move rest ih =>
    rw [List.length_cons] at hroom
    match hm : (onMove move).run s with
    | ⟨.error e, t, events⟩ =>
      -- the call is noted, but nothing is added any more
      rw [run_foldlM_metered_cons_error rest count meter hm]
      exact ⟨hcalls.call hcompleted, hsummands⟩
    | ⟨.ok (), t, events⟩ =>
      rw [run_foldlM_metered_cons_ok rest count meter hm]
      have hnext : (count + 1).toNat = count.toNat + 1 := by
        rw [UInt64.toNat_add]
        exact Nat.mod_eq_of_lt (by simp; omega)
      refine ih (count + 1) t _ ?_ ?_ (hcalls.call hcompleted) (hsummands.add (by omega))
      · rw [hnext, hcompleted]
        rfl
      · rw [hnext]
        omega

/-- Before a listener that never fails, one is added to every count from the first on, wrapped
around or not. -/
theorem summands_run_foldlM_metered (hok : NeverFails onMove) (walk : List Move) (count : UInt64)
    (s : σ) (meter : Meter) :
    ((walk.foldlM (metered onMove) count).run (s, meter)).state.2.summands =
      meter.summands ++ (List.range walk.length).map fun i => count + UInt64.ofNat i := by
  induction walk generalizing count s meter with
  | nil => exact (List.append_nil _).symm
  | cons move rest ih =>
    obtain ⟨t, events, hm⟩ := hok.run_eq move s
    rw [run_foldlM_metered_cons_ok rest count meter hm, ih, List.length_cons,
      List.range_succ_eq_map, List.map_cons, List.map_map]
    have hfirst : count + UInt64.ofNat 0 = count := UInt64.add_zero count
    rw [hfirst]
    simp only [Meter.add, Meter.call, List.append_assoc, List.singleton_append, add_one_add_ofNat]
    rfl

/-! ## Where counting from a given number wraps around -/

theorem toNat_add_ofNat {count : UInt64} {i : Nat} (h : count.toNat + i < 2 ^ 64) :
    (count + UInt64.ofNat i).toNat = count.toNat + i := by
  have hi : (UInt64.ofNat i).toNat = i := UInt64.toNat_ofNat_of_lt' (by rw [UInt64.size]; omega)
  rw [UInt64.toNat_add, hi]
  exact Nat.mod_eq_of_lt h

theorem forall_toNat_add_lt_iff (count : UInt64) (k : Nat) :
    (∀ i < k, (count + UInt64.ofNat i).toNat < 2 ^ 64 - 1) ↔ count.toNat + k ≤ 2 ^ 64 - 1 := by
  constructor
  · intro h
    by_contra hover
    -- the addition that would wrap around is the one at the largest count
    have hcount := count.toNat_lt
    have hlast := h (2 ^ 64 - 1 - count.toNat) (by omega)
    rw [toNat_add_ofNat (by omega)] at hlast
    omega
  · intro h i hi
    rw [toNat_add_ofNat (by omega)]
    omega

/-! ## Carrying a tower -/

theorem forget_run_carryM_metered (onMove : Move → Session σ ε Unit) (n : Nat)
    (src via dst : Peg) (count : UInt64) (s : σ) :
    ((carryM (metered onMove) n src via dst count).run (s, Meter.blank)).forget =
      (carryM (tally onMove) n src via dst count).run s := by
  rw [carryM_eq_foldlM, carryM_eq_foldlM, forget_run_foldlM_metered]

theorem length_calls_meterOf (refuse : TooManyDisks → ε) (onMove : Move → Session σ ε Unit)
    {disks : Nat} (h : disks ≤ maxWalkedDisks) (s : σ) :
    (meterOf onMove disks .a .b .c 0 s).calls.length = (shown refuse onMove disks s).length := by
  rw [shown_of_le refuse onMove h, meterOf, carryM_eq_foldlM, length_calls_run_foldlM_metered]
  exact Nat.zero_add _

theorem exact_meterOf (onMove : Move → Session σ ε Unit) {n : Nat} (h : n ≤ 64)
    (src via dst : Peg) (s : σ) :
    (meterOf onMove n src via dst 0 s).CountsCalls ∧ (meterOf onMove n src via dst 0 s).NoOverflow := by
  have hpow : 2 ^ n ≤ 2 ^ 64 := Nat.pow_le_pow_right (by decide) h
  have hpos : 0 < 2 ^ n := Nat.two_pow_pos n
  rw [meterOf, carryM_eq_foldlM]
  refine exact_run_foldlM_metered _ 0 s Meter.blank rfl ?_ ?_ ?_
  · rw [length_moves, show (0 : UInt64).toNat = 0 from rfl]
    omega
  · intro call hcall
    cases hcall
  · intro count hcount
    cases hcount

theorem noOverflow_meterOf_iff (hok : NeverFails onMove) (n : Nat) (src via dst : Peg)
    (count : UInt64) (s : σ) :
    (meterOf onMove n src via dst count s).NoOverflow ↔ count.toNat + 2 ^ n - 1 ≤ 2 ^ 64 - 1 := by
  have hpos : 0 < 2 ^ n := Nat.two_pow_pos n
  have hsum : count.toNat + (2 ^ n - 1) = count.toNat + 2 ^ n - 1 := by omega
  rw [← hsum, ← forall_toNat_add_lt_iff, Meter.NoOverflow, meterOf, carryM_eq_foldlM,
    summands_run_foldlM_metered hok, length_moves]
  simp [Meter.blank]

/-- A total that fits is the result. -/
theorem exists_result_carryM_tally (hok : NeverFails onMove) {n : Nat} (src via dst : Peg)
    {count : UInt64} (hfits : count.toNat + 2 ^ n - 1 ≤ 2 ^ 64 - 1) (s : σ) :
    ∃ total : UInt64, total.toNat = count.toNat + 2 ^ n - 1 ∧
      ((carryM (tally onMove) n src via dst count).run s).result = .ok total := by
  have hpos : 0 < 2 ^ n := Nat.two_pow_pos n
  refine ⟨count + UInt64.ofNat (2 ^ n - 1), ?_, ?_⟩
  · rw [toNat_add_ofNat (by omega)]
    omega
  · rw [run_carryM_tally, Hearing.result, hok.rejection_eq_none]

/-- Sixty-four disks fit, and a tower of one disk more does not. -/
theorem isGreatest_maxWalkedDisks (hok : NeverFails onMove) (src via dst : Peg) (s : σ) :
    IsGreatest {n | (meterOf onMove n src via dst 0 s).NoOverflow} maxWalkedDisks := by
  constructor
  · exact (noOverflow_meterOf_iff hok maxWalkedDisks src via dst 0 s).mpr (by decide)
  · intro n hn
    have hfits := (noOverflow_meterOf_iff hok n src via dst 0 s).mp hn
    rw [show (0 : UInt64).toNat = 0 from rfl] at hfits
    by_contra htall
    have hn65 : 65 ≤ n := Nat.lt_of_not_le htall
    have hpow : 2 ^ 65 ≤ 2 ^ n := Nat.pow_le_pow_right (by decide) hn65
    omega

/-- **The count is exact, and 64 is the exact limit.** The walk that `solve` makes is metered without
being changed. Up to 64 disks, at every call of any listener, of which the meter misses none, the
count is the number of calls completed before it, and no addition wraps around. Before a listener
that never fails, carrying a tower from any first count makes all its additions without wrapping
around exactly if the total fits, and then the total is its result; so `maxWalkedDisks` is the
tallest tower whose walk can be counted from zero. -/
theorem count_exact_up_to_limit (refuse : TooManyDisks → ε) (onMove : Move → Session σ ε Unit)
    (s : σ) :
    (∀ n src via dst count,
      ((carryM (metered onMove) n src via dst count).run (s, Meter.blank)).forget =
        (carryM (tally onMove) n src via dst count).run s) ∧
    (∀ disks ≤ 64,
      solve refuse onMove disks = (do
        Log.log (.solving disks)
        let count ← carryM (tally onMove) disks .a .b .c 0
        Log.log (.solved disks count)
        pure count) ∧
      (meterOf onMove disks .a .b .c 0 s).calls.length = (shown refuse onMove disks s).length ∧
      (∀ call ∈ (meterOf onMove disks .a .b .c 0 s).calls, call.1.toNat = call.2) ∧
      ∀ count ∈ (meterOf onMove disks .a .b .c 0 s).summands, count.toNat < 2 ^ 64 - 1) ∧
    (NeverFails onMove →
      (∀ n src via dst (count : UInt64),
        ((meterOf onMove n src via dst count s).NoOverflow ↔
          count.toNat + 2 ^ n - 1 ≤ 2 ^ 64 - 1) ∧
        (count.toNat + 2 ^ n - 1 ≤ 2 ^ 64 - 1 →
          ∃ total : UInt64, total.toNat = count.toNat + 2 ^ n - 1 ∧
            ((carryM (tally onMove) n src via dst count).run s).result = .ok total)) ∧
      ∀ src via dst,
        IsGreatest {n | (meterOf onMove n src via dst 0 s).NoOverflow} maxWalkedDisks) := by
  refine ⟨fun n src via dst count => forget_run_carryM_metered onMove n src via dst count s,
    ?_, ?_⟩
  · intro disks hdisks
    have hexact := exact_meterOf onMove hdisks .a .b .c s
    exact ⟨if_neg (Nat.not_lt.mpr hdisks), length_calls_meterOf refuse onMove hdisks s, hexact.1,
      hexact.2⟩
  · intro hok
    refine ⟨?_, fun src via dst => isGreatest_maxWalkedDisks hok src via dst s⟩
    intro n src via dst count
    exact ⟨noOverflow_meterOf_iff hok n src via dst count s,
      fun hfits => exists_result_carryM_tally hok src via dst hfits s⟩

/-- Sixty-four disks before a listener that does nothing, and three disks counted from five. -/
theorem count_exact_up_to_limit_silent :
    NeverFails (fun _ => pure () : Move → Session Unit TooManyDisks Unit) ∧
      (∀ count ∈ (meterOf (fun _ => pure () : Move → Session Unit TooManyDisks Unit)
        64 .a .b .c 0 ()).summands, count.toNat < 2 ^ 64 - 1) ∧
      ∃ total : UInt64, total.toNat = 12 ∧
        ((carryM (tally fun _ => pure ()) 3 .b .c .a 5 : Session Unit TooManyDisks UInt64).run
          ()).result = .ok total := by
  have hok : NeverFails (fun _ => pure () : Move → Session Unit TooManyDisks Unit) :=
    fun _ _ => rfl
  obtain ⟨-, hsolve, hcarry⟩ :=
    count_exact_up_to_limit id (fun _ => pure () : Move → Session Unit TooManyDisks Unit) ()
  exact ⟨hok, (hsolve 64 (by decide)).2.2.2, ((hcarry hok).1 3 .b .c .a 5).2 (by decide)⟩

end TowerOfHanoi
