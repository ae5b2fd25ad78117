import Mathlib.Dynamics.PeriodicPts.Defs
import TowerOfHanoi.Proofs.LegalWalk
import TowerOfHanoi.Proofs.MoveByNumber

/-!
# Every disk goes round

A walk shows the moves of all disks mixed together. Looked at one disk at a time it is simple: each
disk goes round the three pegs, always in the same direction, and disk `z + 1` moves for the first
time at number `2 ^ z` and then at every `2 ^ (z + 1)`-th move. So a walk that has been broken off
anywhere has left each disk on a peg that can be computed from the number of moves alone.

`filter_take_moves` finds the moves of one disk in the first `k` moves of a walk, by induction on `k`:
one more move belongs to one disk, and raises the number of turns of that disk and no other.
-/

namespace TowerOfHanoi

open Peg

/-! ## How often a disk has moved -/

/-- How often disk `z + 1` has moved in the first `k` moves of a walk. -/
def turns (z k : Nat) : Nat := (k + 2 ^ z) / 2 ^ (z + 1)

theorem turns_zero (z : Nat) : turns z 0 = 0 := by
  have hpos : 0 < 2 ^ z := Nat.two_pow_pos z
  rw [turns, Nat.pow_succ]
  exact Nat.div_eq_of_lt (by omega)

/-- The move after the `q`-th of a disk is its next one. -/
theorem turns_of_own {z q k : Nat} (h : k + 1 = 2 ^ z * (2 * q + 1)) :
    turns z k = q ∧ turns z (k + 1) = q + 1 := by
  have hpos : 0 < 2 ^ z := Nat.two_pow_pos z
  have hsplit : k + 1 = 2 ^ z * 2 * q + 2 ^ z := by rw [h, Nat.mul_add, Nat.mul_one, Nat.mul_assoc]
  unfold turns
  rw [Nat.pow_succ]
  constructor
  · rw [show k + 2 ^ z = 2 ^ z * 2 - 1 + 2 ^ z * 2 * q by omega,
      Nat.add_mul_div_left _ _ (by omega), Nat.div_eq_of_lt (by omega), Nat.zero_add]
  · rw [show k + 1 + 2 ^ z = 2 ^ z * 2 * (q + 1) by rw [Nat.mul_add]; omega,
      Nat.mul_div_cancel_left _ (by omega)]

/-- A move of another disk makes no difference. -/
theorem turns_of_other {z k : Nat} (h : trailingZeros (k + 1) ≠ z) :
    turns z (k + 1) = turns z k := by
  have hpos : 0 < 2 ^ z := Nat.two_pow_pos z
  have hndvd : ¬2 ^ (z + 1) ∣ k + 2 ^ z + 1 := by
    rintro ⟨t, ht⟩
    -- then the move would be one of disk `z + 1`
    obtain ⟨q, rfl⟩ : ∃ q, t = q + 1 := by
      refine Nat.exists_eq_succ_of_ne_zero ?_
      rintro rfl
      omega
    have hown : k + 1 = 2 ^ z * (2 * q + 1) := by
      rw [Nat.pow_succ, Nat.mul_assoc] at ht
      rw [show 2 * (q + 1) = 2 * q + 1 + 1 by omega, Nat.mul_add, Nat.mul_one] at ht
      omega
    rw [hown, trailingZeros_two_pow_mul] at h
    exact h rfl
  unfold turns
  rw [Nat.add_right_comm, Nat.succ_div_of_not_dvd hndvd]

/-- In a whole walk the largest disk moves once, and every other twice as often as the next larger
one. -/
theorem turns_whole (z w : Nat) : turns z (2 ^ (z + 1 + w) - 1) = 2 ^ w := by
  have hpos : 0 < 2 ^ z := Nat.two_pow_pos z
  have hw : 0 < 2 ^ w := Nat.two_pow_pos w
  have hle : 2 ^ z * 2 ≤ 2 ^ z * 2 * 2 ^ w := Nat.le_mul_of_pos_right _ hw
  unfold turns
  rw [Nat.pow_add, Nat.pow_succ,
    show 2 ^ z * 2 * 2 ^ w - 1 + 2 ^ z = 2 ^ z - 1 + 2 ^ z * 2 * 2 ^ w by omega,
    Nat.add_mul_div_left _ _ (by omega), Nat.div_eq_of_lt (by omega), Nat.zero_add]

/-! ## The moves of one disk -/

/-- **Which moves are those of one disk.** -/
theorem filter_take_moves {n k : Nat} (hk : k < 2 ^ n) (src via dst : Peg) (z : Nat) :
    ((moves n src via dst).take k).filter (·.disk = z + 1) =
      (List.range (turns z k)).map (moveAt n src via dst z) := by
  induction k with
  | zero => rw [turns_zero, List.take_zero, List.filter_nil, List.range_zero, List.map_nil]
  | succ k ih =>
    obtain ⟨q, hq⟩ := exists_eq_two_pow_mul (Nat.succ_pos k)
    have hlt : 2 ^ trailingZeros (k + 1) * (2 * q + 1) < 2 ^ n := by rwa [← hq]
    have hmove := getElem?_moves src via dst hlt
    rw [← hq, Nat.succ_sub_one] at hmove
    rw [List.take_add_one, hmove, List.filter_append, ih (by omega)]
    by_cases hz : trailingZeros (k + 1) = z
    · rw [hz] at hq
      obtain ⟨hbefore, hafter⟩ := turns_of_own hq
      rw [hafter, hbefore, List.range_succ, List.map_append]
      simp [moveAt, hz]
    · rw [turns_of_other hz]
      simp [moveAt, hz]

/-- The last of these moves ends where the next one begins. -/
theorem foldl_dst_moveAt (n : Nat) (src via dst : Peg) (z t : Nat) :
    ((List.range t).map (moveAt n src via dst z)).foldl (fun _ m => m.dst) src =
      numbered n src via dst (2 ^ (z + 1) * t) := by
  cases t with
  | zero => rfl
  | succ t => simp [List.range_succ, moveAt]

/-- A disk lies where its last move has taken it, or where it was if it has not moved. -/
theorem Position.WellFormed.mem_of_play? {p q : Position} {ms : List Move} {disk : Nat} {peg : Peg}
    (hp : p.WellFormed) (h : p.play? ms = some q) (hdisk : disk ∈ p peg) :
    disk ∈ q ((ms.filter (·.disk = disk)).foldl (fun _ m => m.dst) peg) := by
  induction ms generalizing p peg with
  | nil =>
    cases h
    exact hdisk
  | cons m ms ih =>
    obtain ⟨hlegal, hrest⟩ := play?_cons_eq_some.mp h
    by_cases hm : m.disk = disk
    · rw [List.filter_cons_of_pos (by simpa using hm), List.foldl_cons]
      refine ih (hp.shift hlegal) hrest ((hp.mem_shift hlegal _ _).mpr ?_)
      rw [if_pos hm.symm]
    · rw [List.filter_cons_of_neg (by simpa using hm)]
      refine ih (hp.shift hlegal) hrest ((hp.mem_shift hlegal _ _).mpr ?_)
      rwa [if_neg (Ne.symm hm)]

/-! ## Going round -/

namespace Peg

/-- From `a` to `b` to `c` to `a`. -/
def next : Peg → Peg
  | a => b
  | b => c
  | c => a

/-- From `a` to `c` to `b` to `a`. -/
def prev : Peg → Peg
  | a => c
  | c => b
  | b => a

/-- The direction in which a disk goes round when `disks` disks are carried from `a` to `c`. -/
def turn (disks disk : Nat) : Peg → Peg := if (disks - disk) % 2 = 0 then prev else next

theorem isPeriodicPt_turn (disks disk : Nat) (peg : Peg) :
    Function.IsPeriodicPt (turn disks disk) 3 peg := by
  show (turn disks disk)^[3] peg = peg
  unfold turn
  split
  · cases peg <;> rfl
  · cases peg <;> rfl

/-- One turn of disk `i` adds `2 ^ i` to the number of its peg. -/
theorem numbered_add_two_pow {disks i : Nat} (h : i ≤ disks) (x : Nat) :
    numbered disks a b c (x + 2 ^ i) = turn disks i (numbered disks a b c x) := by
  have hparity : (disks - i) % 2 = 0 ↔ disks % 2 = i % 2 := by omega
  rcases Nat.mod_two_eq_zero_or_one disks with hd | hd <;>
    rcases Nat.mod_two_eq_zero_or_one i with hi | hi <;>
    rcases mod_three_cases x with hx | hx | hx <;>
    simp [numbered, turn, next, prev, hparity, two_pow_mod_three, Nat.add_mod, hd, hi, hx]

theorem numbered_two_pow_mul {disks i : Nat} (h : i ≤ disks) (t : Nat) :
    numbered disks a b c (2 ^ i * t) = (turn disks i)^[t] a := by
  induction t with
  | zero => rfl
  | succ t ih => rw [Nat.mul_succ, numbered_add_two_pow h, ih, Function.iterate_succ_apply']

end Peg

open Position

/-! ## A walk that is broken off -/

section

variable {disks k z : Nat}

theorem filter_take_moves_abc (hk : k < 2 ^ disks) (hz : z + 1 ≤ disks) :
    ((moves disks .a .b .c).take k).filter (·.disk = z + 1) =
      (List.range (turns z k)).map fun t =>
        ⟨z + 1, (turn disks (z + 1))^[t] .a, (turn disks (z + 1))^[t + 1] .a⟩ := by
  rw [filter_take_moves hk]
  apply List.map_congr_left
  intro t _
  rw [moveAt, numbered_two_pow_mul hz, numbered_two_pow_mul hz]

/-- The first moves of a walk lead to a position in which each disk lies where its turns have taken
it. -/
theorem exists_play?_take_moves (hk : k < 2 ^ disks) (hz : z + 1 ≤ disks) :
    ∃ q, (allOn .a disks).play? ((moves disks .a .b .c).take k) = some q ∧
      ∀ peg, z + 1 ∈ q peg ↔ peg = (turn disks (z + 1))^[turns z k] .a := by
  have hstart := wellFormed_allOn .a disks
  have hwalk := play?_moves_allOn distinct_abc disks
  rw [← List.take_append_drop k (moves disks .a .b .c)] at hwalk
  obtain ⟨q, hplay, -⟩ := play?_append_eq_some.mp hwalk
  have hbottom : z + 1 ∈ allOn .a disks .a := by
    rw [allOn_self, mem_tower]
    exact ⟨Nat.succ_pos z, hz⟩
  have hmem := hstart.mem_of_play? hplay hbottom
  rw [filter_take_moves hk, foldl_dst_moveAt, numbered_two_pow_mul hz] at hmem
  refine ⟨q, hplay, ?_⟩
  intro peg
  constructor
  · intro hpeg
    exact (hstart.of_play? hplay).apart hpeg hmem
  · rintro rfl
    exact hmem

theorem length_filter_moves (hz : z + 1 ≤ disks) :
    ((moves disks .a .b .c).filter (·.disk = z + 1)).length = 2 ^ (disks - (z + 1)) := by
  have hpow : 0 < 2 ^ disks := Nat.two_pow_pos disks
  have hall : (moves disks .a .b .c).take (2 ^ disks - 1) = moves disks .a .b .c := by
    rw [← length_moves disks .a .b .c, List.take_length]
  obtain ⟨w, rfl⟩ := Nat.exists_eq_add_of_le hz
  rw [← hall, filter_take_moves (by omega), List.length_map, List.length_range, turns_whole,
    Nat.add_sub_cancel_left]

end

/-- **Every disk goes round, and its turns can be counted.** Let a walk of at most 64 disks be shown
to any listener, and take its first `k` moves. Disk `i` has moved `(k + 2 ^ (i - 1)) / 2 ^ i` times
among them. Its moves go round in one direction, the first from `a` and every other from where the
one before it ended. So it lies on the peg that this number of turns leads to. If nothing breaks the
walk off, disk `i` moves `2 ^ (disks - i)` times in all. -/
theorem shown_moves_go_round {σ ε : Type} (refuse : TooManyDisks → ε)
    (onMove : Move → Session σ ε Unit) (s : σ) {disks : Nat} (hdisks : disks ≤ 64) :
    (NeverFails onMove → (shown refuse onMove disks s).length = 2 ^ disks - 1) ∧
    ∀ i, 1 ≤ i → i ≤ disks →
      (NeverFails onMove →
        ((shown refuse onMove disks s).filter (·.disk = i)).length = 2 ^ (disks - i)) ∧
      ∀ k ≤ (shown refuse onMove disks s).length,
        let first := (shown refuse onMove disks s).take k
        let count := (k + 2 ^ (i - 1)) / 2 ^ i
        (first.filter (·.disk = i)).length = count ∧
        (∀ j < count, (first.filter (·.disk = i))[j]? =
          some ⟨i, (turn disks i)^[j] .a, (turn disks i)^[j + 1] .a⟩) ∧
        ∃ q, (allOn .a disks).play? first = some q ∧
          ∀ peg, i ∈ q peg ↔ peg = (turn disks i)^[count % 3] .a := by
  constructor
  · intro hok
    rw [hok.shown_eq refuse hdisks, length_moves]
  · intro i hpos hi
    obtain ⟨z, rfl⟩ : ∃ z, i = z + 1 := ⟨i - 1, by omega⟩
    constructor
    · intro hok
      rw [hok.shown_eq refuse hdisks, length_filter_moves hi]
    · intro k hk first count
      have hcount : count = turns z k := rfl
      have hlt : k < 2 ^ disks := by
        have hle := length_shown_le refuse onMove disks s
        have hpow : 0 < 2 ^ disks := Nat.two_pow_pos disks
        omega
      have hfirst : first = (moves disks .a .b .c).take k := by
        obtain ⟨rest, hrest⟩ := shown_isPrefix refuse onMove disks s
        rw [← hrest, List.take_append_of_le_length hk]
      rw [hfirst, filter_take_moves_abc hlt hi, hcount]
      refine ⟨?_, ?_, ?_⟩
      · rw [List.length_map, List.length_range]
      · intro j hj
        rw [List.getElem?_map, List.getElem?_range hj, Option.map_some]
      · rw [(isPeriodicPt_turn disks (z + 1) .a).iterate_mod_apply]
        exact exists_play?_take_moves hlt hi

/-- Three disks, broken off at the fifth move: disk 1 has moved three times and is back on `a`. -/
theorem shown_moves_go_round_halted :
    (shown Journal.Interruption.refused (Journal.keep (some 5)) 3 #[]).length = 5 ∧
      let ofDisk := ((shown Journal.Interruption.refused (Journal.keep (some 5)) 3 #[]).take 5).filter
        (·.disk = 1)
      ofDisk.length = 3 ∧ ofDisk[1]? = some ⟨1, .c, .b⟩ ∧ ofDisk[2]? = some ⟨1, .b, .a⟩ ∧
      ∃ q, (allOn .a 3).play?
          ((shown Journal.Interruption.refused (Journal.keep (some 5)) 3 #[]).take 5) = some q ∧
        ∀ peg, 1 ∈ q peg ↔ peg = .a := by
  have hlength : (shown Journal.Interruption.refused (Journal.keep (some 5)) 3 #[]).length = 5 := by
    rfl
  obtain ⟨-, hround⟩ := shown_moves_go_round Journal.Interruption.refused (Journal.keep (some 5)) #[]
    (show 3 ≤ 64 by decide)
  obtain ⟨-, hfirst⟩ := hround 1 (by decide) (by decide)
  obtain ⟨hcount, hmoves, hend⟩ := hfirst 5 (by rw [hlength])
  exact ⟨hlength, hcount, hmoves 1 (by decide), hmoves 2 (by decide), hend⟩

end TowerOfHanoi
