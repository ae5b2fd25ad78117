import Mathlib.Data.Nat.Bitwise
import TowerOfHanoi.Proofs.Listening

/-!
# A move from its number

The walk is a recursion in which the pegs change their roles at every call. All the same each of its
moves can be told from its number alone, without walking. Every number from one on is
`2 ^ z * (2 * q + 1)` for one `z` and one `q`. The move of that number carries disk `z + 1`, and it is
the move after the `q`-th of that disk: `moveAt` says where it goes.

The pegs have numbers modulo three (`Peg.numbered`). The source has number `0` and the destination
number `2 ^ n`, and with this choice the numbers do not have to be changed on the way down: the first
recursive call uses the same ones, and the second uses the same ones with `2 ^ n` added, which is
also by how much its moves come later.
-/

namespace TowerOfHanoi

/-! ## Odd numbers and powers of two -/

/-- How many zeros the binary digits of a positive number end with. -/
def trailingZeros (k : Nat) : Nat :=
  if k = 0 ∨ k % 2 = 1 then 0 else trailingZeros (k / 2) + 1
termination_by k

theorem trailingZeros_odd (q : Nat) : trailingZeros (2 * q + 1) = 0 := by
  rw [trailingZeros, if_pos (by omega)]

theorem trailingZeros_double {k : Nat} (h : 0 < k) :
    trailingZeros (2 * k) = trailingZeros k + 1 := by
  rw [trailingZeros, if_neg (by omega), Nat.mul_div_cancel_left k (by decide)]

theorem two_pow_mul_odd_pos (z q : Nat) : 0 < 2 ^ z * (2 * q + 1) :=
  Nat.mul_pos (Nat.two_pow_pos z) (Nat.succ_pos _)

@[simp]
theorem trailingZeros_two_pow_mul (z q : Nat) : trailingZeros (2 ^ z * (2 * q + 1)) = z := by
  induction z with
  | zero => rw [Nat.pow_zero, Nat.one_mul, trailingZeros_odd]
  | succ z ih =>
    rw [Nat.pow_succ', Nat.mul_assoc, trailingZeros_double (two_pow_mul_odd_pos z q), ih]

theorem exists_eq_two_pow_mul {k : Nat} (h : 0 < k) :
    ∃ q, k = 2 ^ trailingZeros k * (2 * q + 1) := by
  induction k using Nat.strongRecOn with
  | ind k ih =>
    rcases Nat.even_or_odd' k with ⟨half, rfl | rfl⟩
    · obtain ⟨q, hq⟩ := ih half (by omega) (by omega)
      refine ⟨q, ?_⟩
      rw [trailingZeros_double (by omega), Nat.pow_succ', Nat.mul_assoc, ← hq]
    · refine ⟨half, ?_⟩
      rw [trailingZeros_odd, Nat.pow_zero, Nat.one_mul]

/-- A power of two leaves no odd factor. -/
theorem eq_of_two_pow_mul_eq {n z q : Nat} (h : 2 ^ z * (2 * q + 1) = 2 ^ n) : z = n ∧ q = 0 := by
  have hz : z = n := by
    have hzeros := trailingZeros_two_pow_mul n 0
    rwa [Nat.mul_zero, Nat.zero_add, Nat.mul_one, ← h, trailingZeros_two_pow_mul] at hzeros
  subst hz
  have hq : 2 * q + 1 = 1 := Nat.eq_of_mul_eq_mul_left (Nat.two_pow_pos z) (by rw [h, Nat.mul_one])
  exact ⟨rfl, by omega⟩

/-- Between two powers of two, the smaller one can be taken out of the odd factor. -/
theorem exists_of_two_pow_lt {n z q : Nat} (hlow : 2 ^ n < 2 ^ z * (2 * q + 1))
    (hhigh : 2 ^ z * (2 * q + 1) < 2 ^ (n + 1)) : ∃ w p, n = z + w + 1 ∧ q = 2 ^ w + p := by
  have hlt : z < n := by
    by_contra hge
    -- otherwise the number is a multiple of the smaller power, and there is none between the two
    obtain ⟨e, rfl⟩ := Nat.exists_eq_add_of_le (Nat.le_of_not_lt hge)
    rw [Nat.pow_add, Nat.mul_assoc] at hlow hhigh
    rw [Nat.pow_succ] at hhigh
    have hone : 1 < 2 ^ e * (2 * q + 1) :=
      Nat.lt_of_mul_lt_mul_left (a := 2 ^ n) (by rwa [Nat.mul_one])
    have htwo : 2 ^ e * (2 * q + 1) < 2 := Nat.lt_of_mul_lt_mul_left hhigh
    omega
  obtain ⟨w, hn⟩ := Nat.exists_eq_add_of_lt hlt
  rw [hn, Nat.add_assoc, Nat.pow_add, Nat.pow_succ'] at hlow
  have hodd : 2 * 2 ^ w < 2 * q + 1 := Nat.lt_of_mul_lt_mul_left hlow
  obtain ⟨p, hp⟩ := Nat.exists_eq_add_of_le (show 2 ^ w ≤ q by omega)
  exact ⟨w, p, hn, hp⟩

theorem two_pow_mul_add {n z w : Nat} (h : n = z + w + 1) (p : Nat) :
    2 ^ z * (2 * (2 ^ w + p) + 1) = 2 ^ n + 2 ^ z * (2 * p + 1) := by
  rw [h, Nat.add_assoc z, Nat.pow_add, Nat.pow_succ', ← Nat.mul_add]
  congr 1
  omega

/-! ## Numbering the pegs -/

theorem two_pow_mod_three (n : Nat) : 2 ^ n % 3 = if n % 2 = 0 then 1 else 2 := by
  induction n with
  | zero => rfl
  | succ n ih =>
    rw [Nat.pow_succ]
    split at ih
    · rw [if_neg (by omega)]
      omega
    · rw [if_pos (by omega)]
      omega

theorem two_pow_mod_three_cases (n : Nat) : 2 ^ n % 3 = 1 ∨ 2 ^ n % 3 = 2 := by
  rw [two_pow_mod_three]
  split
  · exact Or.inl rfl
  · exact Or.inr rfl

theorem mod_three_cases (x : Nat) : x % 3 = 0 ∨ x % 3 = 1 ∨ x % 3 = 2 := by
  omega

namespace Peg

/-- The peg that has number `x`, modulo three, when `n` disks are carried: the source has number `0`
and the destination number `2 ^ n`. -/
def numbered (n : Nat) (src via dst : Peg) (x : Nat) : Peg :=
  if x % 3 = 0 then src else if x % 3 = 2 ^ n % 3 then dst else via

section

variable (n : Nat) (src via dst : Peg)

theorem numbered_zero : numbered n src via dst 0 = src := rfl

theorem numbered_two_pow : numbered n src via dst (2 ^ n) = dst := by
  have hne : 2 ^ n % 3 ≠ 0 := by
    rcases two_pow_mod_three_cases n with h | h
    · omega
    · omega
  rw [numbered, if_neg hne, if_pos rfl]

/-- The first recursive call numbers the pegs in the same way. -/
theorem numbered_outward (x : Nat) :
    numbered (n + 1) src via dst x = numbered n src dst via x := by
  rcases two_pow_mod_three_cases n with h | h <;> rcases mod_three_cases x with hx | hx | hx <;>
    simp [numbered, Nat.pow_succ, Nat.mul_mod, h, hx]

/-- The second recursive call numbers them from its own source on. -/
theorem numbered_onward (x : Nat) :
    numbered (n + 1) src via dst (2 ^ n + x) = numbered n via src dst x := by
  rcases two_pow_mod_three_cases n with h | h <;> rcases mod_three_cases x with hx | hx | hx <;>
    simp [numbered, Nat.pow_succ, Nat.mul_mod, Nat.add_mod, h, hx]

end

/-- The number of a peg when `disks` disks are carried from `a` to `c`. -/
def number (disks : Nat) : Peg → Nat
  | a => 0
  | b => if disks % 2 = 1 then 1 else 2
  | c => if disks % 2 = 1 then 2 else 1

theorem number_numbered (disks x : Nat) : (numbered disks a b c x).number disks = x % 3 := by
  rcases Nat.mod_two_eq_zero_or_one disks with hd | hd <;>
    rcases mod_three_cases x with hx | hx | hx <;>
    simp [numbered, number, two_pow_mod_three, hd, hx]

end Peg

open Peg

/-! ## The move of a given number -/

/-- Move number `2 ^ z * (2 * q + 1)` when `n` disks are carried. -/
def moveAt (n : Nat) (src via dst : Peg) (z q : Nat) : Move where
  disk := z + 1
  src := numbered n src via dst (2 ^ (z + 1) * q)
  dst := numbered n src via dst (2 ^ (z + 1) * (q + 1))

section

variable (n : Nat) (src via dst : Peg)

theorem moveAt_outward (z q : Nat) :
    moveAt (n + 1) src via dst z q = moveAt n src dst via z q := by
  simp only [moveAt, numbered_outward]

theorem moveAt_middle : moveAt (n + 1) src via dst n 0 = ⟨n + 1, src, dst⟩ := by
  simp only [moveAt, Nat.mul_zero, Nat.zero_add, Nat.mul_one, numbered_two_pow, numbered_zero]

theorem moveAt_onward {z w : Nat} (h : n = z + w + 1) (q : Nat) :
    moveAt (n + 1) src via dst z (2 ^ w + q) = moveAt n via src dst z q := by
  have hpow : 2 ^ (z + 1) * 2 ^ w = 2 ^ n := by
    rw [← Nat.pow_add, h, Nat.add_right_comm]
  simp only [moveAt, Nat.add_assoc, Nat.mul_add (2 ^ (z + 1)) (2 ^ w), hpow, numbered_onward]

end

/-- **The walk is given by its numbers.** -/
theorem getElem?_moves {n z q : Nat} (src via dst : Peg) (h : 2 ^ z * (2 * q + 1) < 2 ^ n) :
    (moves n src via dst)[2 ^ z * (2 * q + 1) - 1]? = some (moveAt n src via dst z q) := by
  -- the list falls into three parts at `2 ^ n`, and so do the numbers
  induction n generalizing q src via dst with
  | zero =>
    have hpos := two_pow_mul_odd_pos z q
    omega
  | succ n ih =>
    have hpos := two_pow_mul_odd_pos z q
    have hlength := length_moves n src dst via
    rw [moves_succ]
    rcases Nat.lt_trichotomy (2 ^ z * (2 * q + 1)) (2 ^ n) with hfirst | hmiddle | hsecond
    · rw [List.getElem?_append_left (by omega), ih src dst via hfirst, moveAt_outward]
    · obtain ⟨rfl, rfl⟩ := eq_of_two_pow_mul_eq hmiddle
      rw [List.getElem?_append_right (by omega), hmiddle, hlength, Nat.sub_self,
        List.getElem?_cons_zero, moveAt_middle]
    · obtain ⟨w, p, hn, rfl⟩ := exists_of_two_pow_lt hsecond h
      have hpow : 0 < 2 ^ n := Nat.two_pow_pos n
      have hp := two_pow_mul_odd_pos z p
      rw [two_pow_mul_add hn, Nat.pow_succ] at h
      have hindex : 2 ^ n + 2 ^ z * (2 * p + 1) - 1 - (2 ^ n - 1) =
          2 ^ z * (2 * p + 1) - 1 + 1 := by
        omega
      rw [two_pow_mul_add hn, List.getElem?_append_right (by omega), hlength, hindex,
        List.getElem?_cons_succ, ih via src dst (by omega), moveAt_onward n src via dst hn]

/-- Whoever is listening, the moves shown are those of the walk, as far as it goes. -/
theorem getElem?_shown {σ ε : Type} (refuse : TooManyDisks → ε) (onMove : Move → Session σ ε Unit)
    {disks k : Nat} {s : σ} (h : k < (shown refuse onMove disks s).length) :
    (shown refuse onMove disks s)[k]? = (moves disks .a .b .c)[k]? := by
  obtain ⟨rest, hrest⟩ := shown_isPrefix refuse onMove disks s
  rw [← hrest, List.getElem?_append_left h]

theorem length_shown_le {σ ε : Type} (refuse : TooManyDisks → ε) (onMove : Move → Session σ ε Unit)
    (disks : Nat) (s : σ) : (shown refuse onMove disks s).length ≤ 2 ^ disks - 1 := by
  have h := (shown_isPrefix refuse onMove disks s).length_le
  rwa [length_moves] at h

/-! ## Reading the pegs off the bits -/

/-- Taking one away clears the last bit that is set. -/
theorem and_pred_two_pow_mul (z q : Nat) :
    2 ^ z * (2 * q + 1) &&& (2 ^ z * (2 * q + 1) - 1) = 2 ^ (z + 1) * q := by
  induction z with
  | zero =>
    have hbits := Nat.land_bit true q false q
    simpa [Nat.bit_val] using hbits
  | succ z ih =>
    have hpos := two_pow_mul_odd_pos z q
    rw [Nat.pow_succ', Nat.mul_assoc, Nat.pow_succ' (n := z + 1), Nat.mul_assoc, ← ih]
    generalize 2 ^ z * (2 * q + 1) = k at hpos
    have hpred : 2 * k - 1 = 2 * (k - 1) + 1 := by omega
    have hbits := Nat.land_bit false k true (k - 1)
    rw [hpred]
    simpa [Nat.bit_val] using hbits

/-- It also sets all the bits after it. -/
theorem or_pred_two_pow_mul (z q : Nat) :
    (2 ^ z * (2 * q + 1) ||| (2 ^ z * (2 * q + 1) - 1)) + 1 = 2 ^ (z + 1) * (q + 1) := by
  induction z with
  | zero =>
    have hbits : 2 * q + 1 ||| 2 * q = 2 * q + 1 := by
      simpa [Nat.bit_val] using Nat.lor_bit true q false q
    rw [Nat.pow_zero, Nat.one_mul, Nat.add_sub_cancel, hbits]
    omega
  | succ z ih =>
    have hpos := two_pow_mul_odd_pos z q
    rw [Nat.pow_succ', Nat.mul_assoc, Nat.pow_succ' (n := z + 1), Nat.mul_assoc, ← ih]
    generalize 2 ^ z * (2 * q + 1) = k at hpos
    have hpred : 2 * k - 1 = 2 * (k - 1) + 1 := by omega
    have hbits : 2 * k ||| 2 * (k - 1) + 1 = 2 * (k ||| (k - 1)) + 1 := by
      simpa [Nat.bit_val] using Nat.lor_bit false k true (k - 1)
    rw [hpred, hbits]
    omega

/-- **Every move is given by the bits of its number.** Up to 64 disks a listener that never fails is
shown `2 ^ disks - 1` moves, and any other listener the first of them. The move of number `k` carries
the disk whose number is one more than the zeros that `k` ends with. It goes from the peg whose
number is `k` without its last bit that is set, to the peg whose number is one more than `k` with all
bits after that one set, both modulo three. -/
theorem shown_move_by_bits {σ ε : Type} (refuse : TooManyDisks → ε)
    (onMove : Move → Session σ ε Unit) (s : σ) (disks : Nat) :
    (disks ≤ 64 → NeverFails onMove →
      (shown refuse onMove disks s).length = 2 ^ disks - 1) ∧
    ∀ k, 1 ≤ k → k ≤ (shown refuse onMove disks s).length →
      ∃ move, (shown refuse onMove disks s)[k - 1]? = some move ∧
        move.disk = 1 + trailingZeros k ∧
        move.src.number disks = (k &&& (k - 1)) % 3 ∧
        move.dst.number disks = ((k ||| (k - 1)) + 1) % 3 := by
  constructor
  · intro hdisks hok
    rw [hok.shown_eq refuse hdisks, length_moves]
  · intro k hpos hk
    have hlast := length_shown_le refuse onMove disks s
    obtain ⟨q, hq⟩ := exists_eq_two_pow_mul hpos
    have hlt : 2 ^ trailingZeros k * (2 * q + 1) < 2 ^ disks := by omega
    refine ⟨moveAt disks .a .b .c (trailingZeros k) q, ?_, Nat.add_comm _ 1, ?_, ?_⟩
    · rw [getElem?_shown refuse onMove (by omega), ← getElem?_moves .a .b .c hlt, ← hq]
    · have hand := and_pred_two_pow_mul (trailingZeros k) q
      rw [← hq] at hand
      rw [hand]
      exact number_numbered disks _
    · have hor := or_pred_two_pow_mul (trailingZeros k) q
      rw [← hq] at hor
      rw [hor]
      exact number_numbered disks _

/-- The sixth of the seven moves of three disks takes disk 2 from `b` to `c`. -/
theorem shown_move_by_bits_six :
    NeverFails (Journal.keep none) ∧
      ∃ move, (shown Journal.Interruption.refused (Journal.keep none) 3 #[])[5]? = some move ∧
        move.disk = 2 ∧ move.src.number 3 = 1 ∧ move.dst.number 3 = 2 := by
  have hok : NeverFails (Journal.keep none) := fun _ _ => rfl
  obtain ⟨hlength, hmove⟩ :=
    shown_move_by_bits Journal.Interruption.refused (Journal.keep none) #[] 3
  have hk : 6 ≤ (shown Journal.Interruption.refused (Journal.keep none) 3 #[]).length := by
    rw [hlength (by decide) hok]
    decide
  obtain ⟨move, hshown, hdisk, hsrc, hdst⟩ := hmove 6 (by decide) hk
  have hzeros : trailingZeros 6 = 1 := trailingZeros_two_pow_mul 1 1
  rw [hzeros] at hdisk
  exact ⟨hok, move, hshown, hdisk, hsrc, hdst⟩

end TowerOfHanoi
