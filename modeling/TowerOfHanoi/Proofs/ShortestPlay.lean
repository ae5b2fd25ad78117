import Mathlib.Tactic.ByContra
import TowerOfHanoi.Proofs.LegalWalk

/-!
# No play is shorter

How far is a position from having its `n` smallest disks gathered on one peg? `distance` answers this
from where the disks lie, without regard to any play: if the largest of them is not on the goal, the
smaller ones have to be gathered out of its way first, and brought on top of it afterwards.

A single legal move changes the distance by at most one, so no play is shorter than the distance it
has to cover, however often it moves the largest disk and wherever it wanders. And from any
position at most one legal move comes closer, so a play that is no longer than the distance has no
choice at any point. That makes the recursive solution the only shortest play.
-/

namespace TowerOfHanoi

/-! ## The third peg -/

namespace Peg

/-- The peg that is neither of two different pegs. -/
def third : Peg → Peg → Peg
  | a, b => c
  | b, a => c
  | a, c => b
  | c, a => b
  | b, c => a
  | c, b => a
  | a, a => a
  | b, b => b
  | c, c => c

@[simp]
theorem third_self (x : Peg) : third x x = x := by
  cases x <;> rfl

theorem third_comm (x y : Peg) : third x y = third y x := by
  cases x <;> cases y <;> rfl

theorem third_ne_left {x y : Peg} (h : x ≠ y) : third x y ≠ x := by
  cases x <;> cases y <;> simp_all [third]

theorem eq_third {x y z : Peg} (h : x ≠ y) (hx : z ≠ x) (hy : z ≠ y) : z = third x y := by
  cases x <;> cases y <;> cases z <;> simp_all [third]

end Peg

open Peg

/-! ## The distance from a goal -/

/-- How many moves are needed to gather disks `1` to `n` on `goal`, if each disk lies where `loc`
says. -/
def distance (loc : Nat → Peg) : Nat → Peg → Nat
  | 0, _ => 0
  | n + 1, goal =>
    distance loc n (third (loc (n + 1)) goal) + if loc (n + 1) = goal then 0 else 2 ^ n

variable {loc loc' loc'' : Nat → Peg} {n k : Nat} {goal : Peg} {m m' : Move}

theorem distance_succ (loc : Nat → Peg) (n : Nat) (goal : Peg) :
    distance loc (n + 1) goal =
      distance loc n (third (loc (n + 1)) goal) + if loc (n + 1) = goal then 0 else 2 ^ n := rfl

/-- A tower on a single peg is `2 ^ n - 1` moves away from any other peg. -/
theorem distance_of_gathered {peg : Peg} (h : ∀ i, 1 ≤ i → i ≤ n → loc i = peg) (goal : Peg) :
    distance loc n goal = if peg = goal then 0 else 2 ^ n - 1 := by
  induction n generalizing goal with
  | zero =>
    split
    · rfl
    · rfl
  | succ n ih =>
    have hlargest : loc (n + 1) = peg := h (n + 1) (by omega) (by omega)
    have hsmaller := ih fun i hpos hi => h i hpos (by omega)
    rw [distance_succ, hlargest, hsmaller]
    by_cases hgoal : peg = goal
    · subst hgoal
      simp
    · have hpos : 0 < 2 ^ n := Nat.two_pow_pos n
      rw [if_neg hgoal, if_neg hgoal, if_neg (third_ne_left hgoal).symm, Nat.pow_succ]
      omega

/-- The distance when the largest disk is about to go from `x` to `y`, with all smaller disks out
of its way. -/
theorem distance_poised {x y : Peg} (hxy : x ≠ y) (hlargest : loc (k + 1) = x)
    (hsmaller : ∀ i, 1 ≤ i → i ≤ k → loc i = third x y) (goal : Peg) :
    distance loc (k + 1) goal =
      if x = goal then 2 ^ k - 1 else if y = goal then 2 ^ k else 2 ^ (k + 1) - 1 := by
  have hpos : 0 < 2 ^ k := Nat.two_pow_pos k
  rw [distance_succ, hlargest, distance_of_gathered hsmaller, Nat.pow_succ]
  by_cases hx : x = goal
  · subst hx
    rw [third_self, if_neg (third_ne_left hxy), if_pos rfl, if_pos rfl]
    omega
  · by_cases hy : y = goal
    · subst hy
      rw [if_pos rfl, if_neg hx, if_neg hx, if_pos rfl]
      omega
    · have hthird : third x y ≠ third x goal := by
        rw [← eq_third hxy (Ne.symm hx) (Ne.symm hy), third_comm]
        exact (third_ne_left (Ne.symm hx)).symm
      rw [if_neg hthird, if_neg hx, if_neg hx, if_neg hy]
      omega

/-! ## What one move does to the distance -/

/-- How a legal move changes where the `n` smallest disks lie: one disk goes from `m.src` to
`m.dst`, the others stay, and all that are smaller than it lie on the third peg. -/
structure Relocation (n : Nat) (loc : Nat → Peg) (m : Move) (loc' : Nat → Peg) : Prop where
  src_ne_dst : m.src ≠ m.dst
  start : loc m.disk = m.src
  finish : loc' m.disk = m.dst
  unmoved : ∀ i, 1 ≤ i → i ≤ n → i ≠ m.disk → loc' i = loc i
  smaller : ∀ i, 1 ≤ i → i ≤ n → i < m.disk → loc i = third m.src m.dst

namespace Relocation

/-- When the largest disk moves, all others are gathered. -/
theorem gathered (h : Relocation n loc m loc') (hk : k < n) (hdisk : m.disk = k + 1) :
    ∀ i, 1 ≤ i → i ≤ k → loc i = third m.src m.dst := by
  intro i hpos hi
  exact h.smaller i hpos (by omega) (by omega)

/-- When another disk moves, the part of the largest in the distance stays the same. -/
theorem distance_unmoved (h : Relocation n loc m loc') (hk : k < n) (hdisk : m.disk ≠ k + 1)
    (goal : Peg) :
    distance loc' (k + 1) goal =
      distance loc' k (third (loc (k + 1)) goal) + if loc (k + 1) = goal then 0 else 2 ^ k := by
  rw [distance_succ, h.unmoved (k + 1) (by omega) hk (Ne.symm hdisk)]

/-- Before and after a move of the largest disk. -/
theorem distance_largest (h : Relocation n loc m loc') (hk : k < n) (hdisk : m.disk = k + 1)
    (goal : Peg) :
    distance loc (k + 1) goal =
        (if m.src = goal then 2 ^ k - 1 else if m.dst = goal then 2 ^ k else 2 ^ (k + 1) - 1) ∧
      distance loc' (k + 1) goal =
        (if m.dst = goal then 2 ^ k - 1 else if m.src = goal then 2 ^ k else 2 ^ (k + 1) - 1) := by
  constructor
  · exact distance_poised h.src_ne_dst (hdisk ▸ h.start) (h.gathered hk hdisk) goal
  · apply distance_poised h.src_ne_dst.symm (hdisk ▸ h.finish)
    intro i hpos hi
    rw [h.unmoved i hpos (by omega) (by omega), third_comm]
    exact h.gathered hk hdisk i hpos hi

/-- **A move covers at most one unit of distance.** -/
theorem distance_le_succ (h : Relocation n loc m loc') (hk : k ≤ n) (goal : Peg) :
    distance loc k goal ≤ distance loc' k goal + 1 := by
  induction k generalizing goal with
  | zero => exact Nat.zero_le _
  | succ k ih =>
    by_cases hdisk : m.disk = k + 1
    · have hpos : 0 < 2 ^ k := Nat.two_pow_pos k
      obtain ⟨hbefore, hafter⟩ := h.distance_largest hk hdisk goal
      rw [hbefore, hafter]
      by_cases hsrc : m.src = goal
      · -- the largest disk leaves the goal, which is a step back
        have hdst : m.dst ≠ goal := hsrc ▸ h.src_ne_dst.symm
        rw [if_pos hsrc, if_neg hdst, if_pos hsrc]
        omega
      · by_cases hdst : m.dst = goal
        · rw [if_neg hsrc, if_pos hdst, if_pos hdst]
          omega
        · -- it goes from one wrong peg to another, which changes nothing
          rw [if_neg hsrc, if_neg hdst, if_neg hdst, if_neg hsrc]
          omega
    · have hsmaller := ih (by omega) (third (loc (k + 1)) goal)
      rw [distance_succ, h.distance_unmoved hk hdisk]
      omega

/-- A move that comes closer either takes the largest disk to the goal, all smaller ones being
gathered, or comes closer to gathering them. -/
theorem closer_cases (h : Relocation n loc m loc') (hk : k < n)
    (hcloser : distance loc' (k + 1) goal + 1 = distance loc (k + 1) goal) :
    (m.disk = k + 1 ∧ m.dst = goal ∧ distance loc k (third (loc (k + 1)) goal) = 0) ∨
      (m.disk ≠ k + 1 ∧ distance loc' k (third (loc (k + 1)) goal) + 1 =
        distance loc k (third (loc (k + 1)) goal)) := by
  by_cases hdisk : m.disk = k + 1
  · left
    have hpos : 0 < 2 ^ k := Nat.two_pow_pos k
    obtain ⟨hbefore, hafter⟩ := h.distance_largest hk hdisk goal
    have hdst : m.dst = goal := by
      by_contra hdst
      rw [hbefore, hafter, if_neg hdst, if_neg hdst] at hcloser
      split at hcloser
      · omega
      · omega
    refine ⟨hdisk, hdst, ?_⟩
    rw [distance_of_gathered (h.gathered hk hdisk), ← hdst, ← hdisk, h.start, if_pos rfl]
  · right
    rw [distance_succ loc, h.distance_unmoved hk hdisk] at hcloser
    exact ⟨hdisk, by omega⟩

/-- **Only one move comes closer.** -/
theorem closer_unique (h : Relocation n loc m loc') (h' : Relocation n loc m' loc'') (hk : k ≤ n)
    (hcloser : distance loc' k goal + 1 = distance loc k goal)
    (hcloser' : distance loc'' k goal + 1 = distance loc k goal) : m = m' := by
  induction k generalizing goal with
  | zero => cases hcloser
  | succ k ih =>
    rcases h.closer_cases hk hcloser with ⟨hdisk, hdst, hzero⟩ | ⟨hdisk, hless⟩
    · rcases h'.closer_cases hk hcloser' with ⟨hdisk', hdst', -⟩ | ⟨hdisk', hless'⟩
      · have hsrc : m.src = m'.src := by
          rw [← h.start, ← h'.start, hdisk, hdisk']
        obtain ⟨disk, src, dst⟩ := m
        obtain ⟨disk', src', dst'⟩ := m'
        simp_all
      · -- `m` goes because the smaller disks are gathered, so `m'` cannot gather them further
        omega
    · rcases h'.closer_cases hk hcloser' with ⟨hdisk', hdst', hzero'⟩ | ⟨hdisk', hless'⟩
      · omega
      · exact ih (by omega) hless hless'

end Relocation

namespace Position

variable {p q q' : Position}

/-! ## Where the disks of a position lie -/

/-- The peg on which a disk lies. -/
def pegOf (p : Position) (disk : Nat) : Peg :=
  if disk ∈ p .a then .a else if disk ∈ p .b then .b else .c

theorem WellFormed.pegOf_eq (hp : p.WellFormed) {disk : Nat} {peg : Peg} (h : disk ∈ p peg) :
    p.pegOf disk = peg := by
  unfold pegOf
  by_cases ha : disk ∈ p .a
  · rw [if_pos ha]
    exact hp.apart ha h
  · by_cases hb : disk ∈ p .b
    · rw [if_neg ha, if_pos hb]
      exact hp.apart hb h
    · rw [if_neg ha, if_neg hb]
      cases peg with
      | a => exact absurd h ha
      | b => exact absurd h hb
      | c => rfl

/-- Disks `1` to `n` are all there. -/
def Complete (n : Nat) (p : Position) : Prop := ∀ i, 1 ≤ i → i ≤ n → ∃ peg, i ∈ p peg

theorem mem_allOn_self (peg : Peg) {n i : Nat} (hpos : 1 ≤ i) (hi : i ≤ n) :
    i ∈ allOn peg n peg := by
  rw [allOn_self, mem_tower]
  exact ⟨hpos, hi⟩

theorem complete_allOn (peg : Peg) (n : Nat) : (allOn peg n).Complete n := by
  intro i hpos hi
  exact ⟨peg, mem_allOn_self peg hpos hi⟩

theorem pegOf_allOn (peg : Peg) {n i : Nat} (hpos : 1 ≤ i) (hi : i ≤ n) :
    (allOn peg n).pegOf i = peg :=
  (wellFormed_allOn peg n).pegOf_eq (mem_allOn_self peg hpos hi)

theorem Complete.shift (hall : p.Complete n) (hp : p.WellFormed) (hm : p.Legal m) :
    (p.shift m.disk m.src m.dst).Complete n := by
  intro i hpos hi
  exact (hp.sameDisks_shift hm i).mpr (hall i hpos hi)

/-- A legal move, seen from where the disks lie. -/
theorem WellFormed.relocation (hp : p.WellFormed) (hall : p.Complete n) (hm : p.Legal m) :
    Relocation n p.pegOf m (p.shift m.disk m.src m.dst).pegOf where
  src_ne_dst := hm.src_ne_dst
  start := hp.pegOf_eq hm.disk_mem
  finish := (hp.shift hm).pegOf_eq ((hp.mem_shift hm _ _).mpr (by rw [if_pos rfl]))
  unmoved := by
    intro i hpos hi hne
    obtain ⟨peg, hpeg⟩ := hall i hpos hi
    rw [hp.pegOf_eq hpeg]
    refine (hp.shift hm).pegOf_eq ((hp.mem_shift hm _ _).mpr ?_)
    rw [if_neg hne]
    exact hpeg
  smaller := by
    intro i hpos hi hlt
    obtain ⟨peg, hpeg⟩ := hall i hpos hi
    rw [hp.pegOf_eq hpeg]
    refine eq_third hm.src_ne_dst ?_ ?_
    · rintro rfl
      have hlarger := hm.lt_of_mem_src hp hpeg (by omega)
      omega
    · rintro rfl
      have hlarger := hm.lt_of_mem_dst hp hpeg
      omega

/-! ## What a whole play does to the distance -/

/-- **A play is at least as long as the distance it covers.** -/
theorem distance_le_add_length {ms : List Move} (hp : p.WellFormed) (hall : p.Complete n)
    (h : p.play? ms = some q) (goal : Peg) :
    distance p.pegOf n goal ≤ distance q.pegOf n goal + ms.length := by
  induction ms generalizing p with
  | nil =>
    cases h
    exact Nat.le_refl _
  | cons m ms ih =>
    obtain ⟨hlegal, hrest⟩ := play?_cons_eq_some.mp h
    have hstep := (hp.relocation hall hlegal).distance_le_succ (Nat.le_refl n) goal
    have hlater := ih (hp.shift hlegal) (hall.shift hp hlegal) hrest
    rw [List.length_cons]
    omega

/-- The first move of a play that is no longer than it must be comes closer, and the rest of it is
no longer than it must be. -/
theorem closer_of_shortest {ms : List Move} (hp : p.WellFormed) (hall : p.Complete n)
    (h : p.play? (m :: ms) = some q) (hgoal : distance q.pegOf n goal = 0)
    (hlength : (m :: ms).length = distance p.pegOf n goal) :
    distance (p.shift m.disk m.src m.dst).pegOf n goal + 1 = distance p.pegOf n goal ∧
      ms.length = distance (p.shift m.disk m.src m.dst).pegOf n goal := by
  obtain ⟨hlegal, hrest⟩ := play?_cons_eq_some.mp h
  have hstep := (hp.relocation hall hlegal).distance_le_succ (Nat.le_refl n) goal
  have hlater := distance_le_add_length (hp.shift hlegal) (hall.shift hp hlegal) hrest goal
  rw [List.length_cons] at hlength
  omega

/-- **There is only one shortest play** from a position to a goal. -/
theorem eq_of_shortest {ms ms' : List Move} (hp : p.WellFormed) (hall : p.Complete n)
    (h : p.play? ms = some q) (h' : p.play? ms' = some q') (hgoal : distance q.pegOf n goal = 0)
    (hgoal' : distance q'.pegOf n goal = 0) (hlength : ms.length = distance p.pegOf n goal)
    (hlength' : ms'.length = distance p.pegOf n goal) : ms = ms' := by
  -- both plays are followed move by move: at each position they have no choice
  induction ms generalizing p ms' with
  | nil =>
    rw [← hlength] at hlength'
    exact (List.length_eq_zero_iff.mp hlength').symm
  | cons m ms ih =>
    cases ms' with
    | nil =>
      rw [← hlength'] at hlength
      cases hlength
    | cons m' ms' =>
      obtain ⟨hlegal, hrest⟩ := play?_cons_eq_some.mp h
      obtain ⟨hlegal', hrest'⟩ := play?_cons_eq_some.mp h'
      obtain ⟨hcloser, hless⟩ := closer_of_shortest hp hall h hgoal hlength
      obtain ⟨hcloser', hless'⟩ := closer_of_shortest hp hall h' hgoal' hlength'
      have hmove : m = m' := (hp.relocation hall hlegal).closer_unique
        (hp.relocation hall hlegal') (Nat.le_refl n) hcloser hcloser'
      subst hmove
      rw [ih (hp.shift hlegal) (hall.shift hp hlegal) hrest hrest' hless hless']

theorem distance_allOn (peg goal : Peg) (n : Nat) :
    distance (allOn peg n).pegOf n goal = if peg = goal then 0 else moveCount n := by
  rw [moveCount_eq]
  exact distance_of_gathered (fun _ hpos hi => pegOf_allOn peg hpos hi) goal

end Position

open Position

/-- **The solution is the only shortest play.** No legal play that brings a tower of any height from
`a` to `c` has fewer than `moveCount` moves. Up to 64 disks exactly one has that many, and it is the
one that `solve` shows to a listener that never fails. -/
theorem shown_moves_shortest :
    (∀ (disks : Nat) (ms : List Move),
      (allOn .a disks).play? ms = some (allOn .c disks) → moveCount disks ≤ ms.length) ∧
    (∀ {σ ε : Type} (refuse : TooManyDisks → ε) (onMove : Move → Session σ ε Unit) (s : σ),
      NeverFails onMove → ∀ disks ≤ 64, ∀ ms : List Move,
        ((allOn .a disks).play? ms = some (allOn .c disks) ∧ ms.length = moveCount disks) ↔
          ms = shown refuse onMove disks s) := by
  have hstart : ∀ disks, distance (allOn .a disks).pegOf disks .c = moveCount disks :=
    fun disks => distance_allOn .a .c disks
  have hend : ∀ disks, distance (allOn .c disks).pegOf disks .c = 0 :=
    fun disks => distance_allOn .c .c disks
  constructor
  · intro disks ms hplay
    have hcovered := distance_le_add_length (wellFormed_allOn .a disks)
      (complete_allOn .a disks) hplay .c
    rw [hstart, hend] at hcovered
    omega
  · intro σ ε refuse onMove s hok disks hdisks ms
    rw [hok.shown_eq refuse hdisks]
    have hsolution := play?_moves_allOn Peg.distinct_abc disks
    constructor
    · rintro ⟨hplay, hlength⟩
      refine eq_of_shortest (wellFormed_allOn .a disks) (complete_allOn .a disks) hplay hsolution
        (hend disks) (hend disks) ?_ ?_
      · rw [hlength, hstart]
      · rw [length_moves, hstart, moveCount_eq]
    · rintro rfl
      refine ⟨hsolution, ?_⟩
      rw [length_moves, moveCount_eq]

/-- A play of two disks that wanders, and the one that does not. -/
theorem shown_moves_shortest_two :
    (allOn .a 2).play? [⟨1, .a, .c⟩, ⟨1, .c, .b⟩, ⟨2, .a, .c⟩, ⟨1, .b, .c⟩] =
        some (allOn .c 2) ∧
      moveCount 2 ≤ 4 ∧ NeverFails (Journal.keep none) ∧
      [⟨1, .a, .b⟩, ⟨2, .a, .c⟩, ⟨1, .b, .c⟩] =
        shown Journal.Interruption.refused (Journal.keep none) 2 #[] := by
  have hwander : (allOn .a 2).play? [⟨1, .a, .c⟩, ⟨1, .c, .b⟩, ⟨2, .a, .c⟩, ⟨1, .b, .c⟩] =
      some (allOn .c 2) := by
    show some _ = some _
    congr 1
    funext peg
    cases peg <;> rfl
  have hok : NeverFails (Journal.keep none) := fun _ _ => rfl
  obtain ⟨hbound, hunique⟩ := shown_moves_shortest
  refine ⟨hwander, hbound 2 _ hwander, hok, ?_⟩
  refine (hunique Journal.Interruption.refused (Journal.keep none) #[] hok 2 (by decide) _).mp ?_
  exact ⟨play?_moves_allOn Peg.distinct_abc 2, rfl⟩

end TowerOfHanoi
