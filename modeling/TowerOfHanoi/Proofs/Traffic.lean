import Mathlib.Algebra.BigOperators.Group.Finset.Basic
import Mathlib.Algebra.Ring.Parity
import TowerOfHanoi.Proofs.LegalWalk
import TowerOfHanoi.Proofs.MoveByNumber

/-!
# The traffic between the pegs

How many moves of a walk lead from each peg to each other one. A recursive call uses the pegs in other
roles, so two pegs that have one pair of roles in a walk have another in each of its two calls, and
the six numbers of a tower are sums of numbers of the next smaller one (`crossings_succ_of_ne`,
`crossings_succ_self`). `crossed` says what they come to, for any three pegs.

A disk with `e` larger ones moves `2 ^ e` times and goes round in one direction. As `2 ^ e` is no
multiple of three, each of the three ways that it goes gets a third of these moves, rounded up or
down. The six numbers are sums of such thirds, over every other disk.
-/

namespace TowerOfHanoi

/-! ## Counting moves by their pegs -/

namespace Journal

theorem traffic_cons (m : Move) (walk : List Move) (x y : Peg) :
    traffic (m :: walk).toArray x y =
      traffic walk.toArray x y + if m.src = x ∧ m.dst = y then 1 else 0 := by
  simp [traffic, List.countP_cons]

theorem traffic_append (walk walk' : List Move) (x y : Peg) :
    traffic (walk ++ walk').toArray x y = traffic walk.toArray x y + traffic walk'.toArray x y :=
  List.countP_append

/-- Every move that goes anywhere belongs to one of the six pairs. -/
theorem sum_traffic {walk : List Move} (h : ∀ m ∈ walk, m.src ≠ m.dst) :
    traffic walk.toArray .a .b + traffic walk.toArray .a .c + traffic walk.toArray .b .a +
      traffic walk.toArray .b .c + traffic walk.toArray .c .a + traffic walk.toArray .c .b =
        walk.length := by
  induction walk with
  | nil => rfl
  | cons m walk ih =>
    obtain ⟨hm, hrest⟩ := List.forall_mem_cons.mp h
    have hlength := ih hrest
    obtain ⟨disk, src, dst⟩ := m
    rw [List.length_cons, ← hlength]
    cases src <;> cases dst <;> simp [traffic_cons] at hm ⊢ <;> omega

end Journal

/-! ## Thirds of powers of two -/

theorem two_pow_mod_three_of_even {e : Nat} (h : Even e) : 2 ^ e % 3 = 1 := by
  rw [two_pow_mod_three, if_pos (Nat.even_iff.mp h)]

theorem two_pow_mod_three_of_odd {e : Nat} (h : Odd e) : 2 ^ e % 3 = 2 := by
  rw [two_pow_mod_three, if_neg (Nat.mod_two_ne_zero.mpr (Nat.odd_iff.mp h))]

section

open Finset

/-- A third of `2 ^ e`, rounded up, for every even `e` below `n`. -/
def evenUp (n : Nat) : Nat := ∑ e ∈ range n with Even e, (2 ^ e + 2) / 3

/-- A third of `2 ^ e`, rounded down, for every even `e` below `n`. -/
def evenDown (n : Nat) : Nat := ∑ e ∈ range n with Even e, (2 ^ e - 1) / 3

/-- A third of `2 ^ e`, rounded up, for every odd `e` below `n`. -/
def oddUp (n : Nat) : Nat := ∑ e ∈ range n with Odd e, (2 ^ e + 1) / 3

/-- A third of `2 ^ e`, rounded down, for every odd `e` below `n`. -/
def oddDown (n : Nat) : Nat := ∑ e ∈ range n with Odd e, (2 ^ e - 2) / 3

variable {f g h : Nat → Nat}

/-! One disk more is one larger disk more for each of the others: even and odd change places. -/

theorem sum_even_succ (hterm : ∀ e, Odd e → f (e + 1) = g e + h e) (n : Nat) :
    ∑ e ∈ range (n + 1) with Even e, f e =
      ∑ e ∈ range n with Odd e, g e + ∑ e ∈ range n with Odd e, h e + f 0 := by
  have hshift : ∑ e ∈ range (n + 1) with Even e, f e =
      ∑ e ∈ range n with Odd e, f (e + 1) + f 0 := by
    simp only [sum_filter, sum_range_succ', Nat.even_add_one, Nat.not_even_iff_odd, Even.zero,
      if_true]
  rw [hshift, ← sum_add_distrib]
  congr 1
  exact sum_congr rfl fun e he => hterm e (mem_filter.mp he).2

theorem sum_odd_succ (hterm : ∀ e, Even e → f (e + 1) = g e + h e) (n : Nat) :
    ∑ e ∈ range (n + 1) with Odd e, f e =
      ∑ e ∈ range n with Even e, g e + ∑ e ∈ range n with Even e, h e := by
  have hshift : ∑ e ∈ range (n + 1) with Odd e, f e = ∑ e ∈ range n with Even e, f (e + 1) := by
    simp [sum_filter, sum_range_succ', Nat.odd_add_one]
  rw [hshift, ← sum_add_distrib]
  exact sum_congr rfl fun e he => hterm e (mem_filter.mp he).2

theorem evenUp_succ (n : Nat) : evenUp (n + 1) = oddUp n + oddUp n + 1 := by
  refine sum_even_succ ?_ n
  intro e hodd
  have hmod := two_pow_mod_three_of_odd hodd
  rw [pow_succ]
  omega

theorem evenDown_succ (n : Nat) : evenDown (n + 1) = oddUp n + oddDown n := by
  refine sum_even_succ ?_ n
  intro e hodd
  have hmod := two_pow_mod_three_of_odd hodd
  rw [pow_succ]
  omega

theorem oddUp_succ (n : Nat) : oddUp (n + 1) = evenUp n + evenDown n := by
  refine sum_odd_succ ?_ n
  intro e heven
  have hmod := two_pow_mod_three_of_even heven
  rw [pow_succ]
  omega

theorem oddDown_succ (n : Nat) : oddDown (n + 1) = evenDown n + evenDown n := by
  refine sum_odd_succ ?_ n
  intro e heven
  have hmod := two_pow_mod_three_of_even heven
  rw [pow_succ]
  omega

end

/-! ## The traffic of a walk -/

/-- How many moves lead from `x` to `y` when `n` disks are carried. -/
def crossings (n : Nat) (src via dst x y : Peg) : Nat :=
  Journal.traffic (moves n src via dst).toArray x y

section

variable (n : Nat) {src via dst x y : Peg}

theorem crossings_succ_of_ne (h : ¬(src = x ∧ dst = y)) :
    crossings (n + 1) src via dst x y =
      crossings n src dst via x y + crossings n via src dst x y := by
  unfold crossings
  rw [moves_succ, Journal.traffic_append, Journal.traffic_cons, if_neg h, Nat.add_zero]

theorem crossings_succ_self :
    crossings (n + 1) src via dst src dst =
      crossings n src dst via src dst + crossings n via src dst src dst + 1 := by
  unfold crossings
  rw [moves_succ, Journal.traffic_append, Journal.traffic_cons, if_pos ⟨rfl, rfl⟩, Nat.add_assoc]

end

/-- The traffic of a walk, by the roles of the pegs. -/
structure Crossed (n : Nat) (src via dst : Peg) : Prop where
  src_dst : crossings n src via dst src dst = evenUp n
  dst_via : crossings n src via dst dst via = evenDown n
  via_src : crossings n src via dst via src = evenDown n
  src_via : crossings n src via dst src via = oddUp n
  via_dst : crossings n src via dst via dst = oddUp n
  dst_src : crossings n src via dst dst src = oddDown n

/-- **What passes between the pegs.** -/
theorem crossed {src via dst : Peg} (h : Peg.Distinct src via dst) (n : Nat) :
    Crossed n src via dst := by
  induction n generalizing src via dst with
  | zero => exact ⟨rfl, rfl, rfl, rfl, rfl, rfl⟩
  | succ n ih =>
    -- each pair of pegs has one pair of roles in the first call and another in the second
    have first := ih h.outward
    have second := ih h.onward
    obtain ⟨hsv, hsd, hvd⟩ := h
    exact {
      src_dst := by
        rw [crossings_succ_self, first.src_via, second.via_dst, evenUp_succ]
      dst_via := by
        rw [crossings_succ_of_ne n fun hpair => hsd hpair.1, first.via_dst, second.dst_src,
          evenDown_succ]
      via_src := by
        rw [crossings_succ_of_ne n fun hpair => hsv hpair.1, first.dst_src, second.src_via,
          evenDown_succ, Nat.add_comm]
      src_via := by
        rw [crossings_succ_of_ne n fun hpair => hvd hpair.2.symm, first.src_dst, second.via_src,
          oddUp_succ]
      via_dst := by
        rw [crossings_succ_of_ne n fun hpair => hsv hpair.1, first.dst_via, second.src_dst,
          oddUp_succ, Nat.add_comm]
      dst_src := by
        rw [crossings_succ_of_ne n fun hpair => hsd hpair.1, first.via_src, second.dst_via,
          oddDown_succ] }

open Finset in
/-- **How often each pair of pegs is used.** Up to 64 disks, the moves shown to a listener that never
fails are counted by their pegs. A disk with `e` larger ones moves `2 ^ e` times. If `e` is even, it
goes round from `a` to `c` to `b`, and a third of its moves, rounded up, lead from `a` to `c`. If `e`
is odd, it goes round from `a` to `b` to `c`, and a third of its moves, rounded up, lead from `a` to
`b`, and as many from `b` to `c`. No move ends where it began, the divisions leave nothing over, and
the six numbers make up the whole walk. -/
theorem shown_moves_traffic {σ ε : Type} (refuse : TooManyDisks → ε)
    {onMove : Move → Session σ ε Unit} (hok : NeverFails onMove) (s : σ) {disks : Nat}
    (hdisks : disks ≤ 64) :
    let traffic := Journal.traffic (shown refuse onMove disks s).toArray
    (traffic .a .c = ∑ e ∈ range disks with Even e, (2 ^ e + 2) / 3 ∧
      traffic .c .b = ∑ e ∈ range disks with Even e, (2 ^ e - 1) / 3 ∧
      traffic .b .a = ∑ e ∈ range disks with Even e, (2 ^ e - 1) / 3 ∧
      traffic .a .b = ∑ e ∈ range disks with Odd e, (2 ^ e + 1) / 3 ∧
      traffic .b .c = ∑ e ∈ range disks with Odd e, (2 ^ e + 1) / 3 ∧
      traffic .c .a = ∑ e ∈ range disks with Odd e, (2 ^ e - 2) / 3) ∧
    (∀ m ∈ shown refuse onMove disks s, m.src ≠ m.dst) ∧
    (∀ e, Even e → 1 ≤ 2 ^ e ∧ 3 ∣ 2 ^ e + 2 ∧ 3 ∣ 2 ^ e - 1) ∧
    (∀ e, Odd e → 2 ≤ 2 ^ e ∧ 3 ∣ 2 ^ e + 1 ∧ 3 ∣ 2 ^ e - 2) ∧
    traffic .a .b + traffic .a .c + traffic .b .a + traffic .b .c + traffic .c .a + traffic .c .b =
      2 ^ disks - 1 := by
  intro traffic
  have hwalk : shown refuse onMove disks s = moves disks .a .b .c := hok.shown_eq refuse hdisks s
  have hcrossings : traffic = crossings disks .a .b .c := congrArg (Journal.traffic ·.toArray) hwalk
  have hpegs : ∀ m ∈ shown refuse onMove disks s, m.src ≠ m.dst := by
    intro m hm
    rw [hwalk] at hm
    exact Position.src_ne_dst_of_mem_play? (Position.play?_moves_allOn Peg.distinct_abc disks) hm
  refine ⟨?_, hpegs, ?_, ?_, ?_⟩
  · rw [hcrossings]
    have h := crossed Peg.distinct_abc disks
    exact ⟨h.src_dst, h.dst_via, h.via_src, h.src_via, h.via_dst, h.dst_src⟩
  · intro e heven
    have hpos : 0 < 2 ^ e := Nat.two_pow_pos e
    have hmod := two_pow_mod_three_of_even heven
    omega
  · intro e hodd
    have hpos : 0 < 2 ^ e := Nat.two_pow_pos e
    have hmod := two_pow_mod_three_of_odd hodd
    omega
  · rw [← length_moves disks .a .b .c, ← hwalk]
    exact Journal.sum_traffic hpegs

/-- Four disks, as a journal counts them. -/
theorem shown_moves_traffic_four :
    NeverFails (Journal.keep none) ∧
      (Journal.solve none 4).state.traffic .a .c = 3 ∧
      (Journal.solve none 4).state.traffic .a .b = 4 ∧
      (Journal.solve none 4).state.traffic .c .a = 2 := by
  have hok : NeverFails (Journal.keep none) := fun _ _ => rfl
  have hjournal : (Journal.solve none 4).state =
      (shown Journal.Interruption.refused (Journal.keep none) 4 #[]).toArray := rfl
  obtain ⟨⟨hac, -, -, hab, -, hca⟩, -⟩ :=
    shown_moves_traffic Journal.Interruption.refused hok #[] (show 4 ≤ 64 by decide)
  rw [← hjournal] at hac hab hca
  exact ⟨hok, hac.trans (by decide), hab.trans (by decide), hca.trans (by decide)⟩

end TowerOfHanoi
