import Mathlib.Logic.ExistsUnique
import TowerOfHanoi.Position
import TowerOfHanoi.Proofs.Listening

/-!
# The walk is legal

The rules of the puzzle are one thing, the recursive solution another. This module plays the solution
by the rules. What a single legal move does is said once, by `Position.WellFormed.mem_shift`:
one disk changes its peg and all others stay. From it follows what any legal play preserves, whoever
plays it. The solution is then shown to be legal from every position in which the tower to be
carried lies on top of its peg and all other disks are larger, since that is the shape of the
position in which each recursive call finds itself.
-/

namespace TowerOfHanoi

/-! ## Three different pegs -/

/-- The pegs of a recursive step are three different ones. -/
structure Peg.Distinct (src via dst : Peg) : Prop where
  src_ne_via : src ≠ via
  src_ne_dst : src ≠ dst
  via_ne_dst : via ≠ dst

namespace Peg.Distinct

variable {src via dst : Peg}

/-- The roles in the first recursive call. -/
theorem outward (h : Distinct src via dst) : Distinct src dst via :=
  ⟨h.src_ne_dst, h.src_ne_via, h.via_ne_dst.symm⟩

/-- The roles in the second recursive call. -/
theorem onward (h : Distinct src via dst) : Distinct via src dst :=
  ⟨h.src_ne_via.symm, h.via_ne_dst, h.src_ne_dst⟩

/-- There is no fourth peg. -/
theorem eq_or_eq_or_eq (h : Distinct src via dst) (peg : Peg) :
    peg = src ∨ peg = via ∨ peg = dst := by
  obtain ⟨hsv, hsd, hvd⟩ := h
  cases peg <;> cases src <;> cases via <;> simp_all <;> cases dst <;> simp_all

end Peg.Distinct

namespace Position

variable {p q r : Position} {m : Move}

/-! ## Towers -/

theorem tower_succ (n : Nat) : tower (n + 1) = tower n ++ [n + 1] := by
  rw [tower, tower, List.range'_1_concat, Nat.add_comm 1 n]

@[simp]
theorem allOn_self (peg : Peg) (n : Nat) : allOn peg n peg = tower n := if_pos rfl

theorem allOn_of_ne {peg other : Peg} (n : Nat) (h : other ≠ peg) : allOn peg n other = [] :=
  if_neg h

theorem mem_tower {n disk : Nat} : disk ∈ tower n ↔ 1 ≤ disk ∧ disk ≤ n := by
  rw [tower, List.mem_range'_1]
  omega

/-! ## What one move does -/

@[simp]
theorem shift_dst (p : Position) (disk : Nat) (src dst : Peg) :
    p.shift disk src dst dst = disk :: p dst := if_pos rfl

theorem shift_src (p : Position) (disk : Nat) {src dst : Peg} (h : src ≠ dst) :
    p.shift disk src dst src = (p src).tail := by
  unfold shift
  rw [if_neg h, if_pos rfl]

theorem shift_of_ne (p : Position) (disk : Nat) {src dst peg : Peg} (hsrc : peg ≠ src)
    (hdst : peg ≠ dst) : p.shift disk src dst peg = p peg := by
  unfold shift
  rw [if_neg hdst, if_neg hsrc]

/-- On every peg the disks grow from the top down, and no disk lies on two pegs. -/
structure WellFormed (p : Position) : Prop where
  sorted : ∀ peg, (p peg).Pairwise (· < ·)
  apart : ∀ {disk peg peg'}, disk ∈ p peg → disk ∈ p peg' → peg = peg'

theorem wellFormed_allOn (peg : Peg) (n : Nat) : (allOn peg n).WellFormed where
  sorted peg' := by
    unfold allOn
    split
    · exact List.pairwise_lt_range'
    · exact List.Pairwise.nil
  apart := by
    intro disk left right hleft hright
    unfold allOn at hleft hright
    split at hleft
    · split at hright
      · simp_all
      · cases hright
    · cases hleft

theorem Legal.src_eq (h : p.Legal m) : ∃ below, p m.src = m.disk :: below :=
  List.head?_eq_some_iff.mp h.head?_src

theorem Legal.disk_mem (h : p.Legal m) : m.disk ∈ p m.src := by
  obtain ⟨below, hsrc⟩ := h.src_eq
  rw [hsrc]
  exact List.mem_cons_self

/-- A disk may only be laid where everything is larger. -/
theorem Legal.lt_of_mem_dst (h : p.Legal m) (hp : p.WellFormed) {disk : Nat}
    (hdisk : disk ∈ p m.dst) : m.disk < disk := by
  have hsorted := hp.sorted m.dst
  have htop := h.lt_of_mem_head?_dst
  cases hdst : p m.dst with
  | nil =>
    rw [hdst] at hdisk
    cases hdisk
  | cons top below =>
    rw [hdst] at hdisk hsorted htop
    have hlt : m.disk < top := htop top rfl
    rcases List.mem_cons.mp hdisk with rfl | hbelow
    · exact hlt
    · exact Nat.lt_trans hlt (List.rel_of_pairwise_cons hsorted hbelow)

/-- Only larger disks lie under the disk that is moved. -/
theorem Legal.lt_of_mem_src (h : p.Legal m) (hp : p.WellFormed) {disk : Nat}
    (hdisk : disk ∈ p m.src) (hne : disk ≠ m.disk) : m.disk < disk := by
  obtain ⟨below, hsrc⟩ := h.src_eq
  have hsorted := hp.sorted m.src
  rw [hsrc] at hdisk hsorted
  rcases List.mem_cons.mp hdisk with heq | hbelow
  · exact absurd heq hne
  · exact List.rel_of_pairwise_cons hsorted hbelow

/-- A move touches the pegs it names and no other. -/
theorem Legal.shift_cases (h : p.Legal m) (peg : Peg) :
    (peg = m.dst ∧ p.shift m.disk m.src m.dst peg = m.disk :: p m.dst) ∨
      (peg = m.src ∧ p.shift m.disk m.src m.dst peg = (p m.src).tail) ∨
      (peg ≠ m.src ∧ peg ≠ m.dst ∧ p.shift m.disk m.src m.dst peg = p peg) := by
  by_cases hdst : peg = m.dst
  · left
    exact ⟨hdst, by rw [hdst, shift_dst]⟩
  · right
    by_cases hsrc : peg = m.src
    · left
      exact ⟨hsrc, by rw [hsrc, shift_src p m.disk h.src_ne_dst]⟩
    · right
      exact ⟨hsrc, hdst, shift_of_ne p m.disk hsrc hdst⟩

/-- **What a legal move does.** The disk it names lies on its destination afterwards, and every
other disk where it lay before. -/
theorem WellFormed.mem_shift (hp : p.WellFormed) (hm : p.Legal m) (disk : Nat) (peg : Peg) :
    disk ∈ p.shift m.disk m.src m.dst peg ↔
      if disk = m.disk then peg = m.dst else disk ∈ p peg := by
  rcases hm.shift_cases peg with ⟨rfl, hshift⟩ | ⟨rfl, hshift⟩ | ⟨hsrc, hdst, hshift⟩
  · rw [hshift, List.mem_cons]
    by_cases heq : disk = m.disk
    · simp [heq]
    · simp [heq]
  · obtain ⟨below, hbelow⟩ := hm.src_eq
    have hsorted := hp.sorted m.src
    rw [hbelow] at hsorted
    rw [hshift, hbelow, List.tail_cons]
    by_cases heq : disk = m.disk
    · -- a second copy of the disk would have to be larger than itself
      have hnotMem : m.disk ∉ below := fun hmem =>
        Nat.lt_irrefl _ (List.rel_of_pairwise_cons hsorted hmem)
      simp [heq, hnotMem, hm.src_ne_dst]
    · simp [heq]
  · rw [hshift]
    by_cases heq : disk = m.disk
    · have hnotMem : m.disk ∉ p peg := fun hmem => hsrc (hp.apart hmem hm.disk_mem)
      simp [heq, hnotMem, hdst]
    · simp [heq]

theorem WellFormed.shift (hp : p.WellFormed) (hm : p.Legal m) :
    (p.shift m.disk m.src m.dst).WellFormed where
  sorted peg := by
    rcases hm.shift_cases peg with ⟨-, hshift⟩ | ⟨-, hshift⟩ | ⟨-, -, hshift⟩
    · rw [hshift, List.pairwise_cons]
      exact ⟨fun disk hdisk => hm.lt_of_mem_dst hp hdisk, hp.sorted m.dst⟩
    · rw [hshift]
      exact (hp.sorted m.src).tail
    · rw [hshift]
      exact hp.sorted peg
  apart := by
    intro disk left right hleft hright
    rw [hp.mem_shift hm] at hleft hright
    split at hleft
    next heq =>
      rw [if_pos heq] at hright
      exact hleft.trans hright.symm
    next hne =>
      rw [if_neg hne] at hright
      exact hp.apart hleft hright

/-- The same disks, wherever they lie. -/
def SameDisks (p q : Position) : Prop := ∀ disk, (∃ peg, disk ∈ q peg) ↔ ∃ peg, disk ∈ p peg

/-- A legal move neither loses a disk nor brings in a new one. -/
theorem WellFormed.sameDisks_shift (hp : p.WellFormed) (hm : p.Legal m) :
    p.SameDisks (p.shift m.disk m.src m.dst) := by
  intro disk
  by_cases heq : disk = m.disk
  · refine ⟨fun _ => ⟨m.src, heq ▸ hm.disk_mem⟩, fun _ => ⟨m.dst, ?_⟩⟩
    rw [hp.mem_shift hm, if_pos heq]
  · simp only [hp.mem_shift hm, if_neg heq]

/-! ## What a play does -/

theorem play?_cons_eq_some {ms : List Move} :
    p.play? (m :: ms) = some r ↔
      p.Legal m ∧ (p.shift m.disk m.src m.dst).play? ms = some r := by
  rw [play?_cons, make?]
  split
  next hlegal =>
    rw [Option.bind_some]
    exact ⟨fun h => ⟨hlegal, h⟩, fun h => h.2⟩
  next hillegal =>
    rw [Option.bind_none]
    constructor
    · intro h
      cases h
    · intro h
      exact absurd h.1 hillegal

theorem play?_append_eq_some {ms ns : List Move} :
    p.play? (ms ++ ns) = some r ↔ ∃ q, p.play? ms = some q ∧ q.play? ns = some r := by
  rw [play?_append, Option.bind_eq_some_iff]

theorem src_ne_dst_of_mem_play? {ms : List Move} (h : p.play? ms = some q) (hm : m ∈ ms) :
    m.src ≠ m.dst := by
  obtain ⟨before, after, rfl⟩ := List.append_of_mem hm
  obtain ⟨r, -, hafter⟩ := play?_append_eq_some.mp h
  exact (play?_cons_eq_some.mp hafter).1.src_ne_dst

/-- What every legal move preserves, every play preserves. -/
theorem play?_preserves (Inv : Position → Prop)
    (hstep : ∀ {p m}, Inv p → p.Legal m → Inv (p.shift m.disk m.src m.dst)) {ms : List Move}
    (hp : Inv p) (h : p.play? ms = some q) : Inv q := by
  induction ms generalizing p with
  | nil =>
    cases h
    exact hp
  | cons m ms ih =>
    obtain ⟨hlegal, hrest⟩ := play?_cons_eq_some.mp h
    exact ih (hstep hp hlegal) hrest

theorem WellFormed.of_play? {ms : List Move} (hp : p.WellFormed) (h : p.play? ms = some q) :
    q.WellFormed :=
  play?_preserves WellFormed (fun hp hm => hp.shift hm) hp h

theorem WellFormed.sameDisks_of_play? {ms : List Move} (hp : p.WellFormed)
    (h : p.play? ms = some q) : p.SameDisks q := by
  -- a move is known to keep the disks only where it starts from a well-formed position
  have hq : q.WellFormed ∧ p.SameDisks q := by
    refine play?_preserves (fun r => r.WellFormed ∧ p.SameDisks r) ?_ ⟨hp, fun _ => Iff.rfl⟩ h
    rintro r m ⟨hr, hsame⟩ hm
    exact ⟨hr.shift hm, fun disk => (hr.sameDisks_shift hm disk).trans (hsame disk)⟩
  exact hq.2

/-- Replaying `walk` from `p`, each move is legal when its turn comes, and every position on the way,
the last one included, is well-formed and has each disk of `p` on exactly one peg. -/
structure Replays (p : Position) (walk : List Move) : Prop where
  legal : ∀ before move after, walk = before ++ move :: after →
    ∃ q, p.play? before = some q ∧ q.Legal move
  wellFormed : ∀ before after, walk = before ++ after →
    ∃ q, p.play? before = some q ∧ q.WellFormed ∧
      ∀ disk peg, disk ∈ p peg → ∃! peg', disk ∈ q peg'

theorem WellFormed.replays {walk : List Move} (hp : p.WellFormed) (h : p.play? walk = some r) :
    p.Replays walk where
  legal := by
    intro before move after hwalk
    rw [hwalk] at h
    obtain ⟨q, hbefore, hafter⟩ := play?_append_eq_some.mp h
    exact ⟨q, hbefore, (play?_cons_eq_some.mp hafter).1⟩
  wellFormed := by
    intro before after hwalk
    rw [hwalk] at h
    obtain ⟨q, hbefore, -⟩ := play?_append_eq_some.mp h
    have hq := hp.of_play? hbefore
    refine ⟨q, hbefore, hq, ?_⟩
    intro disk peg hdisk
    obtain ⟨peg', hpeg'⟩ := (hp.sameDisks_of_play? hbefore disk).mpr ⟨peg, hdisk⟩
    exact ⟨peg', hpeg', fun other hother => hq.apart hother hpeg'⟩

/-! ## Playing the solution -/

/-- The solution moves no disk beyond those of its tower. -/
theorem disk_le_of_mem_moves {n : Nat} {src via dst : Peg} (h : m ∈ moves n src via dst) :
    m.disk ≤ n := by
  induction n generalizing src via dst with
  | zero => cases h
  | succ n ih =>
    rw [moves_succ, List.mem_append, List.mem_cons] at h
    rcases h with hfirst | rfl | hsecond
    · exact Nat.le_succ_of_le (ih hfirst)
    · exact Nat.le_refl _
    · exact Nat.le_succ_of_le (ih hsecond)

/-- All disks of a stack are larger than disk `n`. -/
def AllLarger (n : Nat) (stack : List Nat) : Prop := ∀ disk ∈ stack, n < disk

theorem AllLarger.of_succ {n : Nat} {stack : List Nat} (h : AllLarger (n + 1) stack) :
    AllLarger n stack := by
  intro disk hdisk
  exact Nat.lt_of_succ_lt (h disk hdisk)

theorem AllLarger.cons_succ {n : Nat} {stack : List Nat} (h : AllLarger (n + 1) stack) :
    AllLarger n ((n + 1) :: stack) := by
  intro disk hdisk
  rcases List.mem_cons.mp hdisk with rfl | hstack
  · exact Nat.lt_succ_self n
  · exact h.of_succ disk hstack

/-- A disk on top of its peg may go where all disks are larger. -/
theorem legal_of_allLarger {disk : Nat} {src dst : Peg} {below : List Nat} (hne : src ≠ dst)
    (hsrc : p src = disk :: below) (hdst : AllLarger disk (p dst)) : p.Legal ⟨disk, src, dst⟩ := by
  refine ⟨hne, ?_, ?_⟩
  · show (p src).head? = some disk
    rw [hsrc, List.head?_cons]
  · intro top htop
    exact hdst top (List.mem_of_mem_head? htop)

/-- The solution carries a tower from the top of one peg to the top of another, whatever larger
disks there are. -/
theorem play?_moves {n : Nat} {src via dst : Peg} (hpegs : Peg.Distinct src via dst)
    {base : List Nat} (hsrc : p src = tower n ++ base) (hbase : AllLarger n base)
    (hvia : AllLarger n (p via)) (hdst : AllLarger n (p dst)) :
    ∃ q, p.play? (moves n src via dst) = some q ∧
      q src = base ∧ q via = p via ∧ q dst = tower n ++ p dst := by
  -- The invariant is the shape of the position: each recursive call finds its own tower on top of
  -- its source, with disk `n + 1` among the larger disks.
  induction n generalizing p src via dst base with
  | zero => exact ⟨p, rfl, hsrc, rfl, rfl⟩
  | succ n ih =>
    rw [tower_succ, List.append_assoc, List.singleton_append] at hsrc
    obtain ⟨p₁, hplay₁, hsrc₁, hdst₁, hvia₁⟩ :=
      ih hpegs.outward hsrc hbase.cons_succ hdst.of_succ hvia.of_succ
    have hlegal : p₁.Legal ⟨n + 1, src, dst⟩ :=
      legal_of_allLarger hpegs.src_ne_dst hsrc₁ (hdst₁ ▸ hdst)
    have hsrc₂ : p₁.shift (n + 1) src dst src = base := by
      rw [shift_src p₁ (n + 1) hpegs.src_ne_dst, hsrc₁, List.tail_cons]
    have hvia₂ : p₁.shift (n + 1) src dst via = tower n ++ p via := by
      rw [shift_of_ne p₁ (n + 1) hpegs.src_ne_via.symm hpegs.via_ne_dst, hvia₁]
    have hdst₂ : p₁.shift (n + 1) src dst dst = (n + 1) :: p dst := by
      rw [shift_dst, hdst₁]
    obtain ⟨q, hplay, hqvia, hqsrc, hqdst⟩ :=
      ih hpegs.onward hvia₂ hvia.of_succ (hsrc₂ ▸ hbase.of_succ) (hdst₂ ▸ hdst.cons_succ)
    refine ⟨q, ?_, ?_, hqvia, ?_⟩
    · rw [moves_succ]
      exact play?_append_eq_some.mpr ⟨p₁, hplay₁, play?_cons_eq_some.mpr ⟨hlegal, hplay⟩⟩
    · rw [hqsrc, hsrc₂]
    · rw [hqdst, hdst₂, tower_succ, List.append_assoc, List.singleton_append]

/-- From a single tower and two empty pegs to the same tower on another peg. -/
theorem play?_moves_allOn {src via dst : Peg} (hpegs : Peg.Distinct src via dst) (n : Nat) :
    (allOn src n).play? (moves n src via dst) = some (allOn dst n) := by
  have hvia : allOn src n via = [] := allOn_of_ne n hpegs.src_ne_via.symm
  have hdst : allOn src n dst = [] := allOn_of_ne n hpegs.src_ne_dst.symm
  have hsrc : allOn src n src = tower n ++ [] := by rw [allOn_self, List.append_nil]
  obtain ⟨q, hplay, hqsrc, hqvia, hqdst⟩ :=
    play?_moves hpegs hsrc (by simp [AllLarger]) (by simp [AllLarger, hvia])
      (by simp [AllLarger, hdst])
  have hq : q = allOn dst n := by
    funext peg
    rcases hpegs.eq_or_eq_or_eq peg with rfl | rfl | rfl
    · rw [hqsrc, allOn_of_ne n hpegs.src_ne_dst]
    · rw [hqvia, hvia, allOn_of_ne n hpegs.via_ne_dst]
    · rw [hqdst, hdst, allOn_self, List.append_nil]
  rw [hplay, hq]

end Position

open Position

theorem Peg.distinct_abc : Peg.Distinct .a .b .c := ⟨by decide, by decide, by decide⟩

/-- **Every walk is legal and brings the tower over.** The moves shown to a listener that never fails
can be replayed by the rules, through well-formed positions that have each disk on exactly one peg.
Solving a tower of at most 64 disks ends with all of it on `c`. Carrying a tower of any height
between any pegs, over and among larger disks, ends with the tower on top of its destination and
moves nothing else. -/
theorem shown_moves_replay {σ ε : Type} (refuse : TooManyDisks → ε)
    (onMove : Move → Session σ ε Unit) (hok : NeverFails onMove) (s : σ) :
    (∀ disks ≤ 64,
      (allOn .a disks).Replays (shown refuse onMove disks s) ∧
      (allOn .a disks).play? (shown refuse onMove disks s) = some (allOn .c disks)) ∧
    (∀ (n : Nat) (src via dst : Peg) (count : UInt64) (p : Position) (base : List Nat),
      Peg.Distinct src via dst → p.WellFormed → p src = tower n ++ base →
      (∀ disk, disk ∈ base ∨ disk ∈ p via ∨ disk ∈ p dst → n < disk) →
      p.Replays (shownCarrying onMove n src via dst count s) ∧
      (∀ move ∈ shownCarrying onMove n src via dst count s, move.disk ≤ n) ∧
      ∃ q, p.play? (shownCarrying onMove n src via dst count s) = some q ∧
        q src = base ∧ q via = p via ∧ q dst = tower n ++ p dst) := by
  constructor
  · intro disks hdisks
    rw [hok.shown_eq refuse hdisks]
    have hplay := play?_moves_allOn Peg.distinct_abc disks
    exact ⟨(wellFormed_allOn .a disks).replays hplay, hplay⟩
  · intro n src via dst count p base hpegs hp hsrc hlarger
    rw [hok.shownCarrying_eq]
    obtain ⟨q, hplay, hend⟩ := play?_moves hpegs hsrc
      (fun disk hdisk => hlarger disk (Or.inl hdisk))
      (fun disk hdisk => hlarger disk (Or.inr (Or.inl hdisk)))
      (fun disk hdisk => hlarger disk (Or.inr (Or.inr hdisk)))
    exact ⟨hp.replays hplay, fun move hmove => disk_le_of_mem_moves hmove, q, hplay, hend⟩

/-- Two disks on top of disk 4 go over to disk 3. -/
def twoOverFour : Position
  | .a => [1, 2, 4]
  | .b => []
  | .c => [3]

theorem shown_moves_replay_twoOverFour :
    NeverFails (Journal.keep none) ∧ twoOverFour.WellFormed ∧
      ∃ q, twoOverFour.play? (shownCarrying (Journal.keep none) 2 .a .b .c 0 #[]) = some q ∧
        q .a = [4] ∧ q .b = [] ∧ q .c = [1, 2, 3] := by
  have hok : NeverFails (Journal.keep none) := fun _ _ => rfl
  have hp : twoOverFour.WellFormed := by
    refine ⟨?_, ?_⟩
    · intro peg
      cases peg <;> decide
    · intro disk peg peg' hdisk hdisk'
      cases peg <;> cases peg' <;> simp_all [twoOverFour]
  obtain ⟨-, hcarry⟩ := shown_moves_replay Journal.Interruption.refused (Journal.keep none) hok #[]
  have h := hcarry 2 .a .b .c 0 twoOverFour [4] Peg.distinct_abc hp rfl (by simp [twoOverFour])
  exact ⟨hok, hp, h.2.2⟩

end TowerOfHanoi
