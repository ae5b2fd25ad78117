import Mathlib.Algebra.Ring.Parity
import Mathlib.Logic.Equiv.Basic
import TowerOfHanoi.Proofs.LegalWalk

/-!
# Symmetries of the walk

The recursion knows the pegs only by the roles it gives them, and its two calls are mirror images of
each other. Three laws of the list `moves` follow, each by the recursion itself:

* renaming the pegs renames them in every move (`map_relabel_moves`);
* the walk of a taller tower begins with that of a smaller one, to the same peg if the heights differ
  by an even number, and to the other one if not (`moves_isPrefix_of_even`, `moves_isPrefix_of_odd`);
* read from the end, with every move undone, the walk is that of the way back
  (`map_undo_reverse_moves`).

A listener that ends a walk early hears no more than a beginning of it, so for such a listener the
second law is about whole runs. The third is about play by the rules as well: undoing the moves of
any legal play, the last one first, is legal and leads back to where it began.
-/

namespace TowerOfHanoi

open Equiv (swap)

/-! ## Renaming the pegs -/

/-- The walk between renamed pegs is the walk with its pegs renamed. -/
theorem map_relabel_moves (f : Peg → Peg) (n : Nat) (src via dst : Peg) :
    (moves n src via dst).map (Move.relabel f) = moves n (f src) (f via) (f dst) := by
  induction n generalizing src via dst with
  | zero => rfl
  | succ n ih =>
    rw [moves_succ, moves_succ, List.map_append, List.map_cons, ih, ih]
    rfl

/-! ## Taller towers -/

/-- One disk more: first the smaller tower goes to the peg between. -/
theorem moves_isPrefix_succ (n : Nat) (src via dst : Peg) :
    moves n src dst via <+: moves (n + 1) src via dst :=
  List.prefix_append _ _

theorem moves_isPrefix_add_two_mul (n k : Nat) (src via dst : Peg) :
    moves n src via dst <+: moves (n + 2 * k) src via dst := by
  induction k with
  | zero => exact List.prefix_refl _
  | succ k ih =>
    have hone := moves_isPrefix_succ (n + 2 * k) src dst via
    have htwo := moves_isPrefix_succ (n + 2 * k + 1) src via dst
    exact (ih.trans hone).trans htwo

section

variable {n taller : Nat} (hle : n ≤ taller)

include hle

theorem moves_isPrefix_of_even (h : Even (taller - n)) (src via dst : Peg) :
    moves n src via dst <+: moves taller src via dst := by
  obtain ⟨k, hk⟩ := even_iff_exists_two_mul.mp h
  obtain rfl : taller = n + 2 * k := by omega
  exact moves_isPrefix_add_two_mul n k src via dst

theorem moves_isPrefix_of_odd (h : Odd (taller - n)) (src via dst : Peg) :
    moves n src dst via <+: moves taller src via dst := by
  obtain ⟨k, hk⟩ := h
  obtain rfl : taller = n + 2 * k + 1 := by omega
  exact (moves_isPrefix_add_two_mul n k src dst via).trans
    (moves_isPrefix_succ (n + 2 * k) src via dst)

end

/-- Where the walk of `n` disks stands at the beginning, it is the first `2 ^ n - 1` moves. -/
theorem take_moves_of_isPrefix {n : Nat} {src via dst : Peg} {walk : List Move}
    (h : moves n src via dst <+: walk) : walk.take (2 ^ n - 1) = moves n src via dst := by
  rw [← length_moves n src via dst]
  exact (List.prefix_iff_eq_take.mp h).symm

/-! ## Walks that are ended early -/

section

variable {σ ε : Type} {onMove : Move → Session σ ε Unit} {s : σ} {e : ε}

/-- What would have come after a rejected move makes no difference. -/
theorem hear_append_of_rejection {walk : List Move} (rest : List Move)
    (h : (hear onMove walk s).rejection = some e) :
    hear onMove (walk ++ rest) s = hear onMove walk s := by
  induction walk generalizing s with
  | nil => cases h
  | cons move walk ih =>
    rw [List.cons_append]
    match hm : (onMove move).run s with
    | ⟨.error e', t, events⟩ =>
      rw [hear_cons_of_error walk hm, hear_cons_of_error (walk ++ rest) hm]
    | ⟨.ok (), t, events⟩ =>
      rw [hear_cons_of_ok walk hm] at h ⊢
      rw [hear_cons_of_ok (walk ++ rest) hm, ih h]

theorem rejection_of_result_solve {refuse : TooManyDisks → ε} {disks : Nat}
    (hdisks : disks ≤ maxWalkedDisks)
    (h : ((solve refuse onMove disks).run s).result = .error e) :
    (hear onMove (moves disks .a .b .c) s).rejection = some e := by
  rw [run_solve_of_le refuse onMove hdisks, Hearing.toTrace] at h
  split at h
  next => cases h
  next e' hrejection =>
    cases h
    exact hrejection

/-- A run that its listener ends is the same for every tower whose walk begins in the same way. Only
the event that names the height tells the two apart. -/
theorem run_solve_of_isPrefix {refuse : TooManyDisks → ε} {disks taller : Nat}
    (hdisks : disks ≤ maxWalkedDisks) (htaller : taller ≤ maxWalkedDisks)
    (hbegin : moves disks .a .b .c <+: moves taller .a .b .c)
    (h : ((solve refuse onMove disks).run s).result = .error e) :
    shown refuse onMove taller s = shown refuse onMove disks s ∧
      ∃ t events,
        (solve refuse onMove disks).run s = ⟨.error e, t, .solving disks :: events⟩ ∧
        (solve refuse onMove taller).run s = ⟨.error e, t, .solving taller :: events⟩ := by
  have hrejection := rejection_of_result_solve hdisks h
  have hsame : hear onMove (moves taller .a .b .c) s = hear onMove (moves disks .a .b .c) s := by
    obtain ⟨rest, hrest⟩ := hbegin
    rw [← hrest]
    exact hear_append_of_rejection rest hrejection
  refine ⟨?_, (hear onMove (moves disks .a .b .c) s).state,
    (hear onMove (moves disks .a .b .c) s).events, ?_, ?_⟩
  · rw [shown_of_le refuse onMove htaller, shown_of_le refuse onMove hdisks, hsame]
  · rw [run_solve_of_le refuse onMove hdisks, Hearing.toTrace, hrejection]
  · rw [run_solve_of_le refuse onMove htaller, hsame, Hearing.toTrace, hrejection]

end

/-- **Only the parity of the height shows.** Up to 64 disks, the first `2 ^ disks - 1` moves shown for
a taller tower are the moves shown for `disks` disks if the heights differ by an even number, and
otherwise those moves with `b` and `c` exchanged. So a listener that ends the walk of the smaller
tower ends that of the taller one, if they differ by an even number, at the same move, in the same
state and with the same failure. -/
theorem shown_moves_of_taller {disks taller : Nat} (hle : disks ≤ taller) (htaller : taller ≤ 64) :
    (∀ {σ ε τ δ : Type} (refuse : TooManyDisks → ε) (onMove : Move → Session σ ε Unit) (s : σ)
      (refuse' : TooManyDisks → δ) (onMove' : Move → Session τ δ Unit) (t : τ),
      NeverFails onMove → NeverFails onMove' →
      let first := (shown refuse' onMove' taller t).take (2 ^ disks - 1)
      (Even (taller - disks) → first = shown refuse onMove disks s) ∧
      (Odd (taller - disks) →
        first = (shown refuse onMove disks s).map (Move.relabel (swap .b .c)))) ∧
    (Even (taller - disks) →
      ∀ {σ ε : Type} (refuse : TooManyDisks → ε) (onMove : Move → Session σ ε Unit) (s : σ) (e : ε),
        ((solve refuse onMove disks).run s).result = .error e →
        shown refuse onMove taller s = shown refuse onMove disks s ∧
        ∃ t events,
          (solve refuse onMove disks).run s = ⟨.error e, t, .solving disks :: events⟩ ∧
          (solve refuse onMove taller).run s = ⟨.error e, t, .solving taller :: events⟩) := by
  have hdisks : disks ≤ 64 := Nat.le_trans hle htaller
  constructor
  · intro σ ε τ δ refuse onMove s refuse' onMove' t hok hok' first
    have hfirst : first = (moves taller .a .b .c).take (2 ^ disks - 1) := by
      show (shown refuse' onMove' taller t).take _ = _
      rw [hok'.shown_eq refuse' htaller]
    rw [hfirst, hok.shown_eq refuse hdisks]
    constructor
    · intro heven
      exact take_moves_of_isPrefix (moves_isPrefix_of_even hle heven .a .b .c)
    · intro hodd
      rw [take_moves_of_isPrefix (moves_isPrefix_of_odd hle hodd .a .b .c), map_relabel_moves]
      rfl
  · intro heven σ ε refuse onMove s e hfailed
    exact run_solve_of_isPrefix hdisks htaller (moves_isPrefix_of_even hle heven .a .b .c) hfailed

/-- Two disks against three, which begin with the other peg, and against four, before a listener that
gives up at the second move. -/
theorem shown_moves_of_taller_two :
    (shown Journal.Interruption.refused (Journal.keep none) 3 #[]).take 3 =
        [⟨1, .a, .c⟩, ⟨2, .a, .b⟩, ⟨1, .c, .b⟩] ∧
      (Journal.solve (some 2) 2).result = .error (.halted 2) ∧
      (Journal.solve (some 2) 4).result = .error (.halted 2) ∧
      (Journal.solve (some 2) 4).state = #[⟨1, .a, .b⟩, ⟨2, .a, .c⟩] := by
  have hok : NeverFails (Journal.keep none) := fun _ _ => rfl
  have hodd := (shown_moves_of_taller (show 2 ≤ 3 by decide) (by decide)).1
    Journal.Interruption.refused (Journal.keep none) #[]
    Journal.Interruption.refused (Journal.keep none) #[] hok hok
  have hhalted : (Journal.solve (some 2) 2).result = .error (.halted 2) := rfl
  obtain ⟨-, t, events, hsmall, htall⟩ :=
    (shown_moves_of_taller (show 2 ≤ 4 by decide) (by decide)).2 (by decide)
      Journal.Interruption.refused (Journal.keep (some 2)) #[] (.halted 2) hhalted
  have hstate : t = #[⟨1, .a, .b⟩, ⟨2, .a, .c⟩] := (congrArg Trace.state hsmall).symm
  refine ⟨?_, hhalted, ?_, ?_⟩
  · exact (hodd.2 (by decide)).trans rfl
  · rw [Journal.solve, htall]
  · rw [Journal.solve, htall, hstate]

/-! ## The way back -/

/-- **Read backwards, the walk is the way back.** The two recursive calls are each other's mirror
image, so turning the list round puts each in the place of the other. -/
theorem map_undo_reverse_moves (n : Nat) (src via dst : Peg) :
    (moves n src via dst).reverse.map Move.undo = moves n dst via src := by
  induction n generalizing src via dst with
  | zero => rfl
  | succ n ih =>
    have hfirst := ih src dst via
    have hsecond := ih via src dst
    rw [List.map_reverse] at hfirst hsecond
    calc (moves (n + 1) src via dst).reverse.map Move.undo
        = ((moves n via src dst).map Move.undo).reverse ++
            ⟨n + 1, dst, src⟩ :: ((moves n src dst via).map Move.undo).reverse := by
          simp [moves_succ, Move.undo]
      _ = moves n dst src via ++ ⟨n + 1, dst, src⟩ :: moves n via dst src := by
          rw [hfirst, hsecond]
      _ = moves (n + 1) dst via src := (moves_succ n dst via src).symm

/-- The walk from `a` to `c` is its own mirror image. -/
theorem map_mirror_reverse_moves (n : Nat) :
    ((moves n .a .b .c).reverse.map fun m => m.undo.relabel (swap .a .c)) = moves n .a .b .c := by
  have hback := congrArg (List.map (Move.relabel (swap .a .c))) (map_undo_reverse_moves n .a .b .c)
  rw [map_relabel_moves, List.map_map] at hback
  exact hback

/-- In a list that is its own image when it is turned round, entries at the same distance from the
two ends are each other's images. -/
theorem getElem?_of_map_reverse_eq {α : Type} {f : α → α} {l : List α} (h : l.reverse.map f = l)
    {i : Nat} (hi : i < l.length) : l[i]? = l[l.length - 1 - i]?.map f := by
  have hentry : (l.reverse.map f)[i]? = l[l.length - 1 - i]?.map f := by
    rw [List.getElem?_map, List.getElem?_reverse hi]
  rwa [h] at hentry

namespace Position

variable {p q : Position} {m : Move}

/-- A legal move can be taken back. -/
theorem Legal.undo (h : p.Legal m) (hp : p.WellFormed) :
    (p.shift m.disk m.src m.dst).Legal m.undo := by
  refine ⟨h.src_ne_dst.symm, ?_, ?_⟩
  · show (p.shift m.disk m.src m.dst m.dst).head? = some m.disk
    rw [shift_dst, List.head?_cons]
  · intro top htop
    obtain ⟨below, hsrc⟩ := h.src_eq
    have hsorted := hp.sorted m.src
    rw [hsrc] at hsorted
    replace htop : top ∈ below.head? := by
      rwa [show m.undo.dst = m.src from rfl, shift_src p m.disk h.src_ne_dst, hsrc,
        List.tail_cons] at htop
    exact List.rel_of_pairwise_cons hsorted (List.mem_of_mem_head? htop)

/-- Taking a move back restores the position. -/
theorem Legal.shift_undo (h : p.Legal m) :
    (p.shift m.disk m.src m.dst).shift m.disk m.dst m.src = p := by
  obtain ⟨below, hsrc⟩ := h.src_eq
  funext peg
  by_cases hpeg : peg = m.src
  · rw [hpeg, shift_dst, shift_src p m.disk h.src_ne_dst, hsrc, List.tail_cons]
  · by_cases hpeg' : peg = m.dst
    · rw [hpeg', shift_src _ m.disk h.src_ne_dst.symm, shift_dst, List.tail_cons]
    · rw [shift_of_ne _ m.disk hpeg' hpeg, shift_of_ne p m.disk hpeg hpeg']

/-- **Every play can be taken back,** the last move first. -/
theorem WellFormed.play?_undo {walk : List Move} (hp : p.WellFormed) (h : p.play? walk = some q) :
    q.play? (walk.reverse.map Move.undo) = some p := by
  induction walk generalizing p with
  | nil =>
    cases h
    rfl
  | cons m walk ih =>
    obtain ⟨hlegal, hrest⟩ := play?_cons_eq_some.mp h
    have hback := ih (hp.shift hlegal) hrest
    have hlast : (p.shift m.disk m.src m.dst).play? [m.undo] = some p := by
      refine play?_cons_eq_some.mpr ⟨hlegal.undo hp, ?_⟩
      rw [play?_nil]
      exact congrArg some hlegal.shift_undo
    rw [List.reverse_cons, List.map_append]
    exact play?_append_eq_some.mpr ⟨_, hback, hlast⟩

end Position

open Position

/-- **The walk is symmetric in time.** Turn the moves of a walk of at most 64 disks round, undo each and
exchange `a` and `c`: the same list comes out. Move number `k` and move number `2 ^ disks - k` carry
the same disk between mirrored pegs. For towers of any height and for any pegs, the moves that carry
the tower, turned round and undone, are those that carry it back; and by the rules they do lead
back, from whatever position the walk has led to. -/
theorem shown_moves_turned_round {σ ε : Type} (refuse : TooManyDisks → ε)
    {onMove : Move → Session σ ε Unit} (hok : NeverFails onMove) (s : σ) :
    (∀ disks ≤ 64,
      let walk := shown refuse onMove disks s
      (walk.reverse.map fun m => m.undo.relabel (swap .a .c)) = walk ∧
      ∀ k, 1 ≤ k → k ≤ 2 ^ disks - 1 →
        ∃ m m' : Move, walk[k - 1]? = some m ∧ walk[2 ^ disks - k - 1]? = some m' ∧
          m'.disk = m.disk ∧ m'.src = swap .a .c m.dst ∧ m'.dst = swap .a .c m.src) ∧
    ∀ (n : Nat) (src via dst : Peg) (count : UInt64),
      (shownCarrying onMove n src via dst count s).reverse.map Move.undo =
        shownCarrying onMove n dst via src count s ∧
      ∀ p q : Position, p.WellFormed →
        p.play? (shownCarrying onMove n src via dst count s) = some q →
        q.play? (shownCarrying onMove n dst via src count s) = some p := by
  constructor
  · intro disks hdisks walk
    have hwalk : walk = moves disks .a .b .c := hok.shown_eq refuse hdisks s
    have hlength : walk.length = 2 ^ disks - 1 := by rw [hwalk, length_moves]
    have hmirror : (walk.reverse.map fun m => m.undo.relabel (swap .a .c)) = walk := by
      rw [hwalk, map_mirror_reverse_moves]
    refine ⟨hmirror, ?_⟩
    intro k hpos hk
    have hlt : 2 ^ disks - k - 1 < walk.length := by omega
    have hentry := getElem?_of_map_reverse_eq hmirror hlt
    rw [show walk.length - 1 - (2 ^ disks - k - 1) = k - 1 by omega] at hentry
    obtain ⟨m, hm⟩ : ∃ m, walk[k - 1]? = some m :=
      ⟨_, List.getElem?_eq_getElem (show k - 1 < walk.length by omega)⟩
    rw [hm] at hentry
    exact ⟨m, _, hm, hentry, rfl, rfl, rfl⟩
  · intro n src via dst count
    simp only [hok.shownCarrying_eq]
    refine ⟨map_undo_reverse_moves n src via dst, ?_⟩
    intro p q hp hplay
    rw [← map_undo_reverse_moves n src via dst]
    exact hp.play?_undo hplay

/-- The second and the sixth of the seven moves of three disks, and two disks carried from `b` to `c`
and back. -/
theorem shown_moves_turned_round_three :
    NeverFails (Journal.keep none) ∧
      (∃ m m' : Move, (shown Journal.Interruption.refused (Journal.keep none) 3 #[])[1]? = some m ∧
        (shown Journal.Interruption.refused (Journal.keep none) 3 #[])[5]? = some m' ∧
        m'.disk = m.disk ∧ m'.src = swap .a .c m.dst ∧ m'.dst = swap .a .c m.src) ∧
      (allOn .b 2).WellFormed ∧
      (allOn .b 2).play? (shownCarrying (Journal.keep none) 2 .b .a .c 0 #[]) =
        some (allOn .c 2) ∧
      (allOn .c 2).play? (shownCarrying (Journal.keep none) 2 .c .a .b 0 #[]) =
        some (allOn .b 2) := by
  have hok : NeverFails (Journal.keep none) := fun _ _ => rfl
  obtain ⟨hwalk, hcarry⟩ := shown_moves_turned_round Journal.Interruption.refused hok #[]
  have hstart := wellFormed_allOn .b 2
  have hplay : (allOn .b 2).play? (shownCarrying (Journal.keep none) 2 .b .a .c 0 #[]) =
      some (allOn .c 2) := by
    rw [hok.shownCarrying_eq]
    exact play?_moves_allOn ⟨by decide, by decide, by decide⟩ 2
  exact ⟨hok, (hwalk 3 (by decide)).2 2 (by decide) (by decide), hstart, hplay,
    (hcarry 2 .b .a .c 0).2 _ _ hstart hplay⟩

end TowerOfHanoi
