import TowerOfHanoi.Move

/-!
# The recursive solution

To carry a tower of `n + 1` disks from `src` to `dst`: carry the upper `n` disks out of the way to
`via`, move disk `n + 1`, and carry the `n` disks on top of it again.

`moves` writes this down as a list. `carryM` performs it: it hands the moves one at a time to a
visitor in a monad, so a visitor that fails ends the walk, and no list of `2 ^ n - 1` moves is ever
built. `carryM_eq_foldlM` says that the two are the same walk: `carryM` is the monadic left fold
over `moves`.
-/

namespace TowerOfHanoi

/-- The moves that carry a tower of `n` disks from `src` to `dst`, with `via` to help. -/
def moves : Nat → Peg → Peg → Peg → List Move
  | 0, _, _, _ => []
  | n + 1, src, via, dst => moves n src dst via ++ ⟨n + 1, src, dst⟩ :: moves n via src dst

/-- Carries a tower of `n` disks from `src` to `dst`. Each move is shown to `visit` together with
what the visits so far have accumulated. A single disk is moved at once. -/
@[specialize]
def carryM {m : Type → Type} [Monad m] {κ : Type} (visit : κ → Move → m κ) :
    Nat → Peg → Peg → Peg → κ → m κ
  | 0, _, _, _, acc => pure acc
  | 1, src, _, dst, acc => visit acc ⟨1, src, dst⟩
  | n + 2, src, via, dst, acc => do
    let acc ← carryM visit (n + 1) src dst via acc
    let acc ← visit acc ⟨n + 2, src, dst⟩
    carryM visit (n + 1) via src dst acc

@[simp]
theorem moves_zero (src via dst : Peg) : moves 0 src via dst = [] := rfl

theorem moves_succ (n : Nat) (src via dst : Peg) :
    moves (n + 1) src via dst = moves n src dst via ++ ⟨n + 1, src, dst⟩ :: moves n via src dst :=
  rfl

section

variable {m : Type → Type} [Monad m] [LawfulMonad m] {κ : Type} (visit : κ → Move → m κ)

/-- The walk of a single disk is no exception: it is the general walk around two empty ones. -/
theorem carryM_succ (n : Nat) (src via dst : Peg) (acc : κ) :
    carryM visit (n + 1) src via dst acc = (do
      let acc ← carryM visit n src dst via acc
      let acc ← visit acc ⟨n + 1, src, dst⟩
      carryM visit n via src dst acc) := by
  cases n with
  | zero => simp only [carryM, pure_bind, bind_pure]
  | succ n => rfl

/-- Walking the solution is folding over its list of moves, whatever a visit does. -/
theorem carryM_eq_foldlM (n : Nat) (src via dst : Peg) (acc : κ) :
    carryM visit n src via dst acc = (moves n src via dst).foldlM visit acc := by
  induction n generalizing src via dst acc with
  | zero => rfl
  | succ n ih =>
    simp only [carryM_succ, moves_succ, List.foldlM_append, List.foldlM_cons, ih]

end

end TowerOfHanoi
