import TowerOfHanoi.Move

/-!
# Positions and legal play

A position says which disks lie on each peg, topmost first. The rules of the puzzle are stated
here on their own, without regard to any way of solving it: `Position.Legal` is what one move must
satisfy, and `Position.play?` makes a sequence of moves and refuses at the first illegal one.
`Position.popAll?` replays a record that names only the pegs and finds out which disk each step
carries.
-/

namespace TowerOfHanoi

/-- The disks on each peg, topmost first. -/
def Position := Peg → List Nat

namespace Position

/-- A tower of disks `1` to `n`, topmost first. -/
def tower (n : Nat) : List Nat := List.range' 1 n

/-- All `n` disks on one peg. -/
def allOn (peg : Peg) (n : Nat) : Position := fun p => if p = peg then tower n else []

/-- The position after taking the top disk from `src` and laying `disk` on `dst`. -/
def shift (p : Position) (disk : Nat) (src dst : Peg) : Position := fun q =>
  if q = dst then disk :: p q else if q = src then (p q).tail else p q

/-- A move takes the top disk of its source to another peg, which is empty or has a larger disk on
top. -/
structure Legal (p : Position) (m : Move) : Prop where
  src_ne_dst : m.src ≠ m.dst
  head?_src : (p m.src).head? = some m.disk
  lt_of_mem_head?_dst : ∀ top ∈ (p m.dst).head?, m.disk < top

instance (p : Position) (m : Move) : Decidable (p.Legal m) :=
  decidable_of_iff
    (m.src ≠ m.dst ∧ (p m.src).head? = some m.disk ∧ ∀ top ∈ (p m.dst).head?, m.disk < top)
    ⟨fun h => ⟨h.1, h.2.1, h.2.2⟩, fun h => ⟨h.1, h.2, h.3⟩⟩

/-- Makes one move, if it is legal. -/
def make? (p : Position) (m : Move) : Option Position :=
  if p.Legal m then some (p.shift m.disk m.src m.dst) else none

/-- Makes moves in order, if each is legal when its turn comes. -/
def play? (p : Position) (ms : List Move) : Option Position := ms.foldlM make? p

/-- Takes the top disk of `src` and puts it on `dst`, which must not hold a smaller disk. Gives the
disk as well. -/
def pop? (p : Position) (src dst : Peg) : Option (Nat × Position) :=
  match (p src).head? with
  | none => none
  | some disk => (p.make? ⟨disk, src, dst⟩).map fun q => (disk, q)

/-- Replays steps that name only their pegs. Gives the disks that were carried, in order, and the
last position. -/
def popAll? (p : Position) : List (Peg × Peg) → Option (List Nat × Position)
  | [] => some ([], p)
  | (src, dst) :: rest => do
    let (disk, q) ← p.pop? src dst
    let (disks, last) ← q.popAll? rest
    some (disk :: disks, last)

@[simp]
theorem play?_nil (p : Position) : p.play? [] = some p := rfl

theorem play?_cons (p : Position) (m : Move) (ms : List Move) :
    p.play? (m :: ms) = (p.make? m).bind (·.play? ms) := rfl

theorem play?_append (p : Position) (ms ns : List Move) :
    p.play? (ms ++ ns) = (p.play? ms).bind (·.play? ns) := by
  simp only [play?, List.foldlM_append]
  rfl

theorem make?_of_legal {p : Position} {m : Move} (h : p.Legal m) :
    p.make? m = some (p.shift m.disk m.src m.dst) := if_pos h

end Position

end TowerOfHanoi
