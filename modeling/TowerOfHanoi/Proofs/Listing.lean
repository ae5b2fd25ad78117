import TowerOfHanoi.Proofs.ArgumentSyntax
import TowerOfHanoi.Proofs.LegalWalk
import TowerOfHanoi.Proofs.Outcome

/-!
# The listing is a solution

A line of the listing names two pegs and no disk. Nothing is lost by that: in a legal play the disk
is the one on top of its peg, so whoever replays the lines finds the disks again
(`Position.popAll?_of_play?`). The rest is about text: the output falls into its lines, and each
line can be read back.
-/

namespace TowerOfHanoi

/-! ## Replaying without the disks -/

namespace Position

variable {p q : Position} {walk : List Move}

theorem pop?_of_legal {m : Move} (h : p.Legal m) :
    p.pop? m.src m.dst = some (m.disk, p.shift m.disk m.src m.dst) := by
  unfold pop?
  rw [h.head?_src]
  show (p.make? m).map _ = _
  rw [make?_of_legal h, Option.map_some]

/-- **The pegs determine the disks.** Replaying a legal play by its pegs alone leads to the same
position and finds the disk of every move. -/
theorem popAll?_of_play? (h : p.play? walk = some q) :
    p.popAll? (walk.map fun m => (m.src, m.dst)) = some (walk.map Move.disk, q) := by
  induction walk generalizing p with
  | nil =>
    cases h
    rfl
  | cons m walk ih =>
    obtain ⟨hlegal, hrest⟩ := play?_cons_eq_some.mp h
    simp only [List.map_cons, popAll?, pop?_of_legal hlegal, ih hrest, Option.bind_eq_bind,
      Option.bind_some]

end Position

/-! ## Falling into lines -/

namespace Command

theorem toList_unlines_cons (line : String) (rest : List String) :
    (unlines (line :: rest)).toList = line.toList ++ '\n' :: (unlines rest).toList := by
  simp [unlines]

/-- Lines without newlines come apart again. After the last newline there is nothing. -/
theorem pieces_unlines {lines : List String} (h : ∀ line ∈ lines, '\n' ∉ line.toList) :
    Text.pieces '\n' (unlines lines).toList = lines.map String.toList ++ [[]] := by
  induction lines with
  | nil => rfl
  | cons line rest ih =>
    rw [toList_unlines_cons, Text.pieces_append (h line List.mem_cons_self),
      ih fun other hother => h other (List.mem_cons_of_mem line hother)]
    rfl

theorem toList_text (m : Move) : m.text.toList =
    ['m', 'o', 'v', 'e', ' ', m.src.letter, ' ', '-', '-', '>', ' ', m.dst.letter] := by
  simp [Move.text, Peg.name]

theorem newline_notMem_text (m : Move) : '\n' ∉ m.text.toList := by
  have hletter : ∀ peg : Peg, '\n' ≠ peg.letter := by
    intro peg
    cases peg <;> decide
  rw [toList_text]
  simp [hletter]

theorem newline_notMem_toString (n : Nat) : '\n' ∉ (toString n).toList := by
  intro hmem
  have hdigits : '\n' ∈ Nat.toDigits 10 n := by simpa using hmem
  have hdigit := Nat.isDigit_of_mem_toDigits (by decide) (by decide) hdigits
  exact absurd hdigit (by decide)

theorem unlines_append (front back : List String) :
    unlines (front ++ back) = unlines front ++ unlines back := by
  simp [unlines]

/-- The lines of an output that lists a walk and then gives a number. -/
theorem pieces_listing (walk : List Move) (n : Nat) :
    Text.pieces '\n' (listing walk ++ toString n ++ "\n").toList =
      (walk.map fun m => m.text.toList) ++ [(toString n).toList] ++ [[]] := by
  have hlines : listing walk ++ toString n ++ "\n" =
      unlines (walk.map Move.text ++ [toString n]) := by
    rw [unlines_append, String.append_assoc]
    simp [listing, unlines]
  rw [hlines, pieces_unlines]
  · simp
  · intro line hline
    rcases List.mem_append.mp hline with hmove | hcount
    · obtain ⟨m, -, rfl⟩ := List.mem_map.mp hmove
      exact newline_notMem_text m
    · rw [List.mem_singleton.mp hcount]
      exact newline_notMem_toString n

/-! ## Reading a line back -/

/-- Reads a line of a listing: the peg to take the top disk from, and the peg to lay it on. -/
def readStep? : List Char → Option (Peg × Peg)
  | ['m', 'o', 'v', 'e', ' ', src, ' ', '-', '-', '>', ' ', dst] => do
    let src ← Peg.ofLetter? src
    let dst ← Peg.ofLetter? dst
    some (src, dst)
  | _ => none

theorem readStep?_text (m : Move) : readStep? m.text.toList = some (m.src, m.dst) := by
  rw [toList_text, readStep?, Peg.ofLetter?_letter, Peg.ofLetter?_letter]
  rfl

theorem mapM_readStep?_text (walk : List Move) :
    (walk.map fun m => m.text.toList).mapM readStep? =
      some (walk.map fun m => (m.src, m.dst)) := by
  induction walk with
  | nil => rfl
  | cons m walk ih =>
    rw [List.map_cons, List.mapM_cons, readStep?_text, ih]
    rfl

open Position

/-- **The listing is a complete solution.** The output of a run that lists its moves falls into
`2 ^ disks` lines, each ended by a newline. All but the last name two different pegs. Replaying
them from the tower on `a`, always with the disk that lies on top, is legal throughout, moves the
disks that `solve` shows and ends with the tower on `c`. The last line counts the lines before it,
and is all that the run prints without the switch for the listing. -/
theorem listing_replays {invocation : Invocation} {settings : Settings} {text : String}
    {disks : Nat} (hdevice : invocation.device = .working)
    (hread : readArguments invocation.arguments = .ok settings) (hmanual : settings.manual = false)
    (hlist : settings.listMoves = true) (htext : text.toUTF8 = invocation.input)
    (hcount : DiskCount.read text = .ok disks) (hle : disks ≤ 64) :
    ∃ (lines : List (List Char)) (steps : List (Peg × Peg)) (last : String),
      Text.pieces '\n' (run invocation).stdout.toList = lines ++ [last.toList] ++ [[]] ∧
      lines.length + 1 = 2 ^ disks ∧
      (∀ line ∈ lines, ∃ src dst : Peg, src ≠ dst ∧
        line = ("move " ++ src.name ++ " --> " ++ dst.name).toList) ∧
      lines.mapM readStep? = some steps ∧
      (∀ {σ ε : Type} (refuse : TooManyDisks → ε) (onMove : Move → Session σ ε Unit) (s : σ),
        NeverFails onMove →
        (allOn .a disks).popAll? steps =
          some ((shown refuse onMove disks s).map Move.disk, allOn .c disks)) ∧
      last = toString lines.length ∧
      (run { invocation with arguments := invocation.arguments.erase "--print-moves" }).stdout =
        last ++ "\n" := by
  have hplay : (allOn .a disks).play? (moves disks .a .b .c) = some (allOn .c disks) :=
    play?_moves_allOn Peg.distinct_abc disks
  have hlength : (moves disks .a .b .c).length = moveCount disks := by
    rw [length_moves, moveCount_eq]
  obtain ⟨-, hstdout⟩ := run_of_feasible hdevice hread hmanual htext hcount (Or.inl hle)
  rw [preamble_of_listMoves hlist] at hstdout
  refine ⟨(moves disks .a .b .c).map fun m => m.text.toList,
    (moves disks .a .b .c).map fun m => (m.src, m.dst), toString (moveCount disks),
    ?_, ?_, ?_, mapM_readStep?_text _, ?_, ?_, ?_⟩
  · rw [hstdout, pieces_listing]
  · rw [List.length_map, length_moves_succ]
  · intro line hline
    obtain ⟨m, hm, rfl⟩ := List.mem_map.mp hline
    exact ⟨m.src, m.dst, src_ne_dst_of_mem_play? hplay hm, rfl⟩
  · intro σ ε refuse onMove s hok
    rw [popAll?_of_play? hplay, hok.shown_eq refuse hle]
  · rw [List.length_map, hlength]
  · obtain ⟨-, hplain⟩ :
        (run { invocation with arguments := invocation.arguments.erase "--print-moves" }).code = 0 ∧
          _ :=
      run_of_feasible hdevice (readArguments_erase hread hlist) hmanual htext hcount (Or.inl hle)
    rw [hplain, preamble_of_not_listMoves rfl, String.empty_append]

/-- Two disks, with a strategy that the listing does not use. -/
def listTwo : Invocation where
  arguments := ["--print-moves", "--method", "doubling"]
  input := "2".toUTF8

theorem listing_replays_two :
    readArguments listTwo.arguments = .ok { strategy := .doubling, listMoves := true } ∧
      DiskCount.read "2" = .ok 2 ∧
      ∃ (lines : List (List Char)) (steps : List (Peg × Peg)) (last : String),
        Text.pieces '\n' (run listTwo).stdout.toList = lines ++ [last.toList] ++ [[]] ∧
        lines.length + 1 = 4 ∧ lines.mapM readStep? = some steps ∧
        (allOn .a 2).popAll? steps = some ([1, 2, 1], allOn .c 2) ∧
        (run { listTwo with arguments := ["--method", "doubling"] }).stdout = last ++ "\n" := by
  have hread : readArguments listTwo.arguments =
      .ok { strategy := .doubling, listMoves := true } := rfl
  have hcount : DiskCount.read "2" = .ok 2 := rfl
  have herase : listTwo.arguments.erase "--print-moves" = ["--method", "doubling"] := by decide
  obtain ⟨lines, steps, last, hlines, hlength, -, hsteps, hreplay, -, hplain⟩ :=
    listing_replays rfl hread rfl rfl (rfl : "2".toUTF8 = listTwo.input) hcount (by decide)
  rw [herase] at hplain
  exact ⟨hread, hcount, lines, steps, last, hlines, hlength, hsteps,
    hreplay Journal.Interruption.refused (Journal.keep none) #[] fun _ _ => rfl, hplain⟩

end Command

end TowerOfHanoi
