/-!
# Taking text apart

Cutting a text at every occurrence of a separator, cutting it at the first one, and looking for one
text inside another. All work on lists of characters.
-/

namespace TowerOfHanoi.Text

/-- The pieces between the occurrences of `sep`, always one more than there are occurrences. -/
def pieces (sep : Char) : List Char → List (List Char)
  | [] => [[]]
  | c :: cs =>
    if c = sep then [] :: pieces sep cs
    else match pieces sep cs with
      | [] => [[c]]
      | p :: ps => (c :: p) :: ps

/-- The text before the first `sep`, and the text after it if there is a `sep`. -/
def cutAt (sep : Char) : List Char → List Char × Option (List Char)
  | [] => ([], none)
  | c :: cs =>
    if c = sep then ([], some cs)
    else
      let (before, after) := cutAt sep cs
      (c :: before, after)

/-- Does `needle` stand somewhere in the text? -/
def occursIn (needle : List Char) : List Char → Bool
  | [] => needle.isEmpty
  | c :: cs => needle.isPrefixOf (c :: cs) || occursIn needle cs

/-- A text without the separator is its only piece. -/
theorem pieces_of_notMem {sep : Char} {cs : List Char} (h : sep ∉ cs) : pieces sep cs = [cs] := by
  induction cs with
  | nil => rfl
  | cons c cs ih =>
    have hc : c ≠ sep := fun hc => h (hc ▸ List.mem_cons_self)
    have hcs : sep ∉ cs := fun hmem => h (List.mem_cons_of_mem c hmem)
    rw [pieces, if_neg hc, ih hcs]

/-- What comes before the first separator is the first piece. -/
theorem pieces_append {sep : Char} {front : List Char} (h : sep ∉ front) (rest : List Char) :
    pieces sep (front ++ sep :: rest) = front :: pieces sep rest := by
  induction front with
  | nil => rw [List.nil_append, pieces, if_pos rfl]
  | cons c front ih =>
    have hc : c ≠ sep := fun hc => h (hc ▸ List.mem_cons_self)
    have hfront : sep ∉ front := fun hmem => h (List.mem_cons_of_mem c hmem)
    rw [List.cons_append, pieces, if_neg hc, ih hfront]

/-- Putting the two parts of a cut together gives the text back. -/
theorem cutAt_eq_some {sep : Char} {cs before after : List Char}
    (h : cutAt sep cs = (before, some after)) : cs = before ++ sep :: after := by
  induction cs generalizing before with
  | nil => simp [cutAt] at h
  | cons c cs ih =>
    by_cases hc : c = sep
    · simp only [cutAt, if_pos hc, Prod.mk.injEq, Option.some.injEq] at h
      obtain ⟨rfl, rfl⟩ := h
      simp [hc]
    · simp only [cutAt, if_neg hc, Prod.mk.injEq] at h
      obtain ⟨rfl, rest⟩ := h
      rw [List.cons_append, ← ih (Prod.ext rfl rest)]

end TowerOfHanoi.Text
