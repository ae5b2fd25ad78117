/-!
# Buffering output

Text on its way out is collected until the next piece would no longer fit. A buffer does no
writing: it says which chunks have to go out now, and what is kept for later.
-/

namespace TowerOfHanoi.Output

/-- How many bytes are collected before they are sent on. -/
def capacity : Nat := 8192

/-- What has to be written now, in order, and what stays in the buffer. -/
structure Handover where
  chunks : List String
  kept : String
  deriving DecidableEq, Repr

/-- A text as chunks: one, or none if there is no text. -/
def chunked (text : String) : List String := if text.isEmpty then [] else [text]

/-- Adds `text` to what has been collected. If it does not fit, what was collected goes out first. A
text that would fill the buffer alone is not collected. -/
def push (collected text : String) : Handover :=
  let fits : Bool := collected.utf8ByteSize + text.utf8ByteSize ≤ capacity
  let outgoing := if fits then [] else chunked collected
  let staying := if fits then collected else ""
  if text.utf8ByteSize < capacity then ⟨outgoing, staying ++ text⟩
  else ⟨outgoing ++ [text], staying⟩

/-- Sends everything out. -/
def drain (collected : String) : Handover := ⟨chunked collected, ""⟩

theorem join_chunked (text : String) : String.join (chunked text) = text := by
  by_cases h : text = "" <;> simp [chunked, h]

/-- A buffer loses nothing and keeps the order. -/
theorem join_push (collected text : String) :
    String.join (push collected text).chunks ++ (push collected text).kept = collected ++ text := by
  by_cases fits : collected.utf8ByteSize + text.utf8ByteSize ≤ capacity
  · by_cases small : text.utf8ByteSize < capacity
    · simp [push, fits, small]
    · have empty : collected = "" := String.utf8ByteSize_eq_zero_iff.1 (by omega)
      have full : text.utf8ByteSize ≤ capacity := by omega
      simp [push, small, empty, full]
  · by_cases small : text.utf8ByteSize < capacity
    · simp [push, fits, small, join_chunked]
    · simp [push, fits, small, String.join_append, join_chunked]

end TowerOfHanoi.Output
