import Mathlib.Algebra.Group.Nat.Defs
import Mathlib.Data.List.TakeWhile
import Mathlib.Logic.ExistsUnique
import TowerOfHanoi.DiskCount

/-!
# Which texts are disk counts

The syntax of a disk count, stated without regard to the reader: what the first word of a text is
(`IsFirstWord`), what number digits stand for (`placeValue`), which words are counts (`IsCount`) and
which are numbers below zero (`IsBelowZero`). The reader is then shown to decide exactly these. Its
answers are four, and every text gets one of them: there is no word, the word is a count, the word
is below zero, or it is neither.

Digits are read by adding them up without a bound and looking at the sum afterwards. A loop in 32
bits, which gives up as soon as a product or a sum would not fit (`checkedDigits?`), reads the same
numerals, since a number never gets smaller by another digit.
-/

namespace TowerOfHanoi

namespace Text

/-! ## The first word -/

/-- Nothing but blanks stands before `word`, `word` holds at least one character and no blank, and
after it comes a blank or the end of the text. -/
def IsFirstWord (word text : List Char) : Prop :=
  ∃ before after, text = before ++ word ++ after ∧ (∀ c ∈ before, isBlank c = true) ∧
    word ≠ [] ∧ (∀ c ∈ word, isBlank c = false) ∧ ∀ c ∈ after.head?, isBlank c = true

theorem firstWord_eq_nil_iff (text : List Char) :
    firstWord text = [] ↔ ∀ c ∈ text, isBlank c = true := by
  unfold firstWord
  rw [← List.dropWhile_eq_nil_iff]
  constructor
  · intro h
    cases hrest : text.dropWhile isBlank with
    | nil => rfl
    | cons c cs =>
      -- what is left starts with a character that is not blank, and that one is taken
      have hc : isBlank c = false := by
        have hhead := List.head?_dropWhile_not isBlank text
        rwa [hrest] at hhead
      rw [hrest, List.takeWhile_cons_of_pos (by simp [hc])] at h
      cases h
  · intro h
    rw [h, List.takeWhile_nil]

theorem isFirstWord_firstWord {text : List Char} (h : firstWord text ≠ []) :
    IsFirstWord (firstWord text) text := by
  refine ⟨text.takeWhile isBlank, (text.dropWhile isBlank).dropWhile fun c => !isBlank c,
    ?_, ?_, h, ?_, ?_⟩
  · unfold firstWord
    rw [List.append_assoc, List.takeWhile_append_dropWhile, List.takeWhile_append_dropWhile]
  · intro c hc
    exact List.mem_takeWhile_imp hc
  · intro c hc
    simpa using List.mem_takeWhile_imp hc
  · intro c hc
    have hhead := List.head?_dropWhile_not (fun c => !isBlank c) (text.dropWhile isBlank)
    rw [Option.mem_def.mp hc] at hhead
    simpa using hhead

/-- A text has no second first word. -/
theorem IsFirstWord.eq_firstWord {word text : List Char} (h : IsFirstWord word text) :
    firstWord text = word := by
  obtain ⟨before, after, rfl, hbefore, hne, hword, hafter⟩ := h
  have hstart : (word ++ after).dropWhile isBlank = word ++ after := by
    cases word with
    | nil => exact absurd rfl hne
    | cons c cs =>
      rw [List.cons_append, List.dropWhile_cons_of_neg]
      simp [hword c List.mem_cons_self]
  have hend : after.takeWhile (fun c => !isBlank c) = [] := by
    cases after with
    | nil => rfl
    | cons c cs =>
      rw [List.takeWhile_cons_of_neg]
      simp [hafter c rfl]
  unfold firstWord
  rw [List.append_assoc, List.dropWhile_append_of_pos hbefore, hstart,
    List.takeWhile_append_of_pos (by simpa using hword), hend, List.append_nil]

theorem existsUnique_isFirstWord {text : List Char} (h : firstWord text ≠ []) :
    ∃! word, IsFirstWord word text :=
  ⟨firstWord text, isFirstWord_firstWord h, fun _ hword => hword.eq_firstWord.symm⟩

/-- A word is its own first word. -/
theorem IsFirstWord.self {word text : List Char} (h : IsFirstWord word text) :
    IsFirstWord word word := by
  obtain ⟨-, -, -, -, hne, hword, -⟩ := h
  exact ⟨[], [], by simp, by simp, hne, hword, by simp⟩

/-! ## Digits and their value -/

/-- One or more ASCII digits. -/
def IsDigits (cs : List Char) : Prop := cs ≠ [] ∧ ∀ c ∈ cs, '0' ≤ c ∧ c ≤ '9'

/-- The number that digits stand for: each counts for a power of ten, by its place. -/
def placeValue : List Char → Nat
  | [] => 0
  | c :: cs => (c.toNat - '0'.toNat) * 10 ^ cs.length + placeValue cs

theorem isDigit_iff (c : Char) : c.isDigit = true ↔ '0' ≤ c ∧ c ≤ '9' := by
  unfold Char.isDigit
  rw [Bool.and_eq_true, decide_eq_true_eq, decide_eq_true_eq]
  exact Iff.rfl

theorem isNumeral_iff (cs : List Char) : isNumeral cs = true ↔ IsDigits cs := by
  simp [isNumeral, IsDigits, isDigit_iff]

/-- Reading from the left gives every digit the value of its place. -/
theorem ofDigitChars_eq (cs : List Char) (init : Nat) :
    Nat.ofDigitChars 10 cs init = init * 10 ^ cs.length + placeValue cs := by
  induction cs generalizing init with
  | nil => simp [placeValue]
  | cons c cs ih =>
    rw [Nat.ofDigitChars_cons, ih, placeValue, List.length_cons, Nat.pow_succ, Nat.add_mul,
      Nat.mul_comm 10 init, Nat.mul_assoc, Nat.mul_comm 10, Nat.add_assoc]

theorem placeValue_eq_ofDigitChars (cs : List Char) : placeValue cs = Nat.ofDigitChars 10 cs 0 := by
  rw [ofDigitChars_eq, Nat.zero_mul, Nat.zero_add]

theorem numeralUpTo?_eq_some_iff (limit : Nat) (cs : List Char) (n : Nat) :
    numeralUpTo? limit cs = some n ↔ IsDigits cs ∧ placeValue cs = n ∧ n ≤ limit := by
  unfold numeralUpTo? numeral?
  rw [Option.filter_eq_some_iff, ← placeValue_eq_ofDigitChars]
  by_cases hdigits : IsDigits cs
  · rw [if_pos ((isNumeral_iff cs).mpr hdigits)]
    simp [hdigits]
  · rw [if_neg (fun h => hdigits ((isNumeral_iff cs).mp h))]
    simp [hdigits]

/-! ## Reading digits in 32 bits -/

/-- The product, unless it does not fit. -/
def checkedMul (a b : UInt32) : Option UInt32 :=
  if a.toNat * b.toNat < 2 ^ 32 then some (a * b) else none

/-- The sum, unless it does not fit. -/
def checkedAdd (a b : UInt32) : Option UInt32 :=
  if a.toNat + b.toNat < 2 ^ 32 then some (a + b) else none

/-- Appends a digit to a number, unless it is none or the result does not fit. -/
def checkedDigit (acc : UInt32) (c : Char) : Option UInt32 := do
  let tens ← checkedMul acc 10
  if c.isDigit then checkedAdd tens (c.val - '0'.val) else none

/-- Reads digits from the left and gives up at the first that cannot be appended. -/
def checkedDigits? (cs : List Char) : Option UInt32 :=
  if cs.isEmpty then none else cs.foldlM checkedDigit 0

theorem toNat_digit {c : Char} (h : c.isDigit = true) :
    (c.val - '0'.val).toNat = c.toNat - '0'.toNat := by
  obtain ⟨hlow, -⟩ := (isDigit_iff c).mp h
  exact UInt32.toNat_sub_of_le _ _ hlow

/-- A result that is given only if it fits is the unbounded one. -/
theorem checked_eq_some_iff {x : Nat} {wrapped : UInt32} (h : wrapped.toNat = x % 2 ^ 32)
    (n : UInt32) : (if x < 2 ^ 32 then some wrapped else none) = some n ↔ n.toNat = x := by
  have hn : n.toNat < 2 ^ 32 := n.toNat_lt
  split
  next hfits =>
    rw [Nat.mod_eq_of_lt hfits] at h
    rw [Option.some.injEq, ← UInt32.toNat_inj, h, eq_comm]
  next hover =>
    constructor
    · intro hnone
      cases hnone
    · intro hvalue
      omega

/-- One step of the loop is one step of the unbounded sum, as long as that fits. -/
theorem checkedDigit_eq_some_iff (acc : UInt32) (c : Char) (n : UInt32) :
    checkedDigit acc c = some n ↔
      c.isDigit = true ∧ n.toNat = 10 * acc.toNat + (c.toNat - '0'.toNat) := by
  have hmul : ∀ tens, checkedMul acc 10 = some tens ↔ tens.toNat = 10 * acc.toNat := by
    intro tens
    rw [Nat.mul_comm]
    exact checked_eq_some_iff (UInt32.toNat_mul acc 10) tens
  show (checkedMul acc 10).bind _ = some n ↔ _
  rw [Option.bind_eq_some_iff]
  by_cases hdigit : c.isDigit = true
  · have hadd : ∀ tens, checkedAdd tens (c.val - '0'.val) = some n ↔
        n.toNat = tens.toNat + (c.toNat - '0'.toNat) := by
      intro tens
      rw [← toNat_digit hdigit]
      exact checked_eq_some_iff (UInt32.toNat_add tens _) n
    simp only [hmul, if_pos hdigit, hadd]
    constructor
    · rintro ⟨tens, htens, hsum⟩
      exact ⟨hdigit, by rw [hsum, htens]⟩
    · rintro ⟨-, hsum⟩
      have hn : n.toNat < 2 ^ 32 := n.toNat_lt
      have htens : (UInt32.ofNat (10 * acc.toNat)).toNat = 10 * acc.toNat :=
        UInt32.toNat_ofNat_of_lt' (show 10 * acc.toNat < 2 ^ 32 by omega)
      exact ⟨_, htens, by rw [htens, hsum]⟩
  · simp [hdigit]

theorem le_ofDigitChars (cs : List Char) (init : Nat) : init ≤ Nat.ofDigitChars 10 cs init := by
  rw [ofDigitChars_eq]
  exact Nat.le_add_right_of_le (Nat.le_mul_of_pos_right init (Nat.pow_pos (by decide)))

/-- The loop succeeds exactly if all characters are digits and the number they stand for fits, and
then it gives that number. -/
theorem foldlM_checkedDigit_eq_some_iff (cs : List Char) (acc n : UInt32) :
    cs.foldlM checkedDigit acc = some n ↔
      (∀ c ∈ cs, c.isDigit = true) ∧ n.toNat = Nat.ofDigitChars 10 cs acc.toNat := by
  induction cs generalizing acc with
  | nil =>
    show some acc = some n ↔ _
    rw [Option.some.injEq, ← UInt32.toNat_inj]
    exact ⟨fun h => ⟨List.forall_mem_nil _, h.symm⟩, fun h => h.2.symm⟩
  | cons c cs ih =>
    rw [List.foldlM_cons, Nat.ofDigitChars_cons, List.forall_mem_cons]
    show (checkedDigit acc c).bind _ = some n ↔ _
    rw [Option.bind_eq_some_iff]
    constructor
    · rintro ⟨next, hnext, hrest⟩
      obtain ⟨hdigit, hvalue⟩ := (checkedDigit_eq_some_iff acc c next).mp hnext
      obtain ⟨hdigits, htotal⟩ := (ih next).mp hrest
      exact ⟨⟨hdigit, hdigits⟩, by rw [htotal, hvalue]⟩
    · rintro ⟨⟨hdigit, hdigits⟩, htotal⟩
      -- the number so far fits, because it is at most the whole number
      have hfits : 10 * acc.toNat + (c.toNat - '0'.toNat) < 2 ^ 32 := by
        have hle := le_ofDigitChars cs (10 * acc.toNat + (c.toNat - '0'.toNat))
        have hn : n.toNat < 2 ^ 32 := n.toNat_lt
        omega
      have hnext : (UInt32.ofNat (10 * acc.toNat + (c.toNat - '0'.toNat))).toNat =
          10 * acc.toNat + (c.toNat - '0'.toNat) := UInt32.toNat_ofNat_of_lt' hfits
      refine ⟨_, (checkedDigit_eq_some_iff acc c _).mpr ⟨hdigit, hnext⟩, (ih _).mpr ?_⟩
      exact ⟨hdigits, by rw [htotal, hnext]⟩

/-- **Checking at the end is checking at every step.** -/
theorem numeralUpTo?_eq_checkedDigits? (cs : List Char) :
    numeralUpTo? maxDiskCount cs = (checkedDigits? cs).map UInt32.toNat := by
  have hchecked : ∀ n : UInt32, checkedDigits? cs = some n ↔
      IsDigits cs ∧ placeValue cs = n.toNat := by
    intro n
    unfold checkedDigits?
    cases cs with
    | nil => simp [IsDigits]
    | cons c cs =>
      rw [List.isEmpty_cons, if_neg Bool.false_ne_true, foldlM_checkedDigit_eq_some_iff,
        ofDigitChars_eq]
      simp [IsDigits, isDigit_iff, eq_comm (a := n.toNat)]
  apply Option.ext
  intro n
  rw [numeralUpTo?_eq_some_iff, Option.map_eq_some_iff]
  constructor
  · rintro ⟨hdigits, hvalue, hle⟩
    have hn : (UInt32.ofNat n).toNat = n :=
      UInt32.toNat_ofNat_of_lt' (Nat.lt_succ_of_le hle)
    exact ⟨UInt32.ofNat n, (hchecked _).mpr ⟨hdigits, by rw [hvalue, hn]⟩, hn⟩
  · rintro ⟨m, hm, rfl⟩
    obtain ⟨hdigits, hvalue⟩ := (hchecked m).mp hm
    exact ⟨hdigits, hvalue, Nat.le_of_lt_succ m.toNat_lt⟩

end Text

namespace DiskCount

open Text

/-! ## The syntax of a count -/

/-- A word for the count `n`: digits, with at most one plus sign before them, of a value that is not
too large; or a minus sign and zeros. -/
def IsCount (word : List Char) (n : Nat) : Prop :=
  (∃ digits, (word = digits ∨ word = '+' :: digits) ∧ IsDigits digits ∧ placeValue digits = n ∧
    n ≤ 4294967295) ∨
  (n = 0 ∧ ∃ zeros, word = '-' :: List.replicate (zeros + 1) '0')

/-- A word for a number below zero: a minus sign and digits that are not all zero. -/
def IsBelowZero (word : List Char) : Prop :=
  ∃ digits, word = '-' :: digits ∧ IsDigits digits ∧ ∃ c ∈ digits, c ≠ '0'

theorem not_isDigits_cons {c : Char} (h : c.isDigit = false) (cs : List Char) :
    ¬IsDigits (c :: cs) := by
  intro hdigits
  have hc := (isDigit_iff c).mpr (hdigits.2 c List.mem_cons_self)
  rw [h] at hc
  cases hc

theorem isDigits_and_all_zero_iff (cs : List Char) :
    (IsDigits cs ∧ ∀ c ∈ cs, c = '0') ↔ ∃ zeros, cs = List.replicate (zeros + 1) '0' := by
  constructor
  · rintro ⟨⟨hne, -⟩, hzero⟩
    have hpos : 0 < cs.length := List.length_pos_iff.mpr hne
    refine ⟨cs.length - 1, List.eq_replicate_iff.mpr ⟨by omega, hzero⟩⟩
  · rintro ⟨zeros, rfl⟩
    have hzero : ∀ c ∈ List.replicate (zeros + 1) '0', c = '0' :=
      fun c hc => List.eq_of_mem_replicate hc
    refine ⟨⟨by simp, ?_⟩, hzero⟩
    intro c hc
    rw [hzero c hc]
    decide

/-! The first character decides which rule can apply. -/

theorem isCount_minus_iff (cs : List Char) (n : Nat) :
    IsCount ('-' :: cs) n ↔ n = 0 ∧ IsDigits cs ∧ ∀ c ∈ cs, c = '0' := by
  rw [isDigits_and_all_zero_iff]
  unfold IsCount
  constructor
  · rintro (⟨digits, rfl | hplus, hdigits, -⟩ | ⟨hn, zeros, hzeros⟩)
    · exact absurd hdigits (not_isDigits_cons rfl cs)
    · cases hplus
    · exact ⟨hn, zeros, (List.cons.inj hzeros).2⟩
  · rintro ⟨hn, zeros, rfl⟩
    exact Or.inr ⟨hn, zeros, rfl⟩

theorem isCount_plus_iff (cs : List Char) (n : Nat) :
    IsCount ('+' :: cs) n ↔ IsDigits cs ∧ placeValue cs = n ∧ n ≤ maxDiskCount := by
  unfold IsCount
  constructor
  · rintro (⟨digits, rfl | hplus, hdigits, hvalue⟩ | ⟨-, zeros, hzeros⟩)
    · exact absurd hdigits (not_isDigits_cons rfl cs)
    · rw [(List.cons.inj hplus).2]
      exact ⟨hdigits, hvalue⟩
    · cases hzeros
  · intro h
    exact Or.inl ⟨cs, Or.inr rfl, h⟩

theorem isCount_iff_of_ne {word : List Char} (hminus : ∀ cs, word ≠ '-' :: cs)
    (hplus : ∀ cs, word ≠ '+' :: cs) (n : Nat) :
    IsCount word n ↔ IsDigits word ∧ placeValue word = n ∧ n ≤ maxDiskCount := by
  unfold IsCount
  constructor
  · rintro (⟨digits, rfl | hword, hdigits⟩ | ⟨-, zeros, hword⟩)
    · exact hdigits
    · exact absurd hword (hplus digits)
    · exact absurd hword (hminus _)
  · intro h
    exact Or.inl ⟨word, Or.inl rfl, h⟩

theorem isBelowZero_minus_iff (cs : List Char) :
    IsBelowZero ('-' :: cs) ↔ IsDigits cs ∧ ¬∀ c ∈ cs, c = '0' := by
  unfold IsBelowZero
  constructor
  · rintro ⟨digits, hword, hdigits, c, hc, hne⟩
    obtain ⟨-, rfl⟩ := List.cons.inj hword
    exact ⟨hdigits, fun hzero => hne (hzero c hc)⟩
  · rintro ⟨hdigits, hsome⟩
    refine ⟨cs, rfl, hdigits, ?_⟩
    simpa using hsome

/-! ## The reader decides the syntax -/

theorem ofDigits_eq_ok_iff (word cs : List Char) (n : Nat) :
    ofDigits word cs = .ok n ↔ IsDigits cs ∧ placeValue cs = n ∧ n ≤ maxDiskCount := by
  rw [← numeralUpTo?_eq_some_iff]
  unfold ofDigits
  cases numeralUpTo? maxDiskCount cs with
  | none => simp
  | some m => simp

theorem ofDigits_cases (word cs : List Char) :
    (∃ n, ofDigits word cs = .ok n) ∨
      ofDigits word cs = .error (.malformed (String.ofList word)) := by
  unfold ofDigits
  cases numeralUpTo? maxDiskCount cs with
  | none => exact Or.inr rfl
  | some n => exact Or.inl ⟨n, rfl⟩

/-- The three ways of reading a word that is not empty, by its sign. -/
theorem ofWord_eq {word : List Char} (h : word ≠ []) :
    (∃ cs, word = '-' :: cs ∧ ofWord word =
      if isNumeral cs then
        if cs.all (· = '0') then .ok 0 else .error (.negative (String.ofList word))
      else .error (.malformed (String.ofList word))) ∨
    (∃ cs, word = '+' :: cs ∧ ofWord word = ofDigits word cs) ∨
    ((∀ cs, word ≠ '-' :: cs) ∧ (∀ cs, word ≠ '+' :: cs) ∧
      ofWord word = ofDigits word word) := by
  unfold ofWord
  split
  next => exact absurd rfl h
  next cs => exact Or.inl ⟨cs, rfl, rfl⟩
  next cs => exact Or.inr (Or.inl ⟨cs, rfl, rfl⟩)
  next hminus hplus => exact Or.inr (Or.inr ⟨hminus, hplus, rfl⟩)

/-- Whatever is wrong with a word, the answer quotes the word. -/
theorem ofWord_cases {word : List Char} (h : word ≠ []) :
    (∃ n, ofWord word = .ok n) ∨ ofWord word = .error (.negative (String.ofList word)) ∨
      ofWord word = .error (.malformed (String.ofList word)) := by
  rcases ofWord_eq h with ⟨cs, -, heq⟩ | ⟨cs, -, heq⟩ | ⟨-, -, heq⟩
  · rw [heq]
    split
    · split
      · exact Or.inl ⟨0, rfl⟩
      · exact Or.inr (Or.inl rfl)
    · exact Or.inr (Or.inr rfl)
  · rw [heq]
    exact (ofDigits_cases word cs).imp_right Or.inr
  · rw [heq]
    exact (ofDigits_cases word word).imp_right Or.inr

theorem ofWord_eq_ok_iff {word : List Char} (h : word ≠ []) (n : Nat) :
    ofWord word = .ok n ↔ IsCount word n := by
  rcases ofWord_eq h with ⟨cs, rfl, heq⟩ | ⟨cs, rfl, heq⟩ | ⟨hminus, hplus, heq⟩
  · rw [heq, isCount_minus_iff]
    by_cases hdigits : IsDigits cs
    · rw [if_pos ((isNumeral_iff cs).mpr hdigits)]
      by_cases hzero : ∀ c ∈ cs, c = '0'
      · rw [if_pos (by simpa using hzero)]
        exact ⟨fun hok => ⟨(Except.ok.inj hok).symm, hdigits, hzero⟩, fun hcount => by rw [hcount.1]⟩
      · rw [if_neg (by simpa using hzero)]
        simp [hzero]
    · rw [if_neg (fun hnumeral => hdigits ((isNumeral_iff cs).mp hnumeral))]
      simp [hdigits]
  · rw [heq, ofDigits_eq_ok_iff, isCount_plus_iff]
  · rw [heq, ofDigits_eq_ok_iff, isCount_iff_of_ne hminus hplus]

theorem ofWord_eq_negative_iff {word : List Char} (h : word ≠ []) :
    ofWord word = .error (.negative (String.ofList word)) ↔ IsBelowZero word := by
  -- without a minus sign the reader never gives this answer
  have hunsigned : ∀ cs, ofDigits word cs ≠ .error (.negative (String.ofList word)) := by
    intro cs heq
    rcases ofDigits_cases word cs with ⟨n, hn⟩ | hmalformed
    · rw [hn] at heq
      cases heq
    · rw [hmalformed] at heq
      cases heq
  rcases ofWord_eq h with ⟨cs, rfl, heq⟩ | ⟨cs, rfl, heq⟩ | ⟨hminus, -, heq⟩
  · rw [heq, isBelowZero_minus_iff]
    by_cases hdigits : IsDigits cs
    · rw [if_pos ((isNumeral_iff cs).mpr hdigits)]
      by_cases hzero : ∀ c ∈ cs, c = '0'
      · rw [if_pos (by simpa using hzero)]
        exact ⟨fun hok => (by cases hok), fun hbelow => absurd hzero hbelow.2⟩
      · rw [if_neg (by simpa using hzero)]
        simp [hdigits, hzero]
    · rw [if_neg (fun hnumeral => hdigits ((isNumeral_iff cs).mp hnumeral))]
      simp [hdigits]
  · rw [heq]
    refine ⟨fun hnegative => absurd hnegative (hunsigned cs), ?_⟩
    rintro ⟨digits, hword, -⟩
    cases hword
  · rw [heq]
    refine ⟨fun hnegative => absurd hnegative (hunsigned word), ?_⟩
    rintro ⟨digits, hword, -⟩
    exact absurd hword (hminus digits)

/-- What is neither a count nor below zero is malformed. -/
theorem ofWord_eq_malformed_iff {word : List Char} (h : word ≠ []) :
    ofWord word = .error (.malformed (String.ofList word)) ↔
      (∀ n, ¬IsCount word n) ∧ ¬IsBelowZero word := by
  rw [← ofWord_eq_negative_iff h]
  simp only [← ofWord_eq_ok_iff h]
  rcases ofWord_cases h with ⟨n, hn⟩ | hnegative | hmalformed
  · simp [hn]
  · simp [hnegative]
  · simp [hmalformed]

/-- An answer that quotes something quotes the word. -/
theorem ofWord_eq_quoting_iff {word : List Char} (h : word ≠ []) (quoted : String) :
    (ofWord word = .error (.negative quoted) ↔
      quoted = String.ofList word ∧ ofWord word = .error (.negative (String.ofList word))) ∧
    (ofWord word = .error (.malformed quoted) ↔
      quoted = String.ofList word ∧ ofWord word = .error (.malformed (String.ofList word))) := by
  rcases ofWord_cases h with ⟨n, hn⟩ | hnegative | hmalformed
  · simp [hn]
  · simp [hnegative, eq_comm]
  · simp [hmalformed, eq_comm]

theorem read_eq_ofWord {word : List Char} {text : String}
    (h : IsFirstWord word text.toList) : read text = ofWord word := by
  rw [read, h.eq_firstWord]

theorem read_eq_missing_iff (text : String) :
    read text = .error .missing ↔ ∀ c ∈ text.toList, isBlank c = true := by
  rw [← firstWord_eq_nil_iff, read]
  constructor
  · intro hmissing
    by_contra hne
    rcases ofWord_cases hne with ⟨n, hn⟩ | hnegative | hmalformed
    · simp [hn] at hmissing
    · simp [hnegative] at hmissing
    · simp [hmalformed] at hmissing
  · intro hnil
    rw [hnil]
    rfl

/-- **The reader accepts exactly the counts, and says what is wrong with everything else.** A text
of blanks has no count. Any other text has exactly one first word, and the answer is the count that
the word stands for, or that it is below zero, or that it is malformed, each in exactly the cases
named, and a bad word is quoted as it stands. The word alone gives the same answer, and so does every
other text with this first word. A loop in 32 bits that gives up when a step does not fit reads the
same digits. -/
theorem read_decides_syntax (text : String) :
    (read text = .error .missing ↔ ∀ c ∈ text.toList, isBlank c = true) ∧
    ((∃ c ∈ text.toList, isBlank c = false) → ∃! word, IsFirstWord word text.toList) ∧
    (∀ word, IsFirstWord word text.toList →
      (∀ n, read text = .ok n ↔ IsCount word n) ∧
      (∀ quoted, read text = .error (.negative quoted) ↔
        quoted = String.ofList word ∧ IsBelowZero word) ∧
      (∀ quoted, read text = .error (.malformed quoted) ↔
        quoted = String.ofList word ∧ (∀ n, ¬IsCount word n) ∧ ¬IsBelowZero word) ∧
      read (String.ofList word) = read text ∧
      ∀ other : String, IsFirstWord word other.toList → read other = read text) ∧
    ∀ digits, numeralUpTo? maxDiskCount digits = (checkedDigits? digits).map UInt32.toNat := by
  refine ⟨read_eq_missing_iff text, ?_, ?_, numeralUpTo?_eq_checkedDigits?⟩
  · rintro ⟨c, hc, hvisible⟩
    apply existsUnique_isFirstWord
    intro hnil
    have hblank := (firstWord_eq_nil_iff text.toList).mp hnil c hc
    rw [hvisible] at hblank
    cases hblank
  · intro word hword
    have hne : word ≠ [] := by
      obtain ⟨-, -, -, -, hne, -⟩ := hword
      exact hne
    have hread := read_eq_ofWord hword
    refine ⟨?_, ?_, ?_, ?_, ?_⟩
    · intro n
      rw [hread, ofWord_eq_ok_iff hne]
    · intro quoted
      rw [hread, (ofWord_eq_quoting_iff hne quoted).1, ofWord_eq_negative_iff hne]
    · intro quoted
      rw [hread, (ofWord_eq_quoting_iff hne quoted).2, ofWord_eq_malformed_iff hne]
    · have hself : IsFirstWord word (String.ofList word).toList := by
        rw [String.toList_ofList]
        exact hword.self
      rw [read_eq_ofWord hself, hread]
    · intro other hother
      rw [read_eq_ofWord hother, hread]

/-- A number below zero between blanks, with more text after it. -/
theorem read_decides_syntax_below :
    IsFirstWord ['-', '0', '7'] " -07 5".toList ∧
      read " -07 5" = .error (.negative "-07") := by
  have hblank : isBlank ' ' = true := by decide
  have hword : IsFirstWord ['-', '0', '7'] " -07 5".toList := by
    refine ⟨[' '], [' ', '5'], rfl, ?_, List.cons_ne_nil _ _, ?_, ?_⟩
    · simp [hblank]
    · have hshown : isBlank '-' = false ∧ isBlank '0' = false ∧ isBlank '7' = false := by decide
      simp [hshown]
    · simp [hblank]
  have hbelow : IsBelowZero ['-', '0', '7'] := by
    refine ⟨['0', '7'], rfl, ⟨List.cons_ne_nil _ _, ?_⟩, '7', ?_, ?_⟩
    · simp
    · simp
    · decide
  obtain ⟨-, -, hread, -⟩ := read_decides_syntax " -07 5"
  exact ⟨hword, ((hread _ hword).2.1 "-07").mpr ⟨rfl, hbelow⟩⟩

end DiskCount

end TowerOfHanoi
