import TowerOfHanoi.Proofs.DiskCountSyntax
import TowerOfHanoi.Proofs.Outcome

/-!
# From a written count to a written count

A run without arguments reads a number and writes a number. `Text.IsDecimal` says what it means for
digits to be those of a number, without regard to how either is done: the places add up to the
number, and no zero stands in front. Written so, a number has exactly one form (`isDecimal_iff`).
A count may be read from other forms as well, with a sign, zeros and blanks before it, and with any
text after a blank.

What is written can be read again, and is itself a count as long as it is not too large: the count for
32 disks is the largest that can be read, and the next one is already malformed.
-/

namespace TowerOfHanoi

namespace Text

/-! ## The digits of a number -/

/-- The decimal digits of `n`. The first of them is no zero, unless there is no other. -/
structure IsDecimal (n : Nat) (digits : List Char) : Prop where
  isDigits : IsDigits digits
  placeValue_eq : placeValue digits = n
  eq_of_head? : digits.head? = some '0' → digits = ['0']

/-- What is written for a positive number does not begin with a zero. -/
theorem head?_toDigits_ne {n : Nat} (h : 0 < n) : (Nat.toDigits 10 n).head? ≠ some '0' := by
  induction n using Nat.strongRecOn with
  | ind n ih =>
    by_cases hsmall : n < 10
    · rw [Nat.toDigits_of_lt_base hsmall, List.head?_cons]
      intro hzero
      have hn : n = 0 := Nat.digitChar_eq_zero.mp (Option.some.inj hzero)
      omega
    · -- the first digit is that of a tenth of the number
      have hfirst := ih (n / 10) (by omega) (by omega)
      obtain ⟨c, cs, hcs⟩ :=
        List.exists_cons_of_ne_nil (Nat.toDigits_ne_nil (n := n / 10) (b := 10))
      rw [Nat.toDigits_of_base_le (by decide) (Nat.le_of_not_lt hsmall), hcs]
      rw [hcs] at hfirst
      exact hfirst

theorem isDecimal_toDigits (n : Nat) : IsDecimal n (Nat.toDigits 10 n) where
  isDigits := (isNumeral_iff _).mp (isNumeral_toDigits n)
  placeValue_eq := by rw [placeValue_eq_ofDigitChars, Nat.ofDigitChars_ten_toDigits]
  eq_of_head? := by
    intro hzero
    rcases Nat.eq_zero_or_pos n with rfl | hpos
    · rfl
    · exact absurd hzero (head?_toDigits_ne hpos)

theorem toNat_of_digit {c : Char} (h : '0' ≤ c ∧ c ≤ '9') : 48 ≤ c.toNat ∧ c.toNat ≤ 57 :=
  ⟨UInt32.le_iff_toNat_le.mp h.1, UInt32.le_iff_toNat_le.mp h.2⟩

/-- A single digit is written as it stands. -/
theorem toDigits_digit {c : Char} (h : '0' ≤ c ∧ c ≤ '9') :
    c.toNat - '0'.toNat < 10 ∧ Nat.toDigits 10 (c.toNat - '0'.toNat) = [c] := by
  have hcode := toNat_of_digit h
  have hlt : c.toNat - '0'.toNat < 10 := by
    show c.toNat - 48 < 10
    omega
  refine ⟨hlt, ?_⟩
  rw [Nat.toDigits_of_lt_base hlt, List.singleton_inj]
  apply Char.toNat_inj.mp
  rw [Nat.toNat_digitChar_of_lt_ten hlt]
  show 48 + (c.toNat - 48) = c.toNat
  omega

/-- Each further digit continues what is written. -/
theorem toDigits_append {cs : List Char} (h : ∀ c ∈ cs, '0' ≤ c ∧ c ≤ '9') {n : Nat} (hn : 0 < n) :
    Nat.toDigits 10 n ++ cs = Nat.toDigits 10 (Nat.ofDigitChars 10 cs n) := by
  induction cs generalizing n with
  | nil => exact List.append_nil _
  | cons c cs ih =>
    obtain ⟨hc, hcs⟩ := List.forall_mem_cons.mp h
    obtain ⟨hlt, hdigit⟩ := toDigits_digit hc
    calc Nat.toDigits 10 n ++ c :: cs
        = Nat.toDigits 10 n ++ Nat.toDigits 10 (c.toNat - '0'.toNat) ++ cs := by
          rw [hdigit, List.append_assoc, List.singleton_append]
      _ = Nat.toDigits 10 (10 * n + (c.toNat - '0'.toNat)) ++ cs := by
          rw [Nat.toDigits_append_toDigits (by decide) hn hlt]
      _ = Nat.toDigits 10 (Nat.ofDigitChars 10 (c :: cs) n) := by
          rw [ih hcs (by omega), Nat.ofDigitChars_cons]

/-- **A number has one decimal form,** and that is how it is written. -/
theorem isDecimal_iff (n : Nat) (digits : List Char) :
    IsDecimal n digits ↔ digits = Nat.toDigits 10 n := by
  constructor
  · rintro ⟨⟨hne, hdigits⟩, rfl, hzero⟩
    rw [placeValue_eq_ofDigitChars]
    cases digits with
    | nil => exact absurd rfl hne
    | cons c cs =>
      by_cases hc : c = '0'
      · rw [hzero (congrArg some hc)]
        rfl
      · obtain ⟨hfirst, hrest⟩ := List.forall_mem_cons.mp hdigits
        obtain ⟨-, hdigit⟩ := toDigits_digit hfirst
        have hpos : 0 < c.toNat - '0'.toNat := by
          have hcode := toNat_of_digit hfirst
          have hne : c.toNat ≠ 48 := fun heq => hc (Char.toNat_inj.mp heq)
          show 0 < c.toNat - 48
          omega
        have happend := toDigits_append hrest hpos
        rw [hdigit, List.singleton_append] at happend
        rwa [Nat.ofDigitChars_cons, Nat.mul_zero, Nat.zero_add]
  · rintro rfl
    exact isDecimal_toDigits n

/-! ## Zeros, signs and blanks -/

theorem placeValue_zeros_append (zeros : Nat) (digits : List Char) :
    placeValue (List.replicate zeros '0' ++ digits) = placeValue digits := by
  induction zeros with
  | zero => rfl
  | succ zeros ih =>
    rw [List.replicate_succ, List.cons_append, placeValue, ih, Nat.sub_self, Nat.zero_mul,
      Nat.zero_add]

theorem IsDigits.zeros_append {digits : List Char} (h : IsDigits digits) (zeros : Nat) :
    IsDigits (List.replicate zeros '0' ++ digits) := by
  refine ⟨List.append_ne_nil_of_right_ne_nil _ h.1, ?_⟩
  intro c hc
  rcases List.mem_append.mp hc with hzero | hdigit
  · rw [List.eq_of_mem_replicate hzero]
    decide
  · exact h.2 c hdigit

theorem isBlank_eq_false_of_digit {c : Char} (h : '0' ≤ c ∧ c ≤ '9') : isBlank c = false := by
  have hcode := toNat_of_digit h
  -- the digits lie in a gap of the table
  have hgap : ∀ range ∈ blankRanges, range.2 < 48 ∨ 57 < range.1 := by simp [blankRanges]
  rw [isBlank, List.any_eq_false]
  intro range hrange hcovers
  rw [Bool.and_eq_true, decide_eq_true_eq, decide_eq_true_eq] at hcovers
  have hapart := hgap range hrange
  omega

end Text

namespace DiskCount

open Text

/-! ## Reading digits -/

/-- Plain digits are read for their value, unless it is too large. -/
theorem ofWord_of_isDigits {digits : List Char} (h : IsDigits digits) :
    ofWord digits =
      if placeValue digits ≤ maxDiskCount then .ok (placeValue digits)
      else .error (.malformed (String.ofList digits)) := by
  have heq : ofWord digits = ofDigits digits digits := by
    rcases ofWord_eq h.1 with ⟨cs, rfl, -⟩ | ⟨cs, rfl, -⟩ | ⟨-, -, heq⟩
    · exact absurd h (not_isDigits_cons rfl cs)
    · exact absurd h (not_isDigits_cons rfl cs)
    · exact heq
  rw [heq]
  split
  next hle => exact (ofDigits_eq_ok_iff digits digits _).mpr ⟨h, rfl, hle⟩
  next hgt =>
    rcases ofDigits_cases digits digits with ⟨n, hn⟩ | hmalformed
    · obtain ⟨-, rfl, hle⟩ := (ofDigits_eq_ok_iff digits digits n).mp hn
      exact absurd hle hgt
    · exact hmalformed

/-- Zeros and a plus sign before the digits of a count make no difference. -/
theorem isCount_padded {disks : Nat} {sign digits : List Char} (hsign : sign = [] ∨ sign = ['+'])
    (hdigits : IsDecimal disks digits) (hle : disks ≤ 4294967295) (zeros : Nat) :
    IsCount (sign ++ (List.replicate zeros '0' ++ digits)) disks := by
  refine Or.inl ⟨List.replicate zeros '0' ++ digits, ?_, hdigits.isDigits.zeros_append zeros, ?_, hle⟩
  · rcases hsign with rfl | rfl
    · exact Or.inl rfl
    · exact Or.inr rfl
  · rw [placeValue_zeros_append, hdigits.placeValue_eq]

/-- Nor do blanks before it, and any text after a blank. -/
theorem read_padded {disks : Nat} {blanks sign digits after : List Char}
    (hblanks : ∀ c ∈ blanks, isBlank c = true) (hsign : sign = [] ∨ sign = ['+'])
    (hdigits : IsDecimal disks digits) (hle : disks ≤ 4294967295) (zeros : Nat)
    (hafter : ∀ c ∈ after.head?, isBlank c = true) :
    read (String.ofList (blanks ++ (sign ++ (List.replicate zeros '0' ++ digits)) ++ after)) =
      .ok disks := by
  have hpadded := hdigits.isDigits.zeros_append zeros
  have hne : sign ++ (List.replicate zeros '0' ++ digits) ≠ [] :=
    List.append_ne_nil_of_right_ne_nil _ hpadded.1
  have hword : ∀ c ∈ sign ++ (List.replicate zeros '0' ++ digits), isBlank c = false := by
    intro c hc
    rcases List.mem_append.mp hc with hmem | hmem
    · rcases hsign with rfl | rfl
      · cases hmem
      · rw [List.mem_singleton.mp hmem]
        decide
    · exact isBlank_eq_false_of_digit (hpadded.2 c hmem)
  rw [read_eq_ofWord ⟨blanks, after, String.toList_ofList, hblanks, hne, hword, hafter⟩,
    ofWord_eq_ok_iff hne]
  exact isCount_padded hsign hdigits hle zeros

/-- Digits, read with or without what follows them. -/
theorem read_digits {digits : List Char} (h : IsDigits digits) (after : List Char)
    (hafter : ∀ c ∈ after.head?, isBlank c = true) :
    read (String.ofList (digits ++ after)) =
      if placeValue digits ≤ maxDiskCount then .ok (placeValue digits)
      else .error (.malformed (String.ofList digits)) := by
  have hword : ∀ c ∈ digits, isBlank c = false :=
    fun c hc => isBlank_eq_false_of_digit (h.2 c hc)
  have hfirst : IsFirstWord digits (String.ofList (digits ++ after)).toList := by
    rw [String.toList_ofList]
    exact ⟨[], after, rfl, List.forall_mem_nil _, h.1, hword, hafter⟩
  rw [read_eq_ofWord hfirst, ofWord_of_isDigits h]

/-- The largest count that can be read is the one for 32 disks. -/
theorem two_pow_sub_one_le_maxDiskCount_iff (disks : Nat) :
    2 ^ disks - 1 ≤ maxDiskCount ↔ disks ≤ 32 := by
  have hpos : 0 < 2 ^ disks := Nat.two_pow_pos disks
  unfold maxDiskCount
  constructor
  · intro hle
    by_contra hgt
    have hpow : 2 ^ 33 ≤ 2 ^ disks := Nat.pow_le_pow_right (by decide) (by omega)
    omega
  · intro hle
    have hpow : 2 ^ disks ≤ 2 ^ 32 := Nat.pow_le_pow_right (by decide) hle
    omega

end DiskCount

namespace Command

open Text DiskCount

/-- A run without arguments prints the count of the disks it reads, on one line. -/
theorem run_plain {invocation : Invocation} (harguments : invocation.arguments = [])
    (hdevice : invocation.device = .working) {text : String} {disks : Nat}
    (htext : text.toUTF8 = invocation.input) (hread : DiskCount.read text = .ok disks) :
    (run invocation).code = 0 ∧
      (run invocation).stdout =
        String.ofList (Nat.toDigits 10 (2 ^ disks - 1) ++ ['\n']) := by
  have hsettings : readArguments invocation.arguments = .ok {} := by
    rw [harguments]
    rfl
  have hwalks : ¬Settings.Walks {} := by
    rintro (hlist | hstrategy)
    · cases hlist
    · cases hstrategy
  obtain ⟨hcode, hstdout⟩ :=
    run_of_feasible hdevice hsettings rfl htext hread (Or.inr hwalks)
  refine ⟨hcode, ?_⟩
  rw [hstdout, preamble_of_not_listMoves rfl, String.empty_append, moveCount_eq,
    Nat.toString_eq_ofList_toDigits, String.ofList_append]

/-- **From digits to digits.** Take the decimal digits of any count up to the largest, put zeros, a plus
sign and blanks before them, and after them nothing, or a blank and any text. A run without
arguments on this input ends well, and prints the decimal digits of `2 ^ disks - 1` on a line of their
own. Up to 32 disks that line is read back as this number, with or without its newline; beyond, it
is malformed. -/
theorem run_round_trip {disks : Nat} (hdisks : disks ≤ 4294967295)
    {blanks sign digits after : List Char} (zeros : Nat)
    (hblanks : ∀ c ∈ blanks, isBlank c = true) (hsign : sign = [] ∨ sign = ['+'])
    (hdigits : IsDecimal disks digits) (hafter : ∀ c ∈ after.head?, isBlank c = true)
    (invocation : Invocation) (harguments : invocation.arguments = [])
    (hdevice : invocation.device = .working)
    (hinput : invocation.input = (String.ofList
      (blanks ++ (sign ++ (List.replicate zeros '0' ++ digits)) ++ after)).toUTF8) :
    (run invocation).code = 0 ∧
    ∃ printed, IsDecimal (2 ^ disks - 1) printed ∧ (disks = 0 → printed = ['0']) ∧
      (run invocation).stdout = String.ofList (printed ++ ['\n']) ∧
      ∀ line, line = (run invocation).stdout ∨ line = String.ofList printed →
        (disks ≤ 32 → DiskCount.read line = .ok (2 ^ disks - 1)) ∧
        (32 < disks → DiskCount.read line = .error (.malformed (String.ofList printed))) := by
  obtain ⟨hcode, hstdout⟩ := run_plain harguments hdevice hinput.symm
    (read_padded hblanks hsign hdigits hdisks zeros hafter)
  have hprinted := isDecimal_toDigits (2 ^ disks - 1)
  refine ⟨hcode, _, hprinted, ?_, hstdout, ?_⟩
  · rintro rfl
    rfl
  · intro line hline
    have hread : DiskCount.read line =
        if 2 ^ disks - 1 ≤ maxDiskCount then .ok (2 ^ disks - 1)
        else .error (.malformed (String.ofList (Nat.toDigits 10 (2 ^ disks - 1)))) := by
      have hnewline : ∀ c ∈ ['\n'].head?, isBlank c = true := by
        rintro c ⟨⟩
        decide
      rcases hline with rfl | rfl
      · rw [hstdout, read_digits hprinted.isDigits _ hnewline, hprinted.placeValue_eq]
      · have halone := read_digits hprinted.isDigits [] (by simp)
        rwa [List.append_nil, hprinted.placeValue_eq] at halone
    rw [hread]
    constructor
    · intro hle
      rw [if_pos ((two_pow_sub_one_le_maxDiskCount_iff disks).mpr hle)]
    · intro hgt
      rw [if_neg fun hle => Nat.not_le_of_lt hgt ((two_pow_sub_one_le_maxDiskCount_iff disks).mp hle)]

/-- The first count that is too large to be read back. -/
theorem run_round_trip_thirtyThree :
    (run { arguments := [], input := "\t +0033 disks".toUTF8 }).code = 0 ∧
      (run { arguments := [], input := "\t +0033 disks".toUTF8 }).stdout = "8589934591\n" ∧
      DiskCount.read (run { arguments := [], input := "\t +0033 disks".toUTF8 }).stdout =
        .error (.malformed "8589934591") := by
  have hblank : isBlank '\t' = true ∧ isBlank ' ' = true := by decide
  have hblanks : ∀ c ∈ ['\t', ' '], isBlank c = true := by simp [hblank]
  have hcount : IsDecimal 33 ['3', '3'] := (isDecimal_iff _ _).mpr rfl
  have hafter : ∀ c ∈ " disks".toList.head?, isBlank c = true := by simp [hblank]
  obtain ⟨hcode, printed, hprinted, -, hstdout, hread⟩ :=
    run_round_trip (by decide) 2 hblanks (Or.inr rfl) hcount hafter
      { arguments := [], input := "\t +0033 disks".toUTF8 } rfl rfl rfl
  have hdigits : String.ofList printed = "8589934591" := by
    rw [(isDecimal_iff _ _).mp hprinted]
    rfl
  refine ⟨hcode, ?_, ?_⟩
  · rw [hstdout, String.ofList_append, hdigits]
    rfl
  · rw [(hread _ (Or.inl rfl)).2 (by decide), hdigits]

end Command

end TowerOfHanoi
