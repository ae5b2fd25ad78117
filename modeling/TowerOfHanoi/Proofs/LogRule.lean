import Mathlib.Data.List.Induction
import Mathlib.Data.List.TakeWhile
import TowerOfHanoi.Log.Spec
import TowerOfHanoi.Proofs.ArgumentSyntax

/-!
# The rule of a filter

What is let through by the threshold on the command line together with the filter that is written in
the environment, said without reference to how the filter is put together.

What the text means is said by `Spec.Reads`: which of its pieces are directives, and what they are,
and what becomes of the pattern. The threshold comes before all of these, as a directive without a
scope. Of the directives with the same scope the last counts, and of those that count and speak about
a target the one with the longest name decides; where there is none with a name, the one without a
scope does (`Rules`). That the filter of a run follows this rule is `Filter.exists_reads` together with
`Filter.admits_iff`.

Adding directives one by one keeps exactly the last of each scope (`mem_foldl_add_iff`), and the
directive without a scope at the front (`foldl_add_base`). The choice among them goes by weight, which
for names of the same target is the order of prefixes.
-/

namespace TowerOfHanoi

/-! ## Cutting at slashes and commas -/

namespace Text

variable {sep : Char} {cs before after : List Char}

theorem notMem_of_cutAt {rest : Option (List Char)} (h : cutAt sep cs = (before, rest)) :
    sep ∉ before := by
  induction cs generalizing before with
  | nil =>
    cases h
    exact List.not_mem_nil
  | cons c cs ih =>
    by_cases hc : c = sep
    · simp only [cutAt, if_pos hc, Prod.mk.injEq] at h
      rw [← h.1]
      exact List.not_mem_nil
    · simp only [cutAt, if_neg hc, Prod.mk.injEq] at h
      obtain ⟨rfl, hrest⟩ := h
      exact List.not_mem_cons_of_ne_of_not_mem (Ne.symm hc) (ih (Prod.ext rfl hrest))

/-- A text either has no separator or is cut at the first one. -/
theorem notMem_or_eq_append (sep : Char) (cs : List Char) :
    sep ∉ cs ∨ ∃ before after, cs = before ++ sep :: after ∧ sep ∉ before := by
  by_cases h : sep ∈ cs
  · obtain ⟨before, after, hcs, hbefore⟩ := List.eq_append_cons_of_mem h
    exact Or.inr ⟨before, after, hcs, hbefore⟩
  · exact Or.inl h

theorem takeWhile_append (h : sep ∉ before) :
    (before ++ sep :: after).takeWhile (fun c => c ≠ sep) = before := by
  rw [List.takeWhile_append_of_pos fun c hc => by simpa using ne_of_mem_of_not_mem hc h]
  simp

theorem takeWhile_of_notMem (h : sep ∉ cs) : cs.takeWhile (fun c => c ≠ sep) = cs :=
  List.takeWhile_eq_self_iff.mpr fun c hc => by simpa using ne_of_mem_of_not_mem hc h

end Text

namespace Log

/-! ## What a text means -/

namespace Spec

/-- What a piece between commas says, if it says anything: the name of a level, the name of a target,
or both with an equals sign between them. The level may be left out after the sign; and wherever there
is none, everything is let through. -/
inductive Means : List Char → Directive → Prop
  | level {word : List Char} {level : Threshold} (h : word.map Char.toUpper = level.name.toList) :
    Means word ⟨none, level⟩
  | target {word : List Char} (hword : word ≠ []) (hsign : '=' ∉ word)
    (hlevel : ∀ level : Threshold, word.map Char.toUpper ≠ level.name.toList) :
    Means word ⟨some (String.ofList word), .upTo .trace⟩
  | both {target given : List Char} {level : Threshold} (htarget : '=' ∉ target)
    (hgiven : '=' ∉ given) (h : (Text.trim given).map Char.toUpper = level.name.toList) :
    Means (target ++ '=' :: given) ⟨some (String.ofList target), level⟩
  | noLevel {target given : List Char} (htarget : '=' ∉ target) (hgiven : '=' ∉ given)
    (h : Text.trim given = []) :
    Means (target ++ '=' :: given) ⟨some (String.ofList target), .upTo .trace⟩

/-- What pieces between commas say, in order. Blanks around a piece do not count, and a piece that
says nothing is passed over. -/
inductive Lists : List (List Char) → List Directive → Prop
  | nil : Lists [] []
  | heeded {piece : List Char} {d : Directive} {pieces : List (List Char)} {ds : List Directive}
    (h : Means (Text.trim piece) d) (hrest : Lists pieces ds) : Lists (piece :: pieces) (d :: ds)
  | passedOver {piece : List Char} {pieces : List (List Char)} {ds : List Directive}
    (h : ∀ d, ¬Means (Text.trim piece) d) (hrest : Lists pieces ds) : Lists (piece :: pieces) ds

/-- What a written filter says: its directives, and the texts that its pattern matches. With two
slashes or more it says nothing. A pattern that is none is dropped. -/
inductive Reads (patterns : PatternLanguage) :
    Option String → List Directive → Option (String → Bool) → Prop
  | absent : Reads patterns none [] none
  | ignored {text : String} (h : 2 ≤ text.toList.count '/') : Reads patterns (some text) [] none
  | noPattern {text : String} {ds : List Directive} (htext : '/' ∉ text.toList)
    (hlist : Lists (Text.pieces ',' text.toList) ds) : Reads patterns (some text) ds none
  | pattern {text : String} {list rest : List Char} {ds : List Directive} {isMatch : String → Bool}
    (htext : text.toList = list ++ '/' :: rest) (hslash : '/' ∉ list) (hrest : '/' ∉ rest)
    (hlist : Lists (Text.pieces ',' list) ds)
    (hpattern : patterns.compile (String.ofList rest) = .ok isMatch) :
    Reads patterns (some text) ds (some isMatch)
  | badPattern {text reason : String} {list rest : List Char} {ds : List Directive}
    (htext : text.toList = list ++ '/' :: rest) (hslash : '/' ∉ list) (hrest : '/' ∉ rest)
    (hlist : Lists (Text.pieces ',' list) ds)
    (hpattern : patterns.compile (String.ofList rest) = .error reason) :
    Reads patterns (some text) ds none

end Spec

theorem Threshold.ofName?_ofList_eq_some_iff {word : List Char} {level : Threshold} :
    ofName? (String.ofList word) = some level ↔ word.map Char.toUpper = level.name.toList := by
  rw [ofName?_eq_some_iff, String.toList_ofList]

theorem Threshold.name_ne_nil (level : Threshold) : level.name.toList ≠ [] := by
  cases level with
  | off => decide
  | upTo severity => cases severity <;> decide

theorem Threshold.notMem_name (level : Threshold) : '=' ∉ level.name.toList := by
  cases level with
  | off => decide
  | upTo severity => cases severity <;> decide

namespace Spec

variable {word target given : List Char} {d : Directive}

theorem directive_of_no_sign (h : '=' ∉ word) :
    directive word = .ok ((Threshold.ofName? (String.ofList word)).elim
      ⟨some (String.ofList word), everything⟩ fun level => ⟨none, level⟩) := by
  simp only [directive, Text.pieces_of_notMem h]
  cases Threshold.ofName? (String.ofList word) with
  | none => rfl
  | some level => rfl

theorem directive_of_sign (htarget : '=' ∉ target) (hgiven : '=' ∉ given) :
    directive (target ++ '=' :: given) =
      if Text.trim given = [] then .ok ⟨some (String.ofList target), everything⟩
      else (Threshold.ofName? (String.ofList (Text.trim given))).elim
        (.error (.unintelligible (String.ofList (Text.trim given))))
        fun level => .ok ⟨some (String.ofList target), level⟩ := by
  simp only [directive, Text.pieces_append htarget, Text.pieces_of_notMem hgiven]
  by_cases hblank : Text.trim given = []
  · simp [hblank]
  · simp only [String.isEmpty_iff, String.ofList_eq_empty_iff, if_neg hblank]
    cases Threshold.ofName? (String.ofList (Text.trim given)) with
    | none => rfl
    | some level => rfl

/-- A second equals sign is too much. -/
theorem directive_of_signs {rest : List Char} (htarget : '=' ∉ target) (hgiven : '=' ∉ given) :
    ∃ w, directive (target ++ '=' :: (given ++ '=' :: rest)) = .error w := by
  rw [directive, Text.pieces_append htarget, Text.pieces_append hgiven]
  rcases Text.notMem_or_eq_append '=' rest with hrest | ⟨before, after, rfl, hbefore⟩
  · rw [Text.pieces_of_notMem hrest]
    exact ⟨_, rfl⟩
  · rw [Text.pieces_append hbefore]
    exact ⟨_, rfl⟩

theorem means_of_directive (hword : word ≠ []) (h : directive word = .ok d) : Means word d := by
  rcases Text.notMem_or_eq_append '=' word with hsign | ⟨target, given, rfl, htarget⟩
  · rw [directive_of_no_sign hsign] at h
    cases hname : Threshold.ofName? (String.ofList word) with
    | some level =>
      rw [hname] at h
      cases h
      exact .level (Threshold.ofName?_ofList_eq_some_iff.mp hname)
    | none =>
      rw [hname] at h
      cases h
      refine .target hword hsign fun level hlevel => ?_
      rw [Threshold.ofName?_ofList_eq_some_iff.mpr hlevel] at hname
      cases hname
  · rcases Text.notMem_or_eq_append '=' given with hgiven | ⟨given, rest, rfl, hgiven⟩
    · rw [directive_of_sign htarget hgiven] at h
      split at h
      next hblank =>
        cases h
        exact .noLevel htarget hgiven hblank
      next =>
        cases hname : Threshold.ofName? (String.ofList (Text.trim given)) with
        | none =>
          rw [hname] at h
          cases h
        | some level =>
          rw [hname] at h
          cases h
          exact .both htarget hgiven (Threshold.ofName?_ofList_eq_some_iff.mp hname)
    · obtain ⟨w, hw⟩ := @directive_of_signs target given rest htarget hgiven
      rw [hw] at h
      cases h

theorem directive_of_means (h : Means word d) : directive word = .ok d := by
  cases h with
  | @level _ level h =>
    have hsign : '=' ∉ word := by
      intro hmem
      exact level.notMem_name (h ▸ List.mem_map_of_mem (f := Char.toUpper) hmem)
    rw [directive_of_no_sign hsign, Threshold.ofName?_ofList_eq_some_iff.mpr h, Option.elim_some]
  | target hword hsign hlevel =>
    have hname : Threshold.ofName? (String.ofList word) = none := by
      rw [Option.eq_none_iff_forall_ne_some]
      exact fun level hsome => hlevel level (Threshold.ofName?_ofList_eq_some_iff.mp hsome)
    rw [directive_of_no_sign hsign, hname]
    rfl
  | @both target given level htarget hgiven h =>
    have hblank : Text.trim given ≠ [] := by
      intro hblank
      rw [hblank] at h
      exact level.name_ne_nil h.symm
    rw [directive_of_sign htarget hgiven, if_neg hblank,
      Threshold.ofName?_ofList_eq_some_iff.mpr h, Option.elim_some]
  | noLevel htarget hgiven hblank =>
    rw [directive_of_sign htarget hgiven, if_pos hblank]
    rfl

theorem not_means_nil : ¬Means [] d := by
  intro h
  generalize hword : ([] : List Char) = word at h
  cases h with
  | @level _ level h =>
    rw [← hword] at h
    exact level.name_ne_nil h.symm
  | target hne => exact hne hword.symm
  | both | noLevel => simp at hword

/-- A piece says at most one thing. -/
theorem Means.unique {d' : Directive} (h : Means word d) (h' : Means word d') : d = d' :=
  Except.ok.inj ((directive_of_means h).symm.trans (directive_of_means h'))

/-- The directives of a list that make sense. -/
def understood (list : List Char) : List Directive :=
  (directives list).filterMap fun
    | .ok d => some d
    | .error _ => none

theorem lists_understood (list : List Char) : Lists (Text.pieces ',' list) (understood list) := by
  unfold understood directives
  induction Text.pieces ',' list with
  | nil => exact .nil
  | cons piece pieces ih =>
    by_cases hpiece : Text.trim piece = []
    · refine .passedOver (fun d => ?_) (by simpa [hpiece] using ih)
      rw [hpiece]
      exact not_means_nil
    · cases hdirective : directive (Text.trim piece) with
      | ok d =>
        have hmeans := means_of_directive hpiece hdirective
        simpa [hpiece, hdirective] using Lists.heeded hmeans ih
      | error w =>
        refine .passedOver (fun d hmeans => ?_) (by simpa [hpiece, hdirective] using ih)
        rw [directive_of_means hmeans] at hdirective
        cases hdirective

/-- What a piece says is among what the list says. -/
theorem Lists.mem {pieces : List (List Char)} {ds : List Directive} (h : Lists pieces ds)
    {piece : List Char} (hpiece : piece ∈ pieces) (hmeans : Means (Text.trim piece) d) : d ∈ ds := by
  induction h with
  | nil => cases hpiece
  | heeded hfirst _ ih =>
    rcases List.mem_cons.mp hpiece with rfl | hpiece
    · rw [hmeans.unique hfirst]
      exact List.mem_cons_self
    · exact List.mem_cons_of_mem _ (ih hpiece)
  | passedOver hfirst _ ih =>
    rcases List.mem_cons.mp hpiece with rfl | hpiece
    · exact absurd hmeans (hfirst d)
    · exact ih hpiece

end Spec

/-! ## The last of each scope -/

namespace Filter

variable {t u : Threshold} {rest ds : List Directive} {d x : Directive}

/-- The directive is in the list, and none after it has its scope. -/
def IsLast (ds : List Directive) (d : Directive) : Prop :=
  ∃ before after, ds = before ++ d :: after ∧ ∀ e ∈ after, e.scope ≠ d.scope

theorem IsLast.mem (h : IsLast ds d) : d ∈ ds := by
  obtain ⟨before, after, rfl, -⟩ := h
  simp

theorem isLast_concat_iff : IsLast (ds ++ [x]) d ↔ d = x ∨ IsLast ds d ∧ d.scope ≠ x.scope := by
  constructor
  · rintro ⟨before, after, heq, hafter⟩
    rcases after.eq_nil_or_concat with rfl | ⟨after, y, rfl⟩
    · obtain ⟨-, hx⟩ := List.append_inj' heq rfl
      cases hx
      exact Or.inl rfl
    · rw [List.concat_eq_append] at heq hafter
      rw [← List.cons_append, ← List.append_assoc] at heq
      obtain ⟨rfl, hx⟩ := List.append_inj' heq rfl
      cases hx
      exact Or.inr ⟨⟨before, after, rfl, fun e he => hafter e (by simp [he])⟩,
        Ne.symm (hafter x (by simp))⟩
  · rintro (rfl | ⟨⟨before, after, rfl, hafter⟩, hx⟩)
    · exact ⟨ds, [], rfl, by simp⟩
    · refine ⟨before, after ++ [x], by simp, ?_⟩
      simp only [List.mem_append, List.mem_singleton]
      rintro e (he | rfl)
      · exact hafter e he
      · exact Ne.symm hx

/-- Of each scope in the list there is a last one. -/
theorem exists_isLast {e : Directive} (h : e ∈ ds) : ∃ d, IsLast ds d ∧ d.scope = e.scope := by
  induction ds using List.reverseRecOn with
  | nil => cases h
  | append_singleton ds x ih =>
    by_cases hx : x.scope = e.scope
    · exact ⟨x, isLast_concat_iff.mpr (Or.inl rfl), hx⟩
    · have he : e ∈ ds := by
        rcases List.mem_append.mp h with he | he
        · exact he
        · exact absurd (congrArg Directive.scope (List.mem_singleton.mp he).symm) hx
      obtain ⟨d, hd, hscope⟩ := ih he
      exact ⟨d, isLast_concat_iff.mpr (Or.inr ⟨hd, hscope ▸ Ne.symm hx⟩), hscope⟩

/-- And only one. -/
theorem IsLast.unique {d' : Directive} (h : IsLast ds d) (h' : IsLast ds d')
    (hscope : d.scope = d'.scope) : d = d' := by
  induction ds using List.reverseRecOn with
  | nil => exact absurd h.mem List.not_mem_nil
  | append_singleton ds x ih =>
    rcases isLast_concat_iff.mp h with rfl | ⟨hd, hx⟩ <;>
      rcases isLast_concat_iff.mp h' with rfl | ⟨hd', hx'⟩
    · rfl
    · exact absurd hscope.symm hx'
    · exact absurd hscope hx
    · exact ih hd hd'

/-- Adding a directive puts it in the place of those with its scope. -/
theorem mem_add_iff : d ∈ add ds x ↔ d = x ∨ d ∈ ds ∧ d.scope ≠ x.scope := by
  unfold add
  split
  next hany =>
    obtain ⟨old, hold, hscope⟩ := List.any_eq_true.mp hany
    rw [List.mem_map]
    constructor
    · rintro ⟨e, he, rfl⟩
      split
      next => exact Or.inl rfl
      next hne => exact Or.inr ⟨he, hne⟩
    · rintro (rfl | ⟨hd, hne⟩)
      · exact ⟨old, hold, if_pos (by simpa using hscope)⟩
      · exact ⟨d, hd, if_neg hne⟩
  next hany =>
    have hnew : ∀ e ∈ ds, e.scope ≠ x.scope := by simpa using hany
    rw [List.mem_append, List.mem_singleton, or_comm]
    exact or_congr_right ⟨fun hd => ⟨hd, hnew d hd⟩, And.left⟩

/-- **What is kept.** Adding directives one by one keeps the last of each scope. -/
theorem mem_foldl_add_iff : d ∈ ds.foldl add [] ↔ IsLast ds d := by
  induction ds using List.reverseRecOn with
  | nil => exact ⟨fun h => absurd h List.not_mem_nil, fun h => absurd h.mem List.not_mem_nil⟩
  | append_singleton ds x ih =>
    rw [List.foldl_append, List.foldl_cons, List.foldl_nil, mem_add_iff, isLast_concat_iff, ih]

/-! ## The directive without a scope -/

/-- The threshold for all targets, after some directives: the last of those without a scope sets it. -/
def unscoped (t : Threshold) (ds : List Directive) : Threshold :=
  ds.foldl (fun t d => if d.scope = none then d.threshold else t) t

/-- The directives that have a scope. -/
def withScope (ds : List Directive) : List Directive := ds.filter (·.scope.isSome)

theorem unscoped_cons_of_none (hd : d.scope = none) :
    unscoped t (d :: ds) = unscoped d.threshold ds := by
  simp [unscoped, hd]

theorem unscoped_cons_of_ne_none (hd : d.scope ≠ none) : unscoped t (d :: ds) = unscoped t ds := by
  simp [unscoped, hd]

theorem withScope_cons_of_none (hd : d.scope = none) : withScope (d :: ds) = withScope ds := by
  simp [withScope, hd]

theorem withScope_cons_of_ne_none (hd : d.scope ≠ none) :
    withScope (d :: ds) = d :: withScope ds := by
  simp [withScope, Option.isSome_iff_ne_none.mpr hd]

/-- A directive without a scope takes the place of the first one. -/
theorem add_unscoped (hrest : ∀ e ∈ rest, e.scope ≠ none) (hd : d.scope = none) :
    add (⟨none, t⟩ :: rest) d = ⟨none, d.threshold⟩ :: rest := by
  have hkept : rest.map (fun old => if old.scope = none then d else old) = rest :=
    (List.map_congr_left fun old hold => if_neg (hrest old hold)).trans (List.map_id rest)
  obtain ⟨scope, threshold⟩ := d
  cases hd
  simp [add, hkept]

/-- A directive with a scope leaves the first one alone. -/
theorem add_scoped (hd : d.scope ≠ none) : add (⟨none, t⟩ :: rest) d = ⟨none, t⟩ :: add rest d := by
  by_cases hany : rest.any (·.scope = d.scope) = true
  · simp [add, hany, Ne.symm hd]
  · simp [add, hany, Ne.symm hd]

theorem scope_ne_none_of_mem_add (hrest : ∀ e ∈ rest, e.scope ≠ none) (hd : d.scope ≠ none) :
    ∀ e ∈ add rest d, e.scope ≠ none := by
  intro e he
  rcases mem_add_iff.mp he with rfl | ⟨he, -⟩
  · exact hd
  · exact hrest e he

/-- **The base of a filter.** The directive without a scope stays the first, and only its threshold
changes. What becomes of the others does not depend on it. -/
theorem foldl_add_base (t : Threshold) (hrest : ∀ e ∈ rest, e.scope ≠ none) (ds : List Directive) :
    ds.foldl add (⟨none, t⟩ :: rest) = ⟨none, unscoped t ds⟩ :: (withScope ds).foldl add rest := by
  induction ds generalizing t rest with
  | nil => rfl
  | cons d ds ih =>
    rw [List.foldl_cons]
    by_cases hd : d.scope = none
    · rw [add_unscoped hrest hd, ih _ hrest, unscoped_cons_of_none hd, withScope_cons_of_none hd]
    · -- what is added behind the first directive has a scope again
      have hadded : ∀ e ∈ add rest d, e.scope ≠ none := scope_ne_none_of_mem_add hrest hd
      rw [add_scoped hd, ih _ hadded, unscoped_cons_of_ne_none hd, withScope_cons_of_ne_none hd,
        List.foldl_cons]

theorem foldl_add_threshold (t : Threshold) (ds : List Directive) :
    ds.foldl add [⟨none, t⟩] = ⟨none, unscoped t ds⟩ :: (withScope ds).foldl add [] :=
  foldl_add_base t (by simp) ds

/-- A directive without a scope makes the threshold before it forgotten. -/
theorem unscoped_eq_of_mem (h : ∃ d ∈ ds, d.scope = none) (t u : Threshold) :
    unscoped t ds = unscoped u ds := by
  induction ds generalizing t u with
  | nil =>
    obtain ⟨d, hd, -⟩ := h
    cases hd
  | cons d ds ih =>
    by_cases hd : d.scope = none
    · rw [unscoped_cons_of_none hd, unscoped_cons_of_none hd]
    · rw [unscoped_cons_of_ne_none hd, unscoped_cons_of_ne_none hd]
      obtain ⟨e, he, hscope⟩ := h
      have hmem : e ∈ ds := (List.mem_cons.mp he).resolve_left fun heq => hd (heq ▸ hscope)
      exact ih ⟨e, hmem, hscope⟩ t u

theorem verbosity_unscoped_le (h : t.verbosity ≤ u.verbosity) (ds : List Directive) :
    (unscoped t ds).verbosity ≤ (unscoped u ds).verbosity := by
  induction ds generalizing t u with
  | nil => exact h
  | cons d ds ih =>
    by_cases hd : d.scope = none
    · rw [unscoped_cons_of_none hd, unscoped_cons_of_none hd]
    · rw [unscoped_cons_of_ne_none hd, unscoped_cons_of_ne_none hd]
      exact ih h

/-! ## The directive that decides -/

/-- A directive that weighs nothing is chosen only if no other covers the target. -/
theorem prefer_or {base : Directive} (hbase : base.weight = 0) (target : String)
    (best? : Option Directive) (d : Directive) :
    Directive.prefer target (best?.or (some base)) d =
      (Directive.prefer target best? d).or (some base) := by
  cases best? with
  | none => cases hd : d.covers target <;> simp [Directive.prefer, hbase, hd]
  | some best =>
    -- something else has been chosen before, so the base is out of the race either way
    obtain ⟨chosen, hchosen⟩ : ∃ chosen, Directive.prefer target (some best) d = some chosen := by
      unfold Directive.prefer
      split <;> exact ⟨_, rfl⟩
    rw [Option.some_or, hchosen, Option.some_or]

theorem foldl_prefer_or {base : Directive} (hbase : base.weight = 0) (target : String)
    (best? : Option Directive) (ds : List Directive) :
    ds.foldl (Directive.prefer target) (best?.or (some base)) =
      (ds.foldl (Directive.prefer target) best?).or (some base) := by
  induction ds generalizing best? with
  | nil => rfl
  | cons d ds ih => rw [List.foldl_cons, List.foldl_cons, prefer_or hbase, ih]

/-- The directive without a scope decides where no other does. -/
theorem decisive?_base (t : Threshold) (rest : List Directive) (pattern : Option (String → Bool))
    (target : String) :
    (Filter.mk (⟨none, t⟩ :: rest) pattern).decisive? target =
      ((Filter.mk rest pattern).decisive? target).or (some ⟨none, t⟩) :=
  foldl_prefer_or rfl target none rest

/-- What has been chosen from these directives covers the target and weighs the most; if nothing has,
none of them covers it. -/
def Heaviest (target : String) (ds : List Directive) : Option Directive → Prop
  | none => ∀ e ∈ ds, e.covers target = false
  | some d => d ∈ ds ∧ d.covers target = true ∧
    ∀ e ∈ ds, e.covers target = true → e.weight ≤ d.weight

/-- One more directive, and the choice is again the heaviest. -/
theorem Heaviest.prefer {target : String} {best? : Option Directive}
    (h : Heaviest target ds best?) (x : Directive) :
    Heaviest target (ds ++ [x]) (Directive.prefer target best? x) := by
  have htaken (hx : x.covers target = true)
      (hmost : ∀ e ∈ ds, e.covers target = true → e.weight ≤ x.weight) :
      Heaviest target (ds ++ [x]) (some x) :=
    ⟨by simp, hx, List.forall_mem_append.mpr
      ⟨hmost, List.forall_mem_singleton.mpr fun _ => Nat.le_refl _⟩⟩
  cases best? with
  | none =>
    cases hx : x.covers target with
    | false =>
      rw [show Directive.prefer target none x = none by simp [Directive.prefer, hx]]
      exact List.forall_mem_append.mpr ⟨h, List.forall_mem_singleton.mpr hx⟩
    | true =>
      rw [show Directive.prefer target none x = some x by simp [Directive.prefer, hx]]
      refine htaken hx fun e he hcovered => ?_
      rw [h e he] at hcovered
      cases hcovered
  | some d =>
    obtain ⟨hd, hcovers, hmost⟩ := h
    by_cases hx : x.covers target = true ∧ d.weight ≤ x.weight
    · rw [show Directive.prefer target (some d) x = some x by simp [Directive.prefer, hx]]
      exact htaken hx.1 fun e he hcovered => Nat.le_trans (hmost e he hcovered) hx.2
    · rw [show Directive.prefer target (some d) x = some d by simp [Directive.prefer, hx]]
      refine ⟨List.mem_append_left _ hd, hcovers, List.forall_mem_append.mpr
        ⟨hmost, List.forall_mem_singleton.mpr fun hcovered => ?_⟩⟩
      exact Nat.le_of_not_le fun hle => hx ⟨hcovered, hle⟩

theorem heaviest_decisive? (ds : List Directive) (pattern : Option (String → Bool))
    (target : String) : Heaviest target ds ((Filter.mk ds pattern).decisive? target) := by
  unfold decisive?
  induction ds using List.reverseRecOn with
  | nil => simp [Heaviest]
  | append_singleton ds x ih =>
    rw [List.foldl_append]
    exact ih.prefer x

end Filter

namespace Directive

/-- To cover a target is to have no scope or one that the target begins with. -/
theorem covers_iff {d : Directive} {target : String} :
    d.covers target = true ↔ ∀ name, d.scope = some name → name.toList <+: target.toList := by
  cases hscope : d.scope with
  | none => simp [covers, hscope]
  | some name => simp [covers, hscope]

/-- Of two names that a target begins with, the one that weighs less is where the other begins. -/
theorem isPrefix_of_weight_le {d e : Directive} {name longer target : String}
    (he : e.scope = some name) (hd : d.scope = some longer) (hname : name.toList <+: target.toList)
    (hlonger : longer.toList <+: target.toList) (h : e.weight ≤ d.weight) :
    name.toList <+: longer.toList := by
  rcases List.prefix_or_prefix_of_prefix hname hlonger with hle | ⟨more, hmore⟩
  · exact hle
  · have heq : name = longer ++ String.ofList more := by
      apply String.toList_inj.mp
      rw [String.toList_append, String.toList_ofList, hmore]
    have hsize : name.utf8ByteSize ≤ longer.utf8ByteSize := by simpa [weight, he, hd] using h
    rw [heq, String.utf8ByteSize_append] at hsize
    have hnil : String.ofList more = "" := String.utf8ByteSize_eq_zero_iff.mp (by omega)
    have hsame : name = longer := by rw [heq, hnil, String.append_empty]
    exact hsame ▸ List.prefix_rfl

end Directive

/-- Which of the directives, in the order in which they were given, decides on the target: it is the
last with its scope, and the target begins with that scope; and any other scope that the target begins
with is shorter. -/
structure Rules (ds : List Directive) (target : String) (d : Directive) : Prop where
  last : ∃ before after, ds = before ++ d :: after ∧ ∀ e ∈ after, e.scope ≠ d.scope
  covers : ∀ name, d.scope = some name → name.toList <+: target.toList
  longest : ∀ e ∈ ds, ∀ name, e.scope = some name → name.toList <+: target.toList →
    ∃ longer, d.scope = some longer ∧ name.toList <+: longer.toList

/-- No two directives decide on the same target. -/
theorem Rules.unique {ds : List Directive} {target : String} {d d' : Directive}
    (h : Rules ds target d) (h' : Rules ds target d') : d = d' := by
  apply Filter.IsLast.unique h.last h'.last
  have hd : d ∈ ds := Filter.IsLast.mem h.last
  have hd' : d' ∈ ds := Filter.IsLast.mem h'.last
  cases hscope : d.scope with
  | none =>
    cases hscope' : d'.scope with
    | none => rfl
    | some name' =>
      obtain ⟨longer, hlonger, -⟩ := h.longest d' hd' name' hscope' (h'.covers name' hscope')
      rw [hscope] at hlonger
      cases hlonger
  | some name =>
    obtain ⟨name', hscope', hle⟩ := h'.longest d hd name hscope (h.covers name hscope)
    obtain ⟨name'', hscope'', hge⟩ := h.longest d' hd' name' hscope' (h'.covers name' hscope')
    rw [hscope] at hscope''
    cases hscope''
    rw [hscope', String.toList_inj.mp (hle.eq_of_length_le hge.length_le)]

namespace Filter

variable {t : Threshold} {ds : List Directive} {d : Directive} {target : String}

/-- A directive without a scope decides only if no name that has been kept covers the target. -/
theorem covers_eq_false_of_unscoped {pattern : Option (String → Bool)}
    (h : (Filter.mk (ds.foldl add [⟨none, t⟩]) pattern).decisive? target = some d)
    (hnone : d.scope = none) {e : Directive} (he : e ∈ ds.foldl add [⟨none, t⟩])
    (hscope : e.scope ≠ none) : e.covers target = false := by
  rw [foldl_add_threshold] at he
  rw [foldl_add_threshold, decisive?_base] at h
  have hbehind : e ∈ (withScope ds).foldl add [] :=
    (List.mem_cons.mp he).resolve_left fun heq => hscope (heq ▸ rfl)
  have hheaviest := heaviest_decisive? ((withScope ds).foldl add []) pattern target
  cases hdecisive : (Filter.mk ((withScope ds).foldl add []) pattern).decisive? target with
  | none =>
    rw [hdecisive] at hheaviest
    exact hheaviest e hbehind
  | some d' =>
    -- what decides behind the base has a scope, and would have gone before it
    rw [hdecisive] at h hheaviest
    cases h
    have hscoped : d ∈ withScope ds := (mem_foldl_add_iff.mp hheaviest.1).mem
    have hsome := (List.mem_filter.mp hscoped).2
    rw [hnone] at hsome
    cases hsome

/-- The directive that decides rules. -/
theorem rules_of_decisive? {pattern : Option (String → Bool)}
    (h : (Filter.mk (ds.foldl add [⟨none, t⟩]) pattern).decisive? target = some d) :
    Rules (⟨none, t⟩ :: ds) target d := by
  have hkept : ∀ {e}, e ∈ ds.foldl add [⟨none, t⟩] ↔ IsLast (⟨none, t⟩ :: ds) e :=
    fun {e} => @mem_foldl_add_iff (⟨none, t⟩ :: ds) e
  have hheaviest := heaviest_decisive? (ds.foldl add [⟨none, t⟩]) pattern target
  rw [h] at hheaviest
  obtain ⟨hd, hcovers, hmost⟩ := hheaviest
  refine ⟨hkept.mp hd, Directive.covers_iff.mp hcovers, ?_⟩
  intro e he name hname hstart
  -- the last with the name of `e` has been kept, and covers the target as `e` does
  obtain ⟨e', he', hscope⟩ := exists_isLast he
  rw [hname] at hscope
  have hcovered : e'.covers target = true := by
    rw [Directive.covers_iff, hscope]
    rintro _ ⟨⟩
    exact hstart
  cases hlonger : d.scope with
  | some longer =>
    exact ⟨longer, rfl, Directive.isPrefix_of_weight_le hscope hlonger hstart
      (Directive.covers_iff.mp hcovers longer hlonger) (hmost e' (hkept.mpr he') hcovered)⟩
  | none =>
    have huncovered := covers_eq_false_of_unscoped h hlonger (hkept.mpr he') (by simp [hscope])
    rw [hcovered] at huncovered
    cases huncovered

/-- **Who decides.** The filter goes by the directive that rules. -/
theorem decisive?_eq_some_iff {pattern : Option (String → Bool)} :
    (Filter.mk (ds.foldl add [⟨none, t⟩]) pattern).decisive? target = some d ↔
      Rules (⟨none, t⟩ :: ds) target d := by
  refine ⟨rules_of_decisive?, fun hrules => ?_⟩
  have hfirst : ∃ d', (Filter.mk (ds.foldl add [⟨none, t⟩]) pattern).decisive? target = some d' := by
    rw [foldl_add_threshold, decisive?_base]
    cases (Filter.mk ((withScope ds).foldl add []) pattern).decisive? target with
    | none => exact ⟨_, rfl⟩
    | some d' => exact ⟨_, rfl⟩
  obtain ⟨d', hd'⟩ := hfirst
  rw [hd', (rules_of_decisive? hd').unique hrules]

/-- What is let through: the directive that rules on where the event comes from has room for its
severity, and the pattern, if there is one, matches its wording. -/
theorem admits_iff {pattern : Option (String → Bool)} {e : Event} :
    (Filter.mk (ds.foldl add [⟨none, t⟩]) pattern).admits e = true ↔
      (∃ d, Rules (⟨none, t⟩ :: ds) e.origin.target d ∧
        e.severity.verbosity ≤ d.threshold.verbosity) ∧
      ∀ isMatch, pattern = some isMatch → isMatch e.message = true := by
  rw [admits, Bool.and_eq_true_iff, Option.any_eq_true, Option.all_eq_true]
  refine and_congr_left' (exists_congr fun d => and_congr decisive?_eq_some_iff ?_)
  exact decide_eq_true_iff

/-! ## The filter of a run -/

theorem configure_of_no_slash {patterns : PatternLanguage} {text : String} {list : List Char}
    (hcut : Text.cutAt '/' text.toList = (list, none)) (t : Threshold) :
    configure patterns t (some text) = configure.build patterns [⟨none, t⟩] list none := by
  simp only [configure, hcut]

theorem configure_of_slash {patterns : PatternLanguage} {text : String} {list rest : List Char}
    (hcut : Text.cutAt '/' text.toList = (list, some rest)) (t : Threshold) :
    configure patterns t (some text) =
      if rest.contains '/' then (⟨[⟨none, t⟩], none⟩, [.tooManySlashes text])
      else configure.build patterns [⟨none, t⟩] list (some (String.ofList rest)) := by
  simp only [configure, hcut]

theorem fst_build (patterns : PatternLanguage) (base : List Directive) (list : List Char)
    (rest : Option String) :
    (configure.build patterns base list rest).1 =
      ⟨(Spec.understood list).foldl add base, (Spec.pattern patterns rest).1⟩ := rfl

/-- **The filter of a run** is what the text says, added to the threshold. -/
theorem exists_reads (patterns : PatternLanguage) (spec : Option String) :
    ∃ ds pattern, Spec.Reads patterns spec ds pattern ∧
      ∀ t, (configure patterns t spec).1 = ⟨ds.foldl add [⟨none, t⟩], pattern⟩ := by
  cases spec with
  | none => exact ⟨[], none, .absent, fun t => rfl⟩
  | some text =>
    rcases hcut : Text.cutAt '/' text.toList with ⟨list, _ | rest⟩
    · have htext := Text.cutAt_eq_none hcut
      have hslash := Text.notMem_of_cutAt hcut
      refine ⟨Spec.understood list, none,
        .noPattern (htext ▸ hslash) (htext ▸ Spec.lists_understood list), fun t => ?_⟩
      rw [configure_of_no_slash hcut, fst_build]
      rfl
    · have htext := Text.cutAt_eq_some hcut
      have hslash := Text.notMem_of_cutAt hcut
      by_cases hmore : '/' ∈ rest
      · have hcount : 2 ≤ text.toList.count '/' := by
          have hpos : 0 < rest.count '/' := List.count_pos_iff.mpr hmore
          rw [htext, List.count_append, List.count_cons_self]
          omega
        refine ⟨[], none, .ignored hcount, fun t => ?_⟩
        rw [configure_of_slash hcut, if_pos (by simpa using hmore)]
        rfl
      · have hbuilt : ∀ t, (configure patterns t (some text)).1 =
            ⟨(Spec.understood list).foldl add [⟨none, t⟩],
              (Spec.pattern patterns (some (String.ofList rest))).1⟩ := by
          intro t
          rw [configure_of_slash hcut, if_neg (by simpa using hmore), fst_build]
        refine ⟨Spec.understood list, _, ?_, hbuilt⟩
        cases hpattern : patterns.compile (String.ofList rest) with
        | ok isMatch =>
          simp only [Spec.pattern, hpattern]
          exact .pattern htext hslash hmore (Spec.lists_understood list) hpattern
        | error reason =>
          simp only [Spec.pattern, hpattern]
          exact .badPattern htext hslash hmore (Spec.lists_understood list) hpattern

/-- The warnings are about the written filter alone. -/
theorem snd_configure (patterns : PatternLanguage) (t u : Threshold) (spec : Option String) :
    (configure patterns t spec).2 = (configure patterns u spec).2 := by
  cases spec with
  | none => rfl
  | some text =>
    rcases hcut : Text.cutAt '/' text.toList with ⟨list, _ | rest⟩
    · rw [configure_of_no_slash hcut, configure_of_no_slash hcut]
      rfl
    · rw [configure_of_slash hcut, configure_of_slash hcut]
      split <;> rfl

end Filter

end Log

end TowerOfHanoi
