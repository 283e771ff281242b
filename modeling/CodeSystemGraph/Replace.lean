import Mathlib.Data.List.Infix
import Mathlib.Data.String.Basic

/-! Replacing every occurrence of a pattern, from the left and without overlap: the rules
for lists, and that the string operation with its table-driven search follows them. -/

namespace CodeSystemGraph.Replace

section Lists

variable {α : Type} [DecidableEq α]

/-- The text with the pattern replaced, after dropping the elements of a match that are
left. -/
def replaceFrom (pattern replacement : List α) : ℕ → List α → List α
  | _, [] => []
  | skip + 1, _ :: rest => replaceFrom pattern replacement skip rest
  | 0, c :: rest =>
    if pattern <+: c :: rest then
      replacement ++ replaceFrom pattern replacement (pattern.length - 1) rest
    else c :: replaceFrom pattern replacement 0 rest

def replaceAll (pattern replacement text : List α) : List α :=
  replaceFrom pattern replacement 0 text

variable {pattern : List α} (replacement : List α)

theorem replaceFrom_eq_drop (skip : ℕ) (text : List α) :
    replaceFrom pattern replacement skip text =
      replaceAll pattern replacement (text.drop skip) := by
  induction text generalizing skip with
  | nil => simp [replaceFrom, replaceAll]
  | cons c rest ih =>
    cases skip with
    | zero => rfl
    | succ skip => exact ih skip

@[simp] theorem replaceAll_nil : replaceAll pattern replacement [] = [] := rfl

theorem replaceAll_pattern (some : pattern ≠ []) (rest : List α) :
    replaceAll pattern replacement (pattern ++ rest) =
      replacement ++ replaceAll pattern replacement rest := by
  obtain ⟨c, pattern', rfl⟩ := List.exists_cons_of_ne_nil some
  have here : c :: pattern' <+: c :: (pattern' ++ rest) := ⟨rest, rfl⟩
  rw [replaceAll, List.cons_append, replaceFrom, if_pos here, replaceFrom_eq_drop]
  simp

theorem replaceAll_other {c : α} {rest : List α} (other : ¬pattern <+: c :: rest) :
    replaceAll pattern replacement (c :: rest) = c :: replaceAll pattern replacement rest := by
  rw [replaceAll, replaceFrom, if_neg other, replaceAll]

theorem replaceAll_append {before rest : List α}
    (absent : ∀ i < before.length, ¬pattern <+: (before ++ rest).drop i) :
    replaceAll pattern replacement (before ++ rest) =
      before ++ replaceAll pattern replacement rest := by
  induction before with
  | nil => rfl
  | cons c before ih =>
    rw [List.cons_append, replaceAll_other, ih, List.cons_append]
    · intro i lt
      exact absent (i + 1) (Nat.succ_lt_succ lt)
    · exact absent 0 (Nat.succ_pos _)

theorem replaceAll_short {text : List α} (short : text.length < pattern.length) :
    replaceAll pattern replacement text = text := by
  have absent : ∀ i < text.length, ¬pattern <+: (text ++ []).drop i := by
    intro i _ found
    have le := found.length_le
    rw [List.append_nil, List.length_drop] at le
    omega
  simpa using replaceAll_append replacement absent

end Lists

section Strings

open String.Slice.Pattern String.Slice.Pattern.Model ForwardStringSearcher

variable {s : String.Slice} {pattern : String} {start stop : s.Pos} {before middle after : String}

theorem copy_slice (startSplits : start.Splits before (middle ++ after))
    (stopSplits : stop.Splits (before ++ middle) after) : (s.slice! start stop).copy = middle := by
  obtain ⟨le, same⟩ := String.Slice.copy_slice_eq_iff_splits.mpr ⟨_, _, startSplits, stopSplits⟩
  rw [String.Slice.slice_eq_slice!] at same
  exact same

theorem matchesAt_of_isPrefix (startSplits : start.Splits before (middle ++ after))
    (stopSplits : stop.Splits (before ++ middle) after) {i : ℕ} (lt : i < middle.toList.length)
    (found : pattern.toList <+: (middle.toList ++ after.toList).drop i) :
    ∃ pos, start ≤ pos ∧ pos < stop ∧ MatchesAt pattern pos := by
  obtain ⟨rest, eq⟩ := found
  have join : middle ++ after = String.ofList (middle.toList.take i) ++
      (pattern ++ String.ofList rest) := by
    apply String.ext
    simp only [String.toList_append, String.toList_ofList, eq]
    rw [List.drop_append_of_le_length lt.le, ← List.append_assoc, List.take_append_drop]
  have middleSplit : middle = String.ofList (middle.toList.take i) ++
      String.ofList (middle.toList.drop i) := by
    rw [← String.ofList_append, List.take_append_drop, String.ofList_toList]
  have whole : s.copy = (before ++ String.ofList (middle.toList.take i)) ++
      (pattern ++ String.ofList rest) := by
    rw [startSplits.eq_append, String.append_assoc, join]
  have posSplits := String.Slice.Pos.splits_ofEqAppend whole
  refine ⟨_, ?_, ?_, matchesAt_iff_splits.mpr ⟨_, _, posSplits⟩⟩
  · exact (startSplits.le_iff_exists_eq_append posSplits).mpr ⟨_, rfl, join⟩
  · refine (posSplits.lt_iff_exists_eq_append stopSplits).mpr
      ⟨String.ofList (middle.toList.drop i), ?_, ?_, ?_⟩
    · simpa using lt
    · rw [String.append_assoc, ← middleSplit]
    · apply (String.append_right_inj (String.ofList (middle.toList.take i))).mp
      rw [← join, ← String.append_assoc, ← middleSplit]

def spliced (replacement sofar : String) (step : SearchStep s) : String :=
  match step with
  | .matched _ _ => sofar ++ replacement
  | .rejected start stop => sofar ++ s.slice! start stop

theorem toList_foldl_spliced (replacement : String) (some : pattern ≠ "") {pos : s.Pos}
    {steps : List (SearchStep s)} (valid : IsValidSearchFrom pattern pos steps) (sofar : String)
    (splits : pos.Splits before after) :
    (steps.foldl (spliced replacement) sofar).toList =
      sofar.toList ++ replaceAll pattern.toList replacement.toList after.toList := by
  induction valid generalizing sofar before after with
  | endPos =>
    have empty : after = "" := splits.eq_right (String.Slice.splits_endPos s)
    simp [empty]
  | matched matched valid ih =>
    obtain ⟨left, right, startSplits, stopSplits⟩ := isLongestMatchAt_iff_splits.mp matched
    obtain rfl := splits.eq_right startSplits
    rw [List.foldl_cons, ih _ stopSplits, String.toList_append, replaceAll_pattern]
    · simp [spliced]
    · simpa using some
  | @mismatched steps start stop lt rejected valid ih =>
    have stopSplits := stop.splits
    obtain ⟨middle, -, left, right⟩ := (splits.lt_iff_exists_eq_append stopSplits).mp lt
    rw [left] at stopSplits
    rw [right] at splits ⊢
    rw [List.foldl_cons, ih _ stopSplits, String.toList_append, replaceAll_append]
    · simp [spliced, copy_slice splits stopSplits]
    · intro i inside found
      obtain ⟨pos, le, lt, found⟩ := matchesAt_of_isPrefix splits stopSplits inside found
      exact rejected pos le lt found

theorem toList_replace (some : pattern ≠ "") (text replacement : String) :
    (text.replace pattern replacement).toList =
      replaceAll pattern.toList replacement.toList text.toList := by
  have same : text.replace pattern replacement =
      (ToForwardSearcher.toSearcher pattern text.toSlice).fold (spliced replacement) "" := by
    rw [String.replace, String.Slice.replace]
    congr 1
    funext sofar step
    cases step with
    | matched start stop => simp [spliced, String.ToSlice.toSlice]
    | rejected start stop => rfl
  have lawful := lawfulToForwardSearcherModel some
  have valid := lawful.isValidSearchFrom_toList text.toSlice
  have folded := toList_foldl_spliced replacement some valid "" (String.Slice.splits_startPos _)
  rw [Std.Iter.foldl_toList] at folded
  rw [same, folded]
  simp

end Strings

end CodeSystemGraph.Replace
