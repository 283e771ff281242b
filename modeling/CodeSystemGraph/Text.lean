import Mathlib.Data.List.Basic
import Mathlib.Data.String.Basic

/-! Text operations of the standard library, on lists of characters. -/

namespace CodeSystemGraph.Text

def isWhitespace (c : Char) : Bool :=
  let n := c.toNat
  (9 ≤ n && n ≤ 13) || n == 0x20 || n == 0x85 || n == 0xA0 || n == 0x1680 ||
    (0x2000 ≤ n && n ≤ 0x200A) || n == 0x2028 || n == 0x2029 || n == 0x202F || n == 0x205F ||
    n == 0x3000

def isBlank (value : String) : Bool := value.toList.all isWhitespace

/-- `char::is_control`: the category `Cc`. -/
def isControl (c : Char) : Bool := c.toNat < 0x20 || (0x7F ≤ c.toNat && c.toNat < 0xA0)

def containsUnsafeMetadataCharacters (value : String) : Bool :=
  value.toList.any fun c =>
    let n := c.toNat
    isControl c || n == 0x061C || n == 0x200E || n == 0x200F || (0x202A ≤ n && n ≤ 0x202E) ||
      (0x2066 ≤ n && n ≤ 0x2069) || n == 0xFEFF

def containsText (text marker : List Char) : Bool := text.tails.any fun tail => marker.isPrefixOf tail

def toAsciiLowercase (c : Char) : Char :=
  if 'A' ≤ c ∧ c ≤ 'Z' then Char.ofNat (c.toNat + 32) else c

/-- The text before the first separator, and the text after it if there is one. -/
def splitOnce (separator : Char) : List Char → List Char × Option (List Char)
  | [] => ([], none)
  | c :: rest =>
    if c = separator then ([], some rest)
    else ((c :: (splitOnce separator rest).1), (splitOnce separator rest).2)

/-- `splitn`: at most the given number of pieces, the last one unsplit. -/
def splitn : Nat → Char → List Char → List (List Char)
  | 0, _, _ => []
  | 1, _, text => [text]
  | n + 2, separator, text =>
    match splitOnce separator text with
    | (first, none) => [first]
    | (first, some rest) => first :: splitn (n + 1) separator rest

def rsplitOnce (separator : Char) (text : List Char) : Option (List Char × List Char) :=
  match splitOnce separator text.reverse with
  | (_, none) => none
  | (after, some before) => some (before.reverse, after.reverse)

def stripPrefix (head text : List Char) : Option (List Char) :=
  if head.isPrefixOf text then some (text.drop head.length) else none

def stripSuffix (tail text : List Char) : Option (List Char) :=
  if tail.isSuffixOf text then some (text.take (text.length - tail.length)) else none

/-- `split_once` at a text: what follows its first occurrence. -/
def afterFirst (literal : List Char) : List Char → Option (List Char)
  | [] => if literal = [] then some [] else none
  | c :: rest =>
    match stripPrefix literal (c :: rest) with
    | some after => some after
    | none => afterFirst literal rest

/-- `str::lines`: a carriage return is left out before a line feed only. -/
def textLines (text : List Char) : List (List Char) :=
  let pieces := text.splitOn '\n'
  (pieces.dropLast.map fun line => (stripSuffix ['\r'] line).getD line) ++
    pieces.getLast?.toList.filter (· ≠ [])

example : textLines "a\r\nb\r".toList = ["a".toList, "b\r".toList] := by decide

def trim (text : List Char) : List Char :=
  ((text.dropWhile isWhitespace).reverse.dropWhile isWhitespace).reverse

def parseUnsigned (limit : Nat) (text : List Char) : Option Nat :=
  let digits := if text.head? = some '+' then text.tail else text
  if digits.isEmpty || !digits.all Char.isDigit then none
  else
    let value := Nat.ofDigitChars 10 digits 0
    if value < limit then some value else none

theorem code_of_isAlphanum {c : Char} (word : c.isAlphanum = true) :
    (65 ≤ c.toNat ∧ c.toNat ≤ 90) ∨ (97 ≤ c.toNat ∧ c.toNat ≤ 122) ∨
      (48 ≤ c.toNat ∧ c.toNat ≤ 57) := by
  have split : c.isAlphanum = (decide ('A'.val ≤ c.val ∧ c.val ≤ 'Z'.val) ||
      (decide ('a'.val ≤ c.val) && decide (c.val ≤ 'z'.val)) ||
      (decide ('0'.val ≤ c.val) && decide (c.val ≤ '9'.val))) := rfl
  rw [split, Bool.or_eq_true, Bool.or_eq_true, Bool.and_eq_true, Bool.and_eq_true,
    decide_eq_true_eq, decide_eq_true_eq, decide_eq_true_eq, decide_eq_true_eq,
    decide_eq_true_eq] at word
  cases word with
  | inl letter =>
    cases letter with
    | inl upper => exact .inl upper
    | inr lower => exact .inr (.inl lower)
  | inr digit => exact .inr (.inr digit)

theorem stripPrefix_eq_some {head text rest : List Char} :
    stripPrefix head text = some rest ↔ text = head ++ rest := by
  unfold stripPrefix
  constructor
  · intro stripped
    split at stripped
    · rename_i begins
      obtain ⟨more, rfl⟩ := List.isPrefixOf_iff_prefix.1 begins
      rw [List.drop_left, Option.some.injEq] at stripped
      rw [stripped]
    · cases stripped
  · intro same
    rw [same, if_pos (List.isPrefixOf_iff_prefix.2 (List.prefix_append _ _)), List.drop_left]

theorem stripSuffix_eq_some {tail text rest : List Char} :
    stripSuffix tail text = some rest ↔ text = rest ++ tail := by
  unfold stripSuffix
  constructor
  · intro stripped
    split at stripped
    · rename_i finishes
      obtain ⟨more, rfl⟩ := List.isSuffixOf_iff_suffix.1 finishes
      rw [List.length_append, Nat.add_sub_cancel, List.take_left, Option.some.injEq] at stripped
      rw [stripped]
    · cases stripped
  · intro same
    rw [same, if_pos (List.isSuffixOf_iff_suffix.2 (List.suffix_append _ _)), List.length_append,
      Nat.add_sub_cancel, List.take_left]

theorem afterFirst_split {literal text rest : List Char}
    (found : afterFirst literal text = some rest) : ∃ first, text = first ++ literal ++ rest := by
  induction text with
  | nil =>
    rw [afterFirst] at found
    split at found
    · rename_i empty
      cases found
      exact ⟨[], by rw [empty]; rfl⟩
    · cases found
  | cons c text ih =>
    rw [afterFirst] at found
    split at found
    · rename_i after here
      cases found
      exact ⟨[], stripPrefix_eq_some.1 here⟩
    · obtain ⟨first, same⟩ := ih found
      exact ⟨c :: first, by rw [same]; rfl⟩

theorem afterFirst_of_occurrence {literal : List Char} (first rest : List Char) :
    ∃ more, afterFirst literal (first ++ literal ++ rest) = some (more ++ rest) := by
  induction first with
  | nil =>
    rw [List.nil_append]
    cases text : literal ++ rest with
    | nil =>
      obtain ⟨empty, none⟩ := List.append_eq_nil_iff.1 text
      rw [empty, none]
      exact ⟨[], rfl⟩
    | cons c tail =>
      rw [afterFirst, stripPrefix_eq_some.2 text.symm]
      exact ⟨[], rfl⟩
  | cons c first ih =>
    obtain ⟨more, found⟩ := ih
    rw [List.cons_append, List.cons_append, afterFirst]
    cases here : stripPrefix literal (c :: (first ++ literal ++ rest)) with
    | none => exact ⟨more, found⟩
    | some after =>
      have same := stripPrefix_eq_some.1 here
      have shorter : rest.length ≤ after.length := by
        have lengths := congrArg List.length same
        simp only [List.length_cons, List.length_append] at lengths
        omega
      have finishes : rest <:+ after := by
        apply List.suffix_of_suffix_length_le _ (List.suffix_append literal after) shorter
        rw [← same]
        exact ⟨c :: (first ++ literal), by simp⟩
      obtain ⟨more', rfl⟩ := finishes
      exact ⟨more', rfl⟩

theorem splitOnce_length {separator : Char} {text first rest : List Char}
    (h : splitOnce separator text = (first, some rest)) : rest.length < text.length := by
  induction text generalizing first with
  | nil => simp [splitOnce] at h
  | cons c text ih =>
    unfold splitOnce at h
    split at h
    · obtain ⟨-, rfl⟩ : [] = first ∧ text = rest := by simpa using h
      simp
    · obtain ⟨-, later⟩ := Prod.mk.inj h
      have shorter := @ih (splitOnce separator text).1 (Prod.ext rfl later)
      exact Nat.lt_succ_of_lt shorter

theorem splitOnce_append {separator : Char} {first : List Char} (free : separator ∉ first)
    (rest : List Char) : splitOnce separator (first ++ separator :: rest) = (first, some rest) := by
  induction first with
  | nil => simp [splitOnce]
  | cons c first ih =>
    rw [List.mem_cons, not_or] at free
    simp [splitOnce, Ne.symm free.1, ih free.2]

theorem splitOnce_of_not_mem {separator : Char} {text : List Char} (free : separator ∉ text) :
    splitOnce separator text = (text, none) := by
  induction text with
  | nil => rfl
  | cons c text ih =>
    rw [List.mem_cons, not_or] at free
    simp [splitOnce, Ne.symm free.1, ih free.2]

theorem splitOnce_eq_some {separator : Char} : ∀ {text first rest : List Char},
    splitOnce separator text = (first, some rest) →
      text = first ++ separator :: rest ∧ separator ∉ first := by
  intro text
  induction text with
  | nil => intro first rest h; simp [splitOnce] at h
  | cons c text ih =>
    intro first rest h
    rw [splitOnce] at h
    by_cases here : c = separator
    · rw [if_pos here] at h
      obtain ⟨rfl, same⟩ := Prod.mk.inj h
      cases same
      simp [here]
    · rw [if_neg here] at h
      obtain ⟨rfl, later⟩ := Prod.mk.inj h
      obtain ⟨same, free⟩ := ih (Prod.ext rfl later)
      refine ⟨congrArg (c :: ·) same, fun mem => ?_⟩
      exact (List.mem_cons.1 mem).elim (fun same => here same.symm) free

theorem splitOnce_eq_none {separator : Char} : ∀ {text first : List Char},
    splitOnce separator text = (first, none) → separator ∉ text := by
  intro text
  induction text with
  | nil => intro first _; exact List.not_mem_nil
  | cons c text ih =>
    intro first h
    rw [splitOnce] at h
    by_cases here : c = separator
    · rw [if_pos here] at h
      cases (Prod.mk.inj h).2
    · rw [if_neg here] at h
      intro mem
      exact (List.mem_cons.1 mem).elim (fun same => here same.symm)
        (ih (Prod.ext rfl (Prod.mk.inj h).2))

theorem rsplitOnce_eq_some {separator : Char} {text first rest : List Char}
    (split : rsplitOnce separator text = some (first, rest)) :
    text = first ++ separator :: rest ∧ separator ∉ rest := by
  unfold rsplitOnce at split
  cases parts : splitOnce separator text.reverse with
  | mk after before =>
    rw [parts] at split
    cases before with
    | none => cases split
    | some before =>
      cases split
      have same := splitOnce_eq_some parts
      constructor
      · simpa using congrArg List.reverse same.1
      · simpa using same.2

theorem rsplitOnce_eq_none {separator : Char} {text : List Char}
    (whole : rsplitOnce separator text = none) : separator ∉ text := by
  unfold rsplitOnce at whole
  cases parts : splitOnce separator text.reverse with
  | mk after before =>
    rw [parts] at whole
    cases before with
    | none => simpa using splitOnce_eq_none parts
    | some before => cases whole

theorem mem_splitOnP {α : Type} {p : α → Bool} : ∀ {text piece : List α},
    piece ∈ text.splitOnP p → ∀ c ∈ piece, c ∈ text ∧ p c = false := by
  intro text
  induction text with
  | nil =>
    intro piece mem c among
    rw [List.splitOnP_nil, List.mem_singleton] at mem
    rw [mem] at among
    cases among
  | cons x text ih =>
    intro piece mem c among
    rw [List.splitOnP_cons_eq_if_modifyHead] at mem
    split at mem
    · cases List.mem_cons.1 mem with
      | inl empty =>
        rw [empty] at among
        cases among
      | inr later => exact ⟨List.mem_cons_of_mem _ (ih later c among).1, (ih later c among).2⟩
    · next keep =>
      obtain ⟨first, rest, split⟩ := List.exists_cons_of_ne_nil (List.splitOnP_ne_nil p text)
      rw [split] at ih
      rw [split, List.modifyHead_cons, List.mem_cons] at mem
      cases mem with
      | inr later =>
        have known := ih (List.mem_cons_of_mem _ later) c among
        exact ⟨List.mem_cons_of_mem _ known.1, known.2⟩
      | inl head =>
        rw [head, List.mem_cons] at among
        cases among with
        | inl same => exact ⟨by simp [same], by simpa [same] using keep⟩
        | inr later =>
          have known := ih (List.mem_cons_self ..) c later
          exact ⟨List.mem_cons_of_mem _ known.1, known.2⟩

theorem append_cons_inj {α : Type} {separator : α} {a a' b b' : List α} (free : separator ∉ a)
    (free' : separator ∉ a') (same : a ++ separator :: b = a' ++ separator :: b') :
    a = a' ∧ b = b' := by
  induction a generalizing a' with
  | nil =>
    cases a' with
    | nil => exact ⟨rfl, (List.cons.inj same).2⟩
    | cons c a' => exact absurd (List.cons.inj same).1 (List.ne_of_not_mem_cons free')
  | cons c a ih =>
    cases a' with
    | nil => exact absurd (List.cons.inj same).1.symm (List.ne_of_not_mem_cons free)
    | cons c' a' =>
      obtain ⟨head, tail⟩ := List.cons.inj same
      have parts := ih (List.not_mem_of_not_mem_cons free) (List.not_mem_of_not_mem_cons free') tail
      exact ⟨by rw [head, parts.1], parts.2⟩

theorem prefix_of_free {α : Type} {separator : α} {head first rest : List α}
    (free : separator ∉ head) (begins : head <+: first ++ separator :: rest) : head <+: first := by
  obtain ⟨more, same⟩ := begins
  cases List.append_eq_append_iff.1 same with
  | inl before =>
    obtain ⟨between, rfl, -⟩ := before
    exact List.prefix_append _ _
  | inr after =>
    obtain ⟨between, rfl, tail⟩ := after
    cases between with
    | nil => simp
    | cons c between =>
      rw [List.cons_append] at tail
      exact absurd (by simp [(List.cons.inj tail).1]) free

theorem suffix_of_free {α : Type} {separator : α} {tail first rest : List α}
    (free : separator ∉ tail) (finishes : tail <:+ first ++ separator :: rest) : tail <:+ rest := by
  rw [← List.reverse_prefix] at finishes ⊢
  refine @prefix_of_free _ separator _ _ first.reverse (by simpa using free) ?_
  simpa using finishes

example : (splitn 4 ':' "a:b:c:d:e".toList).map String.ofList = ["a", "b", "c", "d:e"] := by decide

theorem mem_intercalate {c separator : Char} {parts : List (List Char)}
    (mem : c ∈ [separator].intercalate parts) : c = separator ∨ ∃ part ∈ parts, c ∈ part := by
  induction parts with
  | nil => cases mem
  | cons part parts ih =>
    cases parts with
    | nil =>
      rw [List.intercalate_singleton] at mem
      exact Or.inr ⟨part, List.mem_cons_self, mem⟩
    | cons next parts =>
      rw [List.intercalate_cons_cons, List.mem_append, List.mem_append, List.mem_singleton] at mem
      rcases mem with (here | same) | later
      · exact Or.inr ⟨part, List.mem_cons_self, here⟩
      · exact Or.inl same
      · rcases ih later with same | inside
        · exact Or.inl same
        · obtain ⟨other, listed, among⟩ := inside
          exact Or.inr ⟨other, List.mem_cons_of_mem _ listed, among⟩

theorem notMem_repr {n : Nat} {c : Char} (letter : c.isDigit = false) : c ∉ n.repr.toList := by
  intro mem
  rw [Nat.toList_repr] at mem
  have digit := Nat.isDigit_of_mem_toDigits (by decide) (by decide) mem
  rw [letter] at digit
  cases digit

theorem repr_inj {m n : Nat} (same : m.repr.toList = n.repr.toList) : m = n := by
  rw [Nat.toList_repr, Nat.toList_repr] at same
  have values := congrArg (Nat.ofDigitChars 10 · 0) same
  simpa using values

theorem eq_nil_of_size {text more : List Char}
    (size : (String.ofList (text ++ more)).utf8ByteSize = (String.ofList text).utf8ByteSize) :
    more = [] := by
  rw [String.ofList_append, String.utf8ByteSize_append] at size
  have none : (String.ofList more).utf8ByteSize = 0 := by omega
  rwa [String.utf8ByteSize_eq_zero_iff, ← String.ofList_nil, String.ofList_inj] at none

theorem eq_of_size {first first' rest rest' : List Char} (same : first ++ rest = first' ++ rest')
    (size : (String.ofList first).utf8ByteSize = (String.ofList first').utf8ByteSize) :
    first = first' := by
  cases List.append_eq_append_iff.1 same with
  | inl longer =>
    obtain ⟨more, rfl, -⟩ := longer
    rw [eq_nil_of_size size.symm, List.append_nil]
  | inr shorter =>
    obtain ⟨more, rfl, -⟩ := shorter
    rw [eq_nil_of_size size, List.append_nil]

end CodeSystemGraph.Text
