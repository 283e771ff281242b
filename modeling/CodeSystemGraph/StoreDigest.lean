import CodeSystemGraph.StoreSchema

/-! The byte strings that row digests are taken of. A text is written with its
length, an optional value with a tag, an integer in eight bytes; the order of
the kinds is fixed for each table, so that the bytes determine the values. -/

namespace CodeSystemGraph.Store
open Model

def leBytes : Nat → Nat → Bytes
  | 0, _ => []
  | width + 1, n => UInt8.ofNat n :: leBytes width (n / 256)

@[simp] theorem leBytes_length (width n : Nat) : (leBytes width n).length = width := by
  induction width generalizing n with
  | zero => rfl
  | succ width ih => simp [leBytes, ih]

theorem leBytes_inj {width n m : Nat} (hn : n < 256 ^ width) (hm : m < 256 ^ width)
    (h : leBytes width n = leBytes width m) : n = m := by
  induction width generalizing n m with
  | zero => rw [pow_zero] at hn hm; omega
  | succ width ih =>
    obtain ⟨low, high⟩ := List.cons.inj h
    have low' : n % 256 = m % 256 := by simpa using congrArg UInt8.toNat low
    rw [pow_succ] at hn hm
    have high' := ih (by omega) (by omega) high
    omega

/-- One call on the `DigestHasher`. -/
inductive Part
  | text (value : String)
  | optionalText (value : Option String)
  | integer (value : Option Int64)

inductive Shape
  | text | optionalText | integer
deriving DecidableEq

namespace Part

def shape : Part → Shape
  | text _ => .text
  | optionalText _ => .optionalText
  | integer _ => .integer

def textBytes (value : String) : Bytes := leBytes 8 value.utf8ByteSize ++ utf8 value

def bytes : Part → Bytes
  | text value => textBytes value
  | optionalText none => [0]
  | optionalText (some value) => 1 :: textBytes value
  | integer none => [0]
  | integer (some value) => 1 :: leBytes 8 value.toUInt64.toNat

/-- The length of a text is written as a `u64`; a Rust string is never longer. -/
def Fits : Part → Prop
  | text value => value.utf8ByteSize < 2 ^ 64
  | optionalText value => ∀ text ∈ value, text.utf8ByteSize < 2 ^ 64
  | integer _ => True

end Part

theorem utf8_injective : Function.Injective utf8 := by
  intro s t h
  have data := Array.toList_inj.mp h
  exact String.toByteArray_inj.mp (ByteArray.ext data)

theorem utf8_length (text : String) : (utf8 text).length = text.utf8ByteSize := by
  exact Array.length_toList

theorem textBytes_inj {s t : String} {rest rest' : Bytes} (hs : s.utf8ByteSize < 2 ^ 64)
    (ht : t.utf8ByteSize < 2 ^ 64) (h : Part.textBytes s ++ rest = Part.textBytes t ++ rest') :
    s = t ∧ rest = rest' := by
  unfold Part.textBytes at h
  rw [List.append_assoc, List.append_assoc] at h
  obtain ⟨lengths, texts⟩ := List.append_inj h (by simp)
  have length := @leBytes_inj 8 _ _ hs ht lengths
  obtain ⟨text, rest⟩ := List.append_inj texts (by rw [utf8_length, utf8_length, length])
  exact ⟨utf8_injective text, rest⟩

theorem part_inj {p q : Part} {rest rest' : Bytes} (same : p.shape = q.shape) (hp : p.Fits)
    (hq : q.Fits) (h : p.bytes ++ rest = q.bytes ++ rest') : p = q ∧ rest = rest' := by
  cases p with
  | text s =>
    cases q with
    | text t =>
      obtain ⟨rfl, rest⟩ := textBytes_inj hp hq h
      exact ⟨rfl, rest⟩
    | optionalText _ => cases same
    | integer _ => cases same
  | optionalText s =>
    cases q with
    | optionalText t =>
      cases s <;> cases t <;> simp only [Part.bytes, List.cons_append, List.nil_append] at h
      · exact ⟨rfl, (List.cons.inj h).2⟩
      · exact absurd (List.cons.inj h).1 (by decide)
      · exact absurd (List.cons.inj h).1 (by decide)
      · obtain ⟨rfl, rest⟩ := textBytes_inj (hp _ rfl) (hq _ rfl) (List.cons.inj h).2
        exact ⟨rfl, rest⟩
    | text _ => cases same
    | integer _ => cases same
  | integer n =>
    cases q with
    | integer m =>
      cases n <;> cases m <;> simp only [Part.bytes, List.cons_append, List.nil_append] at h
      · exact ⟨rfl, (List.cons.inj h).2⟩
      · exact absurd (List.cons.inj h).1 (by decide)
      · exact absurd (List.cons.inj h).1 (by decide)
      · obtain ⟨digits, rest⟩ := List.append_inj (List.cons.inj h).2 (by simp)
        have value := @leBytes_inj 8 _ _ (UInt64.toNat_lt _) (UInt64.toNat_lt _) digits
        have same := congrArg UInt64.toInt64 (UInt64.toNat_inj.mp value)
        rw [Int64.toInt64_toUInt64, Int64.toInt64_toUInt64] at same
        exact ⟨by rw [same], rest⟩
    | text _ => cases same
    | optionalText _ => cases same

def Aligned : List Part → List Part → Prop
  | p :: ps, q :: qs => p.shape = q.shape ∧ Aligned ps qs
  | [], _ => True
  | _ :: _, [] => True

theorem bytes_ne_nil (p : Part) : p.bytes ≠ [] := by
  rcases p with s | (_ | s) | (_ | n) <;> simp [Part.bytes, Part.textBytes, leBytes]

def hasherInput (parts : List Part) : Bytes := parts.flatMap Part.bytes

theorem hasherInput_inj {ps qs : List Part} (aligned : Aligned ps qs) (hp : ∀ p ∈ ps, p.Fits)
    (hq : ∀ q ∈ qs, q.Fits) (h : hasherInput ps = hasherInput qs) : ps = qs := by
  induction ps generalizing qs with
  | nil =>
    cases qs with
    | nil => rfl
    | cons q qs => exact absurd (List.append_eq_nil_iff.mp h.symm).1 (bytes_ne_nil q)
  | cons p ps ih =>
    cases qs with
    | nil => exact absurd (List.append_eq_nil_iff.mp h).1 (bytes_ne_nil p)
    | cons q qs =>
      have first := part_inj aligned.1 (hp p List.mem_cons_self) (hq q List.mem_cons_self) h
      obtain ⟨rfl, rest⟩ := first
      rw [ih aligned.2 (fun p mem => hp p (List.mem_cons_of_mem _ mem))
        (fun q mem => hq q (List.mem_cons_of_mem _ mem)) rest]

theorem aligned_texts (values values' : List String) :
    Aligned (values.map .text) (values'.map .text) := by
  induction values generalizing values' with
  | nil => cases values' <;> trivial
  | cons value values ih =>
    cases values' with
    | nil => trivial
    | cons value' values' => exact ⟨rfl, ih values'⟩

end CodeSystemGraph.Store
