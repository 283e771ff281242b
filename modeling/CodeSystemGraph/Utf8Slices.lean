import CodeSystemGraph.Text
import Mathlib.Data.List.Basic

/-!
Texts as their UTF-8 bytes, and slices at byte offsets, which exist at the boundaries of
characters only. An ASCII character is one byte of its own; the bytes of any other
character are none of ASCII.
-/

namespace CodeSystemGraph.Utf8

abbrev Bytes := List UInt8

def encode (text : List Char) : Bytes := text.flatMap String.utf8EncodeChar

@[simp] theorem encode_nil : encode [] = [] := rfl

theorem encode_cons (c : Char) (text : List Char) :
    encode (c :: text) = String.utf8EncodeChar c ++ encode text := rfl

@[simp] theorem encode_append (text more : List Char) :
    encode (text ++ more) = encode text ++ encode more := List.flatMap_append

theorem length_encode_le {text more : List Char} (suffix : text <:+ more) :
    (encode text).length ≤ (encode more).length := by
  obtain ⟨before, rfl⟩ := suffix
  rw [encode_append, List.length_append]
  omega

theorem utf8EncodeChar_cases (c : Char) :
    (c.toNat < 128 ∧ String.utf8EncodeChar c = [UInt8.ofNat c.toNat]) ∨
      (128 ≤ c.toNat ∧ ∀ byte ∈ String.utf8EncodeChar c, 128 ≤ byte.toNat) := by
  have split : String.utf8EncodeChar c =
      if c.toNat ≤ 0x7f then [UInt8.ofNat c.toNat]
      else if c.toNat ≤ 0x7ff then
        [UInt8.ofNat (c.toNat / 64 % 0x20 + 0xc0), UInt8.ofNat (c.toNat % 0x40 + 0x80)]
      else if c.toNat ≤ 0xffff then
        [UInt8.ofNat (c.toNat / 4096 % 0x10 + 0xe0), UInt8.ofNat (c.toNat / 64 % 0x40 + 0x80),
          UInt8.ofNat (c.toNat % 0x40 + 0x80)]
      else
        [UInt8.ofNat (c.toNat / 262144 % 0x08 + 0xf0), UInt8.ofNat (c.toNat / 4096 % 0x40 + 0x80),
          UInt8.ofNat (c.toNat / 64 % 0x40 + 0x80), UInt8.ofNat (c.toNat % 0x40 + 0x80)] := rfl
  have high : ∀ n, 128 ≤ n → n < 256 → 128 ≤ (UInt8.ofNat n).toNat := by
    intro n low bound
    rw [UInt8.toNat_ofNat']
    omega
  by_cases ascii : c.toNat ≤ 0x7f
  · exact .inl ⟨by omega, by rw [split, if_pos ascii]⟩
  · refine .inr ⟨by omega, fun byte mem => ?_⟩
    rw [split, if_neg ascii] at mem
    split at mem
    · simp only [List.mem_cons, List.not_mem_nil, or_false] at mem
      rcases mem with rfl | rfl <;> exact high _ (by omega) (by omega)
    · split at mem <;> simp only [List.mem_cons, List.not_mem_nil, or_false] at mem
      · rcases mem with rfl | rfl | rfl <;> exact high _ (by omega) (by omega)
      · rcases mem with rfl | rfl | rfl | rfl <;> exact high _ (by omega) (by omega)

theorem encode_ascii {c : Char} (ascii : c.toNat < 128) (text : List Char) :
    encode (c :: text) = UInt8.ofNat c.toNat :: encode text := by
  rcases utf8EncodeChar_cases c with ⟨-, single⟩ | ⟨high, -⟩
  · rw [encode_cons, single, List.singleton_append]
  · omega

theorem ofNat_toNat_eq_iff {c d : Char} (ascii : c.toNat < 128) (ascii' : d.toNat < 128) :
    UInt8.ofNat c.toNat = UInt8.ofNat d.toNat ↔ c = d := by
  refine ⟨fun same => Char.toNat_inj.1 ?_, fun same => same ▸ rfl⟩
  have bytes := congrArg UInt8.toNat same
  simp only [UInt8.toNat_ofNat'] at bytes
  omega

theorem length_utf8EncodeChar_pos (c : Char) : 0 < (String.utf8EncodeChar c).length := by
  rw [String.length_utf8EncodeChar]
  exact c.utf8Size_pos

/-- The texts before and after a byte offset, if it is a boundary of characters. -/
def splitAtByte : List Char → Nat → Option (List Char × List Char)
  | text, 0 => some ([], text)
  | [], _ + 1 => none
  | c :: text, offset + 1 =>
    if c.utf8Size ≤ offset + 1 then
      (splitAtByte text (offset + 1 - c.utf8Size)).map fun parts => (c :: parts.1, parts.2)
    else none

/-- `&text[start..stop]`, which is no text where Rust would panic. -/
def slice (text : List Char) (start stop : Nat) : Option (List Char) :=
  (splitAtByte text stop).bind fun parts => (splitAtByte parts.1 start).map Prod.snd

theorem splitAtByte_append (text more : List Char) :
    splitAtByte (text ++ more) (encode text).length = some (text, more) := by
  induction text with
  | nil => cases more <;> rfl
  | cons c text ih =>
    have size := c.utf8Size_pos
    have length : (encode (c :: text)).length = c.utf8Size - 1 + (encode text).length + 1 := by
      rw [encode_cons, List.length_append, String.length_utf8EncodeChar]
      omega
    rw [length, List.cons_append, splitAtByte, if_pos (by omega)]
    have left : c.utf8Size - 1 + (encode text).length + 1 - c.utf8Size = (encode text).length := by omega
    rw [left, ih]
    rfl

theorem slice_append (before middle after : List Char) :
    slice (before ++ middle ++ after) (encode before).length (encode (before ++ middle)).length =
      some middle := by
  rw [slice, splitAtByte_append, Option.bind_some, splitAtByte_append]
  rfl

example : slice "aéb".toList 1 3 = some ['é'] := by decide
example : slice "aéb".toList 1 2 = none := by decide

end CodeSystemGraph.Utf8
