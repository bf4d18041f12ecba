import Mathlib.Data.List.Basic

/-!
# UTF-8 with replacement

The bytes of a string, and the decoder that puts `U+FFFD` in the place of whatever is not UTF-8. An
invalid part ends where no continuation could make it a character.
-/

namespace Utf8

def bytes (s : String) : List UInt8 := s.toList.flatMap String.utf8EncodeChar

/-- The character a byte string starts with. -/
def decodeChar? (bs : List UInt8) : Option Char := bs.toByteArray.utf8DecodeChar? 0

def isContinuation (b : UInt8) : Bool := 0x80 ≤ b && b ≤ 0xBF

/-- A lead byte of three and a second byte that can follow it. -/
def startsThree (b c : UInt8) : Bool :=
  (b == 0xE0 && 0xA0 ≤ c && c ≤ 0xBF) || (0xE1 ≤ b && b ≤ 0xEC && isContinuation c) ||
    (b == 0xED && 0x80 ≤ c && c ≤ 0x9F) || (0xEE ≤ b && b ≤ 0xEF && isContinuation c)

/-- A lead byte of four and a second byte that can follow it. -/
def startsFour (b c : UInt8) : Bool :=
  (b == 0xF0 && 0x90 ≤ c && c ≤ 0xBF) || (0xF1 ≤ b && b ≤ 0xF3 && isContinuation c) ||
    (b == 0xF4 && 0x80 ≤ c && c ≤ 0x8F)

/-- The length of the part that is replaced, when a byte string does not start with a character. -/
def invalidLen : List UInt8 → ℕ
  | b :: c :: d :: _ =>
    if startsFour b c then if isContinuation d then 3 else 2
    else if startsThree b c then 2 else 1
  | [b, c] => if startsFour b c || startsThree b c then 2 else 1
  | _ => 1

/-- The characters of a byte string, in at most `fuel` steps. -/
def lossyChars : ℕ → List UInt8 → List Char
  | 0, _ => []
  | _, [] => []
  | fuel + 1, b :: bs =>
    match decodeChar? (b :: bs) with
    | some c => c :: lossyChars fuel ((b :: bs).drop c.utf8Size)
    | none => '�' :: lossyChars fuel ((b :: bs).drop (invalidLen (b :: bs)))

def fromUtf8Lossy (bs : List UInt8) : String := String.ofList (lossyChars bs.length bs)

theorem decodeChar?_encode (c : Char) (rest : List UInt8) :
    decodeChar? (String.utf8EncodeChar c ++ rest) = some c := by
  rw [decodeChar?, List.toByteArray_append]
  exact ByteArray.utf8DecodeChar?_utf8EncodeChar_append

theorem lossyChars_encode (cs : List Char) {fuel : ℕ}
    (hfuel : (cs.flatMap String.utf8EncodeChar).length ≤ fuel) :
    lossyChars fuel (cs.flatMap String.utf8EncodeChar) = cs := by
  induction cs generalizing fuel with
  | nil => cases fuel <;> rfl
  | cons c cs ih =>
    have hsize := String.length_utf8EncodeChar c
    have hpos := c.utf8Size_pos
    rw [List.flatMap_cons, List.length_append] at hfuel
    rw [List.flatMap_cons]
    obtain ⟨fuel, rfl⟩ : ∃ n, fuel = n + 1 := ⟨fuel - 1, by omega⟩
    have hdecode := decodeChar?_encode c (cs.flatMap String.utf8EncodeChar)
    have hdrop : (String.utf8EncodeChar c ++ cs.flatMap String.utf8EncodeChar).drop c.utf8Size =
        cs.flatMap String.utf8EncodeChar := List.drop_left' hsize
    have hne : String.utf8EncodeChar c ++ cs.flatMap String.utf8EncodeChar ≠ [] := by
      intro hnil
      rw [(List.append_eq_nil_iff.mp hnil).1] at hsize
      exact Nat.lt_irrefl 0 (Nat.lt_of_lt_of_eq hpos hsize.symm)
    obtain ⟨b, bs, hcons⟩ := List.exists_cons_of_ne_nil hne
    rw [hcons] at hdecode hdrop ⊢
    rw [lossyChars, hdecode]
    show c :: lossyChars fuel ((b :: bs).drop c.utf8Size) = c :: cs
    rw [hdrop, ih (by omega)]

/-- **What is UTF-8 is decoded** without replacements. -/
theorem fromUtf8Lossy_bytes (s : String) : fromUtf8Lossy (bytes s) = s := by
  rw [fromUtf8Lossy, bytes, lossyChars_encode _ (Nat.le_refl _), String.ofList_toList]

/-- The strict decoder takes the bytes of a string, and nothing else. -/
theorem fromUTF8?_eq_some_iff {bs : List UInt8} {s : String} :
    String.fromUTF8? ⟨bs.toArray⟩ = some s ↔ s.toUTF8.data.toList = bs := by
  have hbytes : s.toUTF8.data.toList = bs ↔ s.toByteArray = ⟨bs.toArray⟩ := by
    rw [String.toUTF8_eq_toByteArray]
    constructor
    · rintro rfl
      rfl
    · intro h
      rw [h]
  rw [hbytes, String.fromUTF8?]
  split_ifs with hvalid
  · rw [Option.some_inj, ← String.toByteArray_inj, eq_comm]
    rfl
  · refine iff_of_false (fun h => nomatch h) fun h => ?_
    exact hvalid (h ▸ s.isValidUTF8)

theorem toUTF8_toList (s : String) : s.toUTF8.data.toList = bytes s := by
  rw [String.toUTF8_eq_toByteArray, ← String.utf8Encode_toList, List.utf8Encode, bytes]
  simp

theorem encode_of_isDigit {c : Char} (h : c.isDigit = true) :
    String.utf8EncodeChar c = [UInt8.ofNat c.toNat] := by
  have hle : c.toNat ≤ 57 := by
    simp [Char.isDigit, UInt32.le_iff_toNat_le] at h
    exact h.2
  rw [String.utf8EncodeChar]
  exact if_pos (Nat.le_trans hle (by decide))

end Utf8
