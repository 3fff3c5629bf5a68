import Mathlib
import SpannerEtcd.Lib.Byte

/-!
# Base64

The standard alphabet with padding.  The decoder skips line breaks, and of a
malformed text it keeps the groups of four characters before the malformed
one.
-/

namespace Base64

abbrev Text := List (Fin 256)

def pad : Fin 256 := 61

def digit (n : Fin 64) : Fin 256 :=
  Fin.ofNat 256 <|
    if n.val < 26 then n.val + 65
    else if n.val < 52 then n.val + 71
    else if n.val < 62 then n.val - 4
    else if n.val = 62 then 43
    else 47

def digitValue (character : Fin 256) : Option (Fin 64) :=
  let c := character.val
  if 65 ≤ c ∧ c ≤ 90 then some (Fin.ofNat 64 (c - 65))
  else if 97 ≤ c ∧ c ≤ 122 then some (Fin.ofNat 64 (c - 71))
  else if 48 ≤ c ∧ c ≤ 57 then some (Fin.ofNat 64 (c + 4))
  else if c = 43 then some 62
  else if c = 47 then some 63
  else none

@[simp]
theorem digitValue_digit (n : Fin 64) : digitValue (digit n) = some n := by
  revert n
  decide

@[simp]
theorem digit_ne_pad (n : Fin 64) : digit n ≠ pad := by
  revert n
  decide

/-! Three bytes are four digits of six bits. -/

def sextet₀ (a : Fin 256) : Fin 64 := Fin.ofNat 64 (a.val / 4)

def sextet₁ (a b : Fin 256) : Fin 64 := Fin.ofNat 64 (a.val % 4 * 16 + b.val / 16)

def sextet₂ (b c : Fin 256) : Fin 64 := Fin.ofNat 64 (b.val % 16 * 4 + c.val / 64)

def sextet₃ (c : Fin 256) : Fin 64 := Fin.ofNat 64 c.val

def octet₀ (x y : Fin 64) : Fin 256 := Fin.ofNat 256 (x.val * 4 + y.val / 16)

def octet₁ (y z : Fin 64) : Fin 256 := Fin.ofNat 256 (y.val * 16 + z.val / 4)

def octet₂ (z w : Fin 64) : Fin 256 := Fin.ofNat 256 (z.val * 64 + w.val)

@[simp]
theorem octet₀_sextets (a b : Fin 256) : octet₀ (sextet₀ a) (sextet₁ a b) = a := by
  apply Fin.ext
  simp only [octet₀, sextet₀, sextet₁, Fin.ofNat]
  omega

@[simp]
theorem octet₁_sextets (a b c : Fin 256) : octet₁ (sextet₁ a b) (sextet₂ b c) = b := by
  apply Fin.ext
  simp only [octet₁, sextet₁, sextet₂, Fin.ofNat]
  omega

@[simp]
theorem octet₂_sextets (b c : Fin 256) : octet₂ (sextet₂ b c) (sextet₃ c) = c := by
  apply Fin.ext
  simp only [octet₂, sextet₂, sextet₃, Fin.ofNat]
  omega

def encode : Text → Text
  | [] => []
  | [a] => [digit (sextet₀ a), digit (sextet₁ a 0), pad, pad]
  | [a, b] => [digit (sextet₀ a), digit (sextet₁ a b), digit (sextet₂ b 0), pad]
  | a :: b :: c :: rest =>
      digit (sextet₀ a) :: digit (sextet₁ a b) :: digit (sextet₂ b c) :: digit (sextet₃ c) ::
        encode rest

theorem encode_eq_nil_iff {bytes : Text} : encode bytes = [] ↔ bytes = [] := by
  fun_cases encode bytes <;> simp

/-- Decode a text without line breaks. -/
def decodeGroups : Text → Text
  | a :: b :: c :: d :: rest =>
      match digitValue a, digitValue b with
      | some x, some y =>
        if c = pad then
          if d = pad then [octet₀ x y] else []
        else
          match digitValue c with
          | none => []
          | some z =>
            if d = pad then [octet₀ x y, octet₁ y z]
            else
              match digitValue d with
              | none => []
              | some w => octet₀ x y :: octet₁ y z :: octet₂ z w :: decodeGroups rest
      | _, _ => []
  | _ => []

def isLineBreak (character : Fin 256) : Bool := character = 10 || character = 13

def decode (text : Text) : Text :=
  decodeGroups (text.filter fun character => !isLineBreak character)

theorem digit_not_lineBreak (n : Fin 64) : isLineBreak (digit n) = false := by
  revert n
  decide

theorem pad_not_lineBreak : isLineBreak pad = false := rfl

theorem encode_not_lineBreak (bytes : Text) :
    ∀ character ∈ encode bytes, isLineBreak character = false := by
  fun_induction encode bytes with
  | case1 => simp
  | case2 | case3 => simp [digit_not_lineBreak, pad_not_lineBreak]
  | case4 a b c rest inductionHypothesis => simpa [digit_not_lineBreak] using inductionHypothesis

theorem decodeGroups_encode (bytes : Text) : decodeGroups (encode bytes) = bytes := by
  fun_induction encode bytes with
  | case1 => rfl
  | case2 | case3 => simp [decodeGroups]
  | case4 a b c rest inductionHypothesis => simp [decodeGroups, inductionHypothesis]

@[simp]
theorem decode_encode (bytes : Text) : decode (encode bytes) = bytes := by
  have unbroken : (encode bytes).filter (fun character => !isLineBreak character) =
      encode bytes :=
    List.filter_eq_self.mpr fun character membership => by
      simp [encode_not_lineBreak bytes character membership]
  rw [decode, unbroken, decodeGroups_encode]

end Base64
