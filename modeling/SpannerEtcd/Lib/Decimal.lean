import Mathlib
import SpannerEtcd.Lib.Byte

/-!
# Decimal numerals

Digit strings, and the scanner that reads a signed 64-bit integer in the
syntax of integer literals: an optional sign, a base given by `0`, `0b`, `0o`
or `0x`, and single underscores between digits.
-/

namespace Decimal

abbrev Text := List (Fin 256)

def digit (n : Nat) : Fin 256 := Fin.ofNat 256 (48 + n % 10)

def isDigit (character : Fin 256) : Bool := 48 ≤ character.val && character.val ≤ 57

/-- The value of a character as a digit of a base up to sixteen. -/
def digitValue (character : Fin 256) : Option Nat :=
  let c := character.val
  if 48 ≤ c ∧ c ≤ 57 then some (c - 48)
  else if 97 ≤ c ∧ c ≤ 102 then some (c - 87)
  else if 65 ≤ c ∧ c ≤ 70 then some (c - 55)
  else none

def ofText (base : Nat) (text : Text) : Nat :=
  text.foldl (fun n character => n * base + (digitValue character).getD 0) 0

theorem digitValue_of_isDigit {character : Fin 256} (digits : isDigit character) :
    digitValue character = some (character.val - 48) := by
  simp only [isDigit, Bool.and_eq_true, decide_eq_true_eq] at digits
  simp [digitValue, digits]

theorem digit_val (n : Nat) : (digit n).val = 48 + n % 10 := by
  simp only [digit, Fin.ofNat]
  omega

@[simp]
theorem isDigit_digit (n : Nat) : isDigit (digit n) = true := by
  have upper := Nat.mod_lt n (show 10 > 0 by decide)
  simp [isDigit, digit_val]
  omega

@[simp]
theorem digitValue_digit (n : Nat) : digitValue (digit n) = some (n % 10) := by
  simp [digitValue_of_isDigit (isDigit_digit n), digit_val]

/-! ## Fixed width -/

/-- The last `width` decimal digits of a number. -/
def fixed : Nat → Nat → Text
  | 0, _ => []
  | width + 1, n => fixed width (n / 10) ++ [digit n]

@[simp]
theorem fixed_length (width n : Nat) : (fixed width n).length = width := by
  induction width generalizing n with
  | zero => rfl
  | succ width inductionHypothesis => simp [fixed, inductionHypothesis]

theorem fixed_isDigit (width n : Nat) : (fixed width n).all isDigit = true := by
  induction width generalizing n with
  | zero => rfl
  | succ width inductionHypothesis => simp [fixed, inductionHypothesis]

theorem ofText_fixed {width n : Nat} (fits : n < 10 ^ width) :
    ofText 10 (fixed width n) = n := by
  induction width generalizing n with
  | zero =>
      have : n = 0 := by simpa using fits
      simp [fixed, ofText, this]
  | succ width inductionHypothesis =>
      have shorter : n / 10 < 10 ^ width := by
        rw [Nat.pow_succ] at fits
        omega
      have leading := inductionHypothesis shorter
      simp only [ofText] at leading
      simp only [fixed, ofText, List.foldl_append, leading, List.foldl_cons, List.foldl_nil,
        digitValue_digit, Option.getD_some]
      omega

/-! ## Integer literals -/

def underscore : Fin 256 := 95

/-- Underscores separate digits; `afterDigit` tells whether one may come next. -/
def underscoreOK : Bool → Text → Bool
  | afterDigit, [] => afterDigit
  | afterDigit, character :: rest =>
      if character = underscore then afterDigit && underscoreOK false rest
      else underscoreOK true rest

def isDigitOf (base : Nat) (character : Fin 256) : Bool :=
  character = underscore || (digitValue character).any (· < base)

/-- The digits a text starts with; an underscore may come first only after the
letter that names the base. -/
def literal (base : Nat) (afterLetter : Bool) (text : Text) : Option Nat :=
  let token := text.takeWhile (isDigitOf base)
  if token.isEmpty || !underscoreOK afterLetter token then none
  else some (ofText base (token.filter (· ≠ underscore)))

def magnitude : Text → Option Nat
  | zero :: letter :: rest =>
      if zero = 48 then
        if letter = 98 || letter = 66 then literal 2 true rest
        else if letter = 111 || letter = 79 then literal 8 true rest
        else if letter = 120 || letter = 88 then literal 16 true rest
        else literal 8 false (zero :: letter :: rest)
      else literal 10 false (zero :: letter :: rest)
  | text => literal 10 false text

def isSpace (character : Fin 256) : Bool :=
  character = 32 || (9 ≤ character.val && character.val ≤ 13)

/-- Scan an `int64` at the start of a text, after blanks. -/
def sscan (text : Text) : Option Int :=
  match text.dropWhile isSpace with
  | [] => none
  | sign :: rest =>
      if sign = 45 then
        (magnitude rest).bind fun n => if n ≤ 2 ^ 63 then some (-n) else none
      else
        (magnitude (if sign = 43 then rest else sign :: rest)).bind fun n =>
          if n < 2 ^ 63 then some n else none

structure Canonical (digits : Text) : Prop where
  nonempty : digits ≠ []
  decimal : ∀ character ∈ digits, isDigit character = true
  noLeadingZero : digits.head? = some 48 → digits = [48]

inductive Numeral : Int → Text → Prop
  | natural {digits : Text} (canonical : Canonical digits) :
      Numeral (ofText 10 digits) digits
  | negative {digits : Text} (canonical : Canonical digits) :
      Numeral (-ofText 10 digits) (45 :: digits)

theorem numeral_digit (n : Fin 10) : Numeral n.val [digit n.val] := by
  have value : ofText 10 [digit n.val] = n.val := by
    simp [ofText, Nat.mod_eq_of_lt n.isLt]
  have canonical : Canonical [digit n.val] := ⟨by simp, by simp, by simp⟩
  simpa only [value] using Numeral.natural canonical

theorem ne_of_isDigit {character other : Fin 256} (digit : isDigit character = true)
    (outside : isDigit other = false) : character ≠ other := by
  intro same
  rw [same, outside] at digit
  cases digit

theorem not_isSpace_of_isDigit {character : Fin 256} (digit : isDigit character = true) :
    isSpace character = false := by
  simp only [isDigit, Bool.and_eq_true, decide_eq_true_eq] at digit
  have notBlank : character ≠ 32 := fun blank => by simp [blank] at digit
  simp [isSpace, notBlank]
  omega

theorem isDigitOf_ten {character : Fin 256} (digit : isDigit character = true) :
    isDigitOf 10 character = true := by
  have value := digitValue_of_isDigit digit
  simp only [isDigit, Bool.and_eq_true, decide_eq_true_eq] at digit
  simp [isDigitOf, value]
  omega

theorem underscoreOK_digits {digits : Text}
    (all : ∀ character ∈ digits, isDigit character = true) : underscoreOK true digits = true := by
  induction digits with
  | nil => rfl
  | cons head rest inductionHypothesis =>
      have notUnderscore : head ≠ underscore :=
        ne_of_isDigit (all head List.mem_cons_self) rfl
      simp only [underscoreOK, notUnderscore, if_false]
      exact inductionHypothesis fun character membership =>
        all character (List.mem_cons_of_mem _ membership)

theorem literal_canonical {digits : Text} (canonical : Canonical digits) :
    literal 10 false digits = some (ofText 10 digits) := by
  have token : digits.takeWhile (isDigitOf 10) = digits :=
    List.takeWhile_eq_self_iff.mpr fun character membership =>
      isDigitOf_ten (canonical.decimal character membership)
  have kept : digits.filter (· ≠ underscore) = digits :=
    List.filter_eq_self.mpr fun character membership => by
      simpa using ne_of_isDigit (canonical.decimal character membership) rfl
  have separated : underscoreOK false digits = true := by
    cases digits with
    | nil => exact absurd rfl canonical.nonempty
    | cons head rest =>
        have notUnderscore : head ≠ underscore :=
          ne_of_isDigit (canonical.decimal head List.mem_cons_self) rfl
        simp only [underscoreOK, notUnderscore, if_false]
        exact underscoreOK_digits fun character membership =>
          canonical.decimal character (List.mem_cons_of_mem _ membership)
  simp only [literal, token, kept, separated, List.isEmpty_iff, canonical.nonempty,
    Bool.not_true, Bool.or_false, if_false]

theorem magnitude_canonical {digits : Text} (canonical : Canonical digits) :
    magnitude digits = some (ofText 10 digits) := by
  have scanned := literal_canonical canonical
  match digits, canonical with
  | [], canonical => exact absurd rfl canonical.nonempty
  | [_], _ => exact scanned
  | head :: next :: rest, canonical =>
      have notZero : head ≠ 48 := fun zero =>
        absurd (canonical.noLeadingZero (by rw [zero]; rfl)) (by simp)
      simp only [magnitude, notZero, if_false]
      exact scanned

/-- A numeral in the range of `int64` scans to the integer it stands for. -/
theorem sscan_numeral {n : Int} {text : Text} (numeral : Numeral n text)
    (lower : -(2 ^ 63) ≤ n) (upper : n < 2 ^ 63) : sscan text = some n := by
  cases numeral with
  | natural canonical =>
      cases text with
      | nil => exact absurd rfl canonical.nonempty
      | cons head rest =>
          have digit := canonical.decimal head List.mem_cons_self
          have notMinus : head ≠ 45 := ne_of_isDigit digit rfl
          have notPlus : head ≠ 43 := ne_of_isDigit digit rfl
          have fits : ofText 10 (head :: rest) < 2 ^ 63 := by exact_mod_cast upper
          simp only [sscan, List.dropWhile_cons, not_isSpace_of_isDigit digit, Bool.false_eq_true,
            if_false, notMinus, notPlus, magnitude_canonical canonical, Option.bind_some,
            if_pos fits]
  | @negative digits canonical =>
      have fits : ofText 10 digits ≤ 2 ^ 63 := by omega
      simp only [sscan, List.dropWhile_cons, show isSpace 45 = false from rfl,
        Bool.false_eq_true, if_false, if_true, magnitude_canonical canonical, Option.bind_some,
        if_pos fits]

end Decimal
