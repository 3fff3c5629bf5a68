import SpannerEtcd.Lib.Byte
import SpannerEtcd.Lib.Runs

/-!
# UTF-8

A text is read byte by byte.  The first byte of a character tells how many
bytes follow, and bounds the next one where the form would otherwise be
overlong, a surrogate or beyond the last character.
-/

namespace Utf8

/-- How many bytes of a character are missing, and the bounds of the next
one. -/
structure Expected where
  missing : Nat
  low : Fin 256
  high : Fin 256

/-- Between two characters, or with these many bytes missing. -/
def Expected.tails (missing : Nat) : Expected := ⟨missing, 0x80, 0xBF⟩

def first (byte : Fin 256) : Option Expected :=
  if byte < 0x80 then some (.tails 0)
  else if byte < 0xC2 then none
  else if byte < 0xE0 then some (.tails 1)
  else if byte < 0xF0 then
    some ⟨2, if byte = 0xE0 then 0xA0 else 0x80, if byte = 0xED then 0x9F else 0xBF⟩
  else if byte < 0xF5 then
    some ⟨3, if byte = 0xF0 then 0x90 else 0x80, if byte = 0xF4 then 0x8F else 0xBF⟩
  else none

def step (expected : Expected) (byte : Fin 256) : Option Expected :=
  match expected.missing with
  | 0 => first byte
  | missing + 1 =>
      if 0x80 ≤ byte ∧ expected.low ≤ byte ∧ byte ≤ expected.high then some (.tails missing)
      else none

/-- The bytes are the characters of a text, and none is cut off. -/
def valid (text : List (Fin 256)) : Bool :=
  (Runs.run step (.tails 0) text).any fun expected => decide (expected.missing = 0)

theorem valid_iff {text : List (Fin 256)} :
    valid text = true ↔ ∃ expected, Runs.run step (.tails 0) text = some expected ∧
      expected.missing = 0 := by
  simp [valid, Option.any_eq_true]

theorem valid_concat_iff {text : List (Fin 256)} {byte : Fin 256} :
    valid (text ++ [byte]) = true ↔ ∃ before after,
      Runs.run step (.tails 0) text = some before ∧ step before byte = some after ∧
        after.missing = 0 := by
  simp only [valid_iff, Runs.run_append_eq_some, Runs.run_cons_eq_some, Runs.run_nil]
  constructor
  · rintro ⟨after, ⟨before, ran, next, stepped, same⟩, complete⟩
    exact ⟨before, after, ran, Option.some.inj same ▸ stepped, complete⟩
  · rintro ⟨before, after, ran, stepped, complete⟩
    exact ⟨after, ⟨before, ran, after, stepped, rfl⟩, complete⟩

/-- A first byte completes its character only if it is one of the first 128. -/
theorem lt_of_first {byte : Fin 256} {expected : Expected} (read : first byte = some expected)
    (complete : expected.missing = 0) : byte < 0x80 := by
  by_contra beyond
  simp only [first, beyond, if_false] at read
  split_ifs at read
  all_goals
    cases Option.some.inj read
    cases complete

theorem valid_concat_of_lt {text : List (Fin 256)} {byte : Fin 256} (single : byte < 0x80) :
    valid (text ++ [byte]) = true ↔ valid text = true := by
  rw [valid_concat_iff, valid_iff]
  constructor
  · rintro ⟨before, after, ran, stepped, -⟩
    refine ⟨before, ran, ?_⟩
    unfold step at stepped
    split at stepped
    next complete => exact complete
    next => simp [not_le.mpr single] at stepped
  · rintro ⟨before, ran, complete⟩
    refine ⟨before, .tails 0, ran, ?_, rfl⟩
    simp only [step, complete, first, single, if_true]

/-- Of a text without its last byte a text is left exactly if that byte was a
character of its own. -/
theorem valid_front_iff {text : List (Fin 256)} {byte : Fin 256}
    (whole : valid (text ++ [byte]) = true) : valid text = true ↔ byte < 0x80 := by
  constructor
  · intro front
    obtain ⟨expected, reached, complete⟩ := valid_iff.mp front
    obtain ⟨before, after, ran, stepped, finished⟩ := valid_concat_iff.mp whole
    obtain rfl := Option.some.inj (ran.symm.trans reached)
    simp only [step, complete] at stepped
    exact lt_of_first stepped finished
  · intro single
    exact (valid_concat_of_lt single).mp whole

example : valid [0xC3, 0xA9] = true ∧ valid [0xC3] = false := by decide

end Utf8
