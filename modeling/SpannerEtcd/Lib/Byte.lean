import Mathlib

/-!
# Bytes

Texts are lists of numbers below 256.  Literals and conversions of such
numbers rest on the one instance below.
-/

instance neZero_byte : NeZero 256 := ⟨by decide⟩

theorem byte_covBy_iff {byte next : Fin 256} : byte ⋖ next ↔ byte < 255 ∧ next = byte + 1 := by
  have successor : byte.val < 255 → (byte + 1).val = byte.val + 1 :=
    fun below => Fin.val_add_one_of_lt' (Nat.succ_lt_succ below)
  rw [Fin.covBy_iff, Nat.covBy_iff_add_one_eq]
  constructor
  · intro follows
    have below : byte.val < 255 := by omega
    exact ⟨below, Fin.ext ((successor below).trans follows).symm⟩
  · rintro ⟨below, rfl⟩
    exact (successor below).symm
