import Mathlib.Data.List.Basic

/-!
# References

A ledger reference is a text built from a prefix, ids in decimal and colons. Ids hold no colon,
so a text of two of them is read back in one way.
-/

namespace Lib

namespace Reference

theorem colon_notMem (n : ℕ) : ':' ∉ (toString n).toList := by
  intro h
  have hdigits : (toString n).toList = Nat.toDigits 10 n := Nat.toList_repr
  rw [hdigits] at h
  have hdigit := Nat.isDigit_of_mem_toDigits (by decide) (by decide) h
  revert hdigit
  decide

theorem toString_inj {m n : ℕ} (h : (toString m).toList = (toString n).toList) : m = n := by
  have hdigits : Nat.toDigits 10 m = Nat.toDigits 10 n := by
    simpa only [Nat.toString_eq_repr, Nat.toList_repr] using h
  calc m = Nat.ofDigitChars 10 (Nat.toDigits 10 m) 0 := Nat.ofDigitChars_ten_toDigits.symm
    _ = Nat.ofDigitChars 10 (Nat.toDigits 10 n) 0 := by rw [hdigits]
    _ = n := Nat.ofDigitChars_ten_toDigits

/-- **Two ids joined by a colon are two ids.** -/
theorem pair_inj {i j m n : ℕ}
    (h : toString i ++ (":" ++ toString m) = toString j ++ (":" ++ toString n)) :
    i = j ∧ m = n := by
  have hlist : (toString i).toList ++ ':' :: (toString m).toList =
      (toString j).toList ++ ':' :: (toString n).toList := by
    have := congrArg String.toList h
    simpa only [String.toList_append, show (":" : String).toList = [':'] from rfl,
      List.singleton_append] using this
  obtain ⟨hi, -, hm⟩ := (List.append_cons_inj_of_notMem (colon_notMem i) (colon_notMem m)).mp hlist
  exact ⟨toString_inj hi, toString_inj hm⟩

end Reference

end Lib
