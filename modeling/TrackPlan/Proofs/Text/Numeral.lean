import Mathlib.Data.Nat.Init
import TrackPlan.Proofs.Lists
import TrackPlan.Text.Word

/-!
# Numerals read back

The digits of a number are read as the number, in base ten and in base sixteen, up to a character
that does not go on with them.
-/

namespace TrackPlan.Text

variable {n : Nat} {c : Char} {cs run rest : List Char} {p : Char → Bool}

/-- A run of characters is read up to a rest that does not go on with it. -/
theorem takeWhile_append_of_stop (h : ∀ c ∈ run, p c = true) (hr : ∀ c ∈ rest.head?, p c = false) :
    (run ++ rest).takeWhile p = run :=
  (takeWhile_dropWhile_iff.2 ⟨rfl, h, hr⟩).1

theorem dropWhile_append_of_stop (h : ∀ c ∈ run, p c = true) (hr : ∀ c ∈ rest.head?, p c = false) :
    (run ++ rest).dropWhile p = rest :=
  (takeWhile_dropWhile_iff.2 ⟨rfl, h, hr⟩).2

/-! ## Base ten -/

/-- The digits, one by one. -/
theorem mem_of_isDigit (h : c.isDigit = true) :
    c ∈ ['0', '1', '2', '3', '4', '5', '6', '7', '8', '9'] := by
  have hbounds : 48 ≤ c.toNat ∧ c.toNat ≤ 57 := by
    simpa [Char.isDigit, UInt32.le_iff_toNat_le] using h
  have hall : ∀ n ≤ 57, 48 ≤ n →
      Char.ofNat n ∈ ['0', '1', '2', '3', '4', '5', '6', '7', '8', '9'] := by decide
  have hc := hall c.toNat hbounds.2 hbounds.1
  rwa [Char.ofNat_toNat] at hc

/-- What holds of ten digits holds of every digit. -/
theorem all_digits {p : Char → Bool}
    (hp : ['0', '1', '2', '3', '4', '5', '6', '7', '8', '9'].all p = true)
    (h : c.isDigit = true) : p c = true :=
  List.all_eq_true.1 hp c (mem_of_isDigit h)

theorem ofNat_eq (n : Nat) : ofNat n = Nat.toDigits 10 n := by
  rw [ofNat, Nat.toList_repr]

theorem isDigit_of_mem_ofNat (h : c ∈ ofNat n) : c.isDigit = true := by
  rw [ofNat_eq] at h
  exact Nat.isDigit_of_mem_toDigits (by decide) (by decide) h

theorem ofNat_ne_nil (n : Nat) : ofNat n ≠ [] := by
  rw [ofNat_eq]
  exact Nat.toDigits_ne_nil

theorem exists_cons_ofNat (n : Nat) : ∃ c cs, ofNat n = c :: cs ∧ c.isDigit = true := by
  obtain ⟨c, cs, h⟩ := List.exists_cons_of_ne_nil (ofNat_ne_nil n)
  exact ⟨c, cs, h, isDigit_of_mem_ofNat (n := n) (by rw [h]; exact List.mem_cons_self)⟩

theorem decimal_ofNat (n : Nat) : decimal (ofNat n) = n := by
  have h := Nat.ofDigitChars_ten_toDigits (n := n)
  rw [Nat.ofDigitChars_eq_foldl] at h
  rw [ofNat_eq, decimal]
  simpa only [digitValue, Nat.mul_comm] using h

/-- Only zero begins with a zero. -/
theorem head?_ofNat (h : (ofNat n).head? = some '0') : ofNat n = ['0'] := by
  induction n using Nat.strong_induction_on with
  | _ n ih =>
    rw [ofNat_eq] at h ⊢
    by_cases hn : n < 10
    · rw [Nat.toDigits_of_lt_base hn] at h ⊢
      rw [List.head?_cons, Option.some.injEq] at h
      rw [h]
    · rw [Nat.toDigits_of_base_le (by decide) (by omega)] at h ⊢
      have hshort : (Nat.toDigits 10 (n / 10)).head? = some '0' := by
        rwa [List.head?_append_of_ne_nil _ Nat.toDigits_ne_nil] at h
      have hzero := ih (n / 10) (by omega)
      rw [ofNat_eq] at hzero
      have hvalue := decimal_ofNat (n / 10)
      rw [ofNat_eq, hzero hshort] at hvalue
      have : n / 10 = 0 := hvalue.symm
      omega

/-! ## Base sixteen -/

theorem hexValue?_digitChar (h : n < 16) : hexValue? (Nat.digitChar n) = some n := by
  have hall : ∀ n < 16, hexValue? (Nat.digitChar n) = some n := by decide
  exact hall n h

/-- The number of hexadecimal digits. -/
def hexadecimal? (cs : List Char) : Option Nat :=
  cs.foldlM (fun n c => (hexValue? c).map (n * 16 + ·)) 0

theorem hexadecimal?_toDigits (n : Nat) : hexadecimal? (Nat.toDigits 16 n) = some n := by
  induction n using Nat.strong_induction_on with
  | _ n ih =>
    unfold hexadecimal? at ih ⊢
    by_cases hn : n < 16
    · rw [Nat.toDigits_of_lt_base hn]
      simp [hexValue?_digitChar hn]
    · rw [Nat.toDigits_of_base_le (by decide) (by omega), List.foldlM_append, ih (n / 16) (by omega)]
      have hlast : n % 16 < 16 := Nat.mod_lt n (by decide)
      simp [hexValue?_digitChar hlast]
      omega

end TrackPlan.Text
