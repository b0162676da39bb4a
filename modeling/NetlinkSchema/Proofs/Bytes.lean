import NetlinkSchema.Text
import Mathlib.Tactic.Ring

/-!
# Bytes and numbers

A buffer is read as a number and written back without loss in both byte orders, and the
lexicographic order of byte strings is total. The first is what makes a number on the wire exact;
the second is what gives an object with sorted fields one form only.

## Theorems

* `Bytes.toNatLittle_lt`: A buffer of `n` bytes is a number below `256 ^ n`.
* `Bytes.toNatLittle_ofNatLittle`: The bytes of a number read as its low part.
* `Bytes.ofNatLittle_toNatLittle`: The number of a buffer is written as that buffer.
* `Bytes.le_antisymm`, `Bytes.le_trans`, `Bytes.le_total`: The order of byte strings is total.
-/

namespace NetlinkSchema

namespace Bytes

theorem toNatLittle_lt (b : Bytes) : toNatLittle b < 256 ^ b.length := by
  induction b with
  | nil => simp [toNatLittle]
  | cons x rest ih =>
      have hx := x.toNat_lt
      simp only [toNatLittle, List.length_cons, pow_succ]
      omega

theorem toNatLittle_ofNatLittle (size n : Nat) :
    toNatLittle (ofNatLittle size n) = n % 256 ^ size := by
  induction size generalizing n with
  | zero => simp [ofNatLittle, toNatLittle, Nat.mod_one]
  | succ size ih =>
      simp only [ofNatLittle, toNatLittle, ih, UInt8.toNat_ofNat']
      -- The low byte and the rest are the two halves of the remainder.
      rw [show (256 : Nat) ^ (size + 1) = 256 * 256 ^ size by ring, Nat.mod_mul]

theorem ofNatLittle_toNatLittle (b : Bytes) : ofNatLittle b.length (toNatLittle b) = b := by
  induction b with
  | nil => rfl
  | cons x rest ih =>
      have hx := x.toNat_lt
      have hlow : UInt8.ofNat (x.toNat + 256 * toNatLittle rest) = x := by
        apply UInt8.toNat_inj.1
        rw [UInt8.toNat_ofNat']
        omega
      have hhigh : (x.toNat + 256 * toNatLittle rest) / 256 = toNatLittle rest := by omega
      simp only [List.length_cons, toNatLittle, ofNatLittle, hlow, hhigh, ih]

theorem toNatBig_lt (b : Bytes) : toNatBig b < 256 ^ b.length := by
  have h := toNatLittle_lt b.reverse
  rwa [List.length_reverse] at h

theorem toNatBig_ofNatBig (size n : Nat) : toNatBig (ofNatBig size n) = n % 256 ^ size := by
  rw [toNatBig, ofNatBig, List.reverse_reverse, toNatLittle_ofNatLittle]

theorem ofNatBig_toNatBig (b : Bytes) : ofNatBig b.length (toNatBig b) = b := by
  rw [ofNatBig, toNatBig, ← List.length_reverse, ofNatLittle_toNatLittle, List.reverse_reverse]

@[simp] theorem length_zeros (n : Nat) : (zeros n).length = n := by simp [zeros]

theorem zeros_add (m n : Nat) : zeros (m + n) = zeros m ++ zeros n :=
  List.replicate_append_replicate.symm

theorem toNatLittle_zeros (n : Nat) : toNatLittle (zeros n) = 0 := by
  induction n with
  | zero => rfl
  | succ n ih => rw [zeros, List.replicate_succ, toNatLittle, ← zeros, ih]; rfl

theorem toNatBig_zeros (n : Nat) : toNatBig (zeros n) = 0 := by
  rw [toNatBig, zeros, List.reverse_replicate, ← zeros, toNatLittle_zeros]

/-- Writing as many bytes as the buffer has replaces all of it. -/
theorem overwrite_of_length_eq {buffer new : Bytes} (h : new.length = buffer.length) :
    overwrite buffer new = new := by
  rw [overwrite, ← h, List.take_length, h, List.drop_length, List.append_nil]

theorem le_total (a b : Bytes) : le a b = true ∨ le b a = true := by
  induction a generalizing b with
  | nil => exact Or.inl (by simp [le])
  | cons x xs ih =>
      cases b with
      | nil => exact Or.inr (by simp [le])
      | cons y ys =>
          simp only [le, Bool.or_eq_true, Bool.and_eq_true, decide_eq_true_eq, beq_iff_eq]
          by_cases hxy : x = y
          · rcases ih ys with h | h
            · exact Or.inl (Or.inr ⟨hxy, h⟩)
            · exact Or.inr (Or.inr ⟨hxy.symm, h⟩)
          · rcases UInt8.lt_or_lt_of_ne hxy with h | h
            · exact Or.inl (Or.inl h)
            · exact Or.inr (Or.inl h)

theorem le_antisymm {a b : Bytes} (hab : le a b = true) (hba : le b a = true) : a = b := by
  induction a generalizing b with
  | nil =>
      cases b with
      | nil => rfl
      | cons y ys => simp [le] at hba
  | cons x xs ih =>
      cases b with
      | nil => simp [le] at hab
      | cons y ys =>
          simp only [le, Bool.or_eq_true, Bool.and_eq_true, decide_eq_true_eq, beq_iff_eq]
            at hab hba
          rcases hab with hlt | ⟨rfl, hab⟩
          · -- The first bytes cannot be in both strict orders, nor equal.
            rcases hba with hgt | ⟨rfl, _⟩
            · exact absurd hgt (UInt8.lt_asymm hlt)
            · exact absurd hlt (UInt8.lt_irrefl _)
          · rcases hba with hgt | ⟨_, hba⟩
            · exact absurd hgt (UInt8.lt_irrefl _)
            · rw [ih hab hba]

theorem le_trans {a b c : Bytes} (hab : le a b = true) (hbc : le b c = true) :
    le a c = true := by
  induction a generalizing b c with
  | nil => simp [le]
  | cons x xs ih =>
      cases b with
      | nil => simp [le] at hab
      | cons y ys =>
          cases c with
          | nil => simp [le] at hbc
          | cons z zs =>
              simp only [le, Bool.or_eq_true, Bool.and_eq_true, decide_eq_true_eq, beq_iff_eq]
                at hab hbc ⊢
              rcases hab with hxy | ⟨rfl, hab⟩
              · rcases hbc with hyz | ⟨rfl, _⟩
                · exact Or.inl (UInt8.lt_trans hxy hyz)
                · exact Or.inl hxy
              · rcases hbc with hyz | ⟨rfl, hbc⟩
                · exact Or.inl hyz
                · exact Or.inr ⟨rfl, ih hab hbc⟩

end Bytes

end NetlinkSchema
