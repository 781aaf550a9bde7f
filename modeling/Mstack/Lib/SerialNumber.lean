import Mathlib

/-!
# Serial numbers

Counters of `w` bits that only ever move forward, compared and subtracted
modulo `2 ^ w`.  A protocol counter is best read as *base plus offset*: the
base is fixed for the life of a connection, the offset is an unbounded count,
and the stored word is `base + BitVec.ofNat w n`.  The lemmas here move between
the three views: the word, the offset, and the natural number `toNat`, which
agree with each other only as long as nothing wraps.

### Where the views agree

* A **distance** between two words is the distance between their offsets as
  long as it fits the word (`toNat_add_ofNat_sub`), wherever the base is.  Code
  that subtracts before it compares is safe at the wrap.
* The **order** of two words is the order of their offsets only where neither
  wraps (`toNat_add_ofNat`, `toNat_add_cases`).  Code that compares words
  directly is right up to the wrap and wrong behind it.
* **Equality** of two words is equality of offsets as long as no full turn lies
  between them (`add_ofNat_ne_self`).

### Clamping

`clamp` is the standard library's `clamp`, including its value when the two
bounds are crossed.  Clamping is made of comparisons, so it is a place where
the base can be seen; `clamp_add` says exactly which comparisons have to come
out the same for it to move along with its arguments, and `clamp_between` what
holds of it for all arguments, crossed bounds included.
-/

namespace SerialNumber

variable {w : ℕ}

/-- Advancing twice is advancing by the sum. -/
theorem add_ofNat_add (x : BitVec w) (m n : ℕ) :
    x + BitVec.ofNat w m + BitVec.ofNat w n = x + BitVec.ofNat w (m + n) := by
  rw [BitVec.ofNat_add, BitVec.add_assoc]

/-- The distance between two offsets of one base; the base cancels. -/
theorem add_ofNat_sub (x : BitVec w) {m n : ℕ} (h : m ≤ n) :
    (x + BitVec.ofNat w n) - (x + BitVec.ofNat w m) = BitVec.ofNat w (n - m) := by
  obtain ⟨k, rfl⟩ := Nat.exists_eq_add_of_le h
  rw [← add_ofNat_add, Nat.add_sub_cancel_left, BitVec.add_comm _ (BitVec.ofNat w k),
    BitVec.add_sub_cancel]

/-- The distance between two offsets as a number, when it fits the word. -/
theorem toNat_add_ofNat_sub (x : BitVec w) {m n : ℕ} (h : m ≤ n) (hlt : n - m < 2 ^ w) :
    ((x + BitVec.ofNat w n) - (x + BitVec.ofNat w m)).toNat = n - m := by
  rw [add_ofNat_sub x h, BitVec.toNat_ofNat, Nat.mod_eq_of_lt hlt]

/-- As long as the sum does not wrap, the word is the sum. -/
theorem toNat_add_ofNat (x : BitVec w) {n : ℕ} (h : x.toNat + n < 2 ^ w) :
    (x + BitVec.ofNat w n).toNat = x.toNat + n := by
  rw [BitVec.toNat_add, BitVec.toNat_ofNat, Nat.add_mod_mod, Nat.mod_eq_of_lt h]

/-- One step forward is one more, unless the counter wraps. -/
theorem toNat_add_one (x : BitVec w) (h : x.toNat + 1 < 2 ^ w) :
    (x + 1).toNat = x.toNat + 1 :=
  toNat_add_ofNat x (n := 1) h

/-- **A counter meets its base again only after a full turn.**  Within a turn,
a word that has moved is not the word it was. -/
theorem add_ofNat_ne_self (x : BitVec w) {n : ℕ} (hpos : 0 < n) (hlt : n < 2 ^ w) :
    x + BitVec.ofNat w n ≠ x := by
  intro h
  have hzero : BitVec.ofNat w n = 0#w := add_eq_left.mp h
  have hmod := congrArg BitVec.toNat hzero
  simp only [BitVec.toNat_ofNat, Nat.mod_eq_of_lt hlt, Nat.zero_mod] at hmod
  omega

/-- `std::clamp`: the larger of `v` and `lo`, then the smaller of that and
`hi`.  The contract of the standard asks for `lo ≤ hi`; with crossed bounds
this is the value the usual implementation returns. -/
def clamp (v lo hi : BitVec w) : BitVec w :=
  let m := if v < lo then lo else v
  if hi < m then hi else m

/-- A value within its bounds is left alone. -/
theorem clamp_of_le {v lo hi : BitVec w} (hlo : lo ≤ v) (hhi : v ≤ hi) :
    clamp v lo hi = v := by
  have hlo' : ¬ v < lo := BitVec.not_lt.mpr hlo
  have hhi' : ¬ hi < v := BitVec.not_lt.mpr hhi
  simp only [clamp, if_neg hlo', if_neg hhi']

/-- A value below its bounds is raised to the lower one. -/
theorem clamp_of_lt {v lo hi : BitVec w} (hlo : v < lo) (h : lo ≤ hi) :
    clamp v lo hi = lo := by
  have hhi' : ¬ hi < lo := BitVec.not_lt.mpr h
  simp only [clamp, if_pos hlo, if_neg hhi']

/-- A value above its bounds is lowered to the upper one. -/
theorem clamp_of_gt {v lo hi : BitVec w} (hhi : hi < v) (h : lo ≤ hi) :
    clamp v lo hi = hi := by
  have hlo' : ¬ v < lo := fun hv => by
    rw [BitVec.lt_def] at hv hhi
    rw [BitVec.le_def] at h
    omega
  simp only [clamp, if_neg hlo', if_pos hhi]

/-- Where the bounds meet there is no choice: the value is the bound. -/
theorem clamp_self (v x : BitVec w) : clamp v x x = x := by
  unfold clamp
  dsimp only
  split_ifs with hlo hhi hhi
  · rfl
  · rfl
  · rfl
  · exact BitVec.le_antisymm (BitVec.not_lt.mp hhi) (BitVec.not_lt.mp hlo)

/-- **A clamped value lies between its bounds**, going forward from the lower
one, even where the bounds are crossed: the two parts of the way add up to the
whole. -/
theorem clamp_between (v lo hi : BitVec w) :
    (clamp v lo hi - lo).toNat + (hi - clamp v lo hi).toNat = (hi - lo).toNat := by
  have hcases : clamp v lo hi = lo ∨ clamp v lo hi = hi ∨ (lo ≤ clamp v lo hi ∧
      clamp v lo hi ≤ hi) := by
    unfold clamp
    dsimp only
    split_ifs with hlo hhi hhi
    · exact .inr (.inl rfl)
    · exact .inl rfl
    · exact .inr (.inl rfl)
    · exact .inr (.inr ⟨BitVec.not_lt.mp hlo, BitVec.not_lt.mp hhi⟩)
  rcases hcases with h | h | ⟨hlo, hhi⟩
  · rw [h, BitVec.sub_self]; simp
  · rw [h, BitVec.sub_self]; simp
  · rw [BitVec.toNat_sub_of_le hlo, BitVec.toNat_sub_of_le hhi,
      BitVec.toNat_sub_of_le (BitVec.le_trans hlo hhi)]
    rw [BitVec.le_def] at hlo hhi
    omega

/-! ## Translation

Moving all numbers by one amount keeps their distances, but the order of
`toNat` only as long as the move carries none of them over the end of the word. -/

theorem add_sub_add (x y s : BitVec w) : (x + s) - (y + s) = x - y :=
  add_sub_add_right_eq_sub x y s

/-- A sum wraps at most once, and when it does it is `2 ^ w` too small. -/
theorem toNat_add_cases (x s : BitVec w) :
    (x.toNat + s.toNat < 2 ^ w ∧ (x + s).toNat = x.toNat + s.toNat) ∨
      (2 ^ w ≤ x.toNat + s.toNat ∧ (x + s).toNat + 2 ^ w = x.toNat + s.toNat) := by
  have hx := x.isLt
  have hs := s.isLt
  rw [BitVec.toNat_add]
  by_cases hlt : x.toNat + s.toNat < 2 ^ w
  · exact .inl ⟨hlt, Nat.mod_eq_of_lt hlt⟩
  · rw [Nat.mod_eq_sub_mod (by omega), Nat.mod_eq_of_lt (by omega)]
    exact .inr ⟨by omega, by omega⟩

/-- **`clamp` moves along with its arguments** where neither the order of the
bounds nor the comparison with the upper one changes. -/
theorem clamp_add {v lo hi s : BitVec w} (h : lo ≤ hi) (h' : lo + s ≤ hi + s)
    (hgt : hi < v ↔ hi + s < v + s) : clamp (v + s) (lo + s) (hi + s) = clamp v lo hi + s := by
  by_cases hv : hi < v
  · rw [clamp_of_gt hv h, clamp_of_gt (hgt.mp hv) h']
  · have hv' : ¬ hi + s < v + s := fun hlt => hv (hgt.mpr hlt)
    have hcv := toNat_add_cases v s
    have hclo := toNat_add_cases lo s
    have hchi := toNat_add_cases hi s
    have hlt := (hi + s).isLt
    rw [BitVec.not_lt, BitVec.le_def] at hv hv'
    rw [BitVec.le_def] at h h'
    by_cases hlo : v < lo
    · have hlo' : v + s < lo + s := by
        rw [BitVec.lt_def] at hlo ⊢
        omega
      rw [clamp_of_lt hlo (BitVec.le_def.mpr h), clamp_of_lt hlo' (BitVec.le_def.mpr h')]
    · have hlo' : lo + s ≤ v + s := by
        rw [BitVec.not_lt, BitVec.le_def] at hlo
        rw [BitVec.le_def]
        omega
      rw [clamp_of_le (BitVec.not_lt.mp hlo) (BitVec.le_def.mpr hv),
        clamp_of_le hlo' (BitVec.le_def.mpr hv')]

end SerialNumber
