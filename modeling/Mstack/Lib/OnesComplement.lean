import Mathlib

/-!
# One's-complement sums of 16-bit words

The checksum of the Internet protocols adds the 16-bit words of a message with
an end-around carry.  A message **verifies** when the sum over all its words,
checksum field included, is `0xFFFF`.

* `add`, `sum` — addition with end-around carry, and the sum of a list of
  words.
* `wordsBE`, `wordsLE` — a byte string cut into words of either byte order; a
  last odd byte is padded with a zero byte *after* it.
* `swap_eq_sum` — a folded native sum, with its two bytes exchanged, *is* the
  sum of the big-endian words.
* `fill_verifies` — writing the complement of the folded sum into a zeroed
  field makes the message verify.

### Why the byte order does not matter

The sum is arithmetic modulo `0xFFFF`, where `256` times `256` is one.
Changing the byte order of every word multiplies the residue by `256`
(`wordsBE_modEq`), and exchanging the two bytes of the result multiplies it by
`256` again.  That is why a program may sum in the order of its host.

### What is load-bearing

A sum is determined by its residue modulo `0xFFFF` except that both `0` and
`0xFFFF` stand for residue `0`; `eq_of_modEq` says that nothing else is lost,
and `sum_eq_top` separates the two: the sum is `0xFFFF` as soon as some word is
not zero.  Every use of the residue therefore carries a second fact, about
which of the two zeros is meant.  Without it a checksum could be off by the
sign of zero, which some receivers tell apart.

Nothing is said here about the width of an accumulator.  A program that adds
native words in 32 bits and folds afterwards has to show that the native sum
fits; `wordsLE_sum_le` bounds it and `wordsLE_sum_replicate` attains the bound.
-/

namespace OnesComplement

/-- Addition of 16-bit words with end-around carry: what overflows is added at
the low end. -/
def add (a b : ℕ) : ℕ := if a + b < 65536 then a + b else a + b - 65535

/-- The one's-complement sum of a list of words. -/
def sum (ws : List ℕ) : ℕ := ws.foldl add 0

/-- The words of a byte string, most significant byte first. -/
def wordsBE : List (BitVec 8) → List ℕ
  | [] => []
  | [b] => [256 * b.toNat]
  | b :: c :: bs => (256 * b.toNat + c.toNat) :: wordsBE bs

/-- The words of a byte string, least significant byte first. -/
def wordsLE : List (BitVec 8) → List ℕ
  | [] => []
  | [b] => [b.toNat]
  | b :: c :: bs => (b.toNat + 256 * c.toNat) :: wordsLE bs

/-! ## The sum and its residue

A left fold, whose accumulator stays a 16-bit number. -/

/-- The carry comes around as one, so that the residue is that of the plain
sum. -/
theorem add_modEq (a b : ℕ) : add a b ≡ a + b [MOD 65535] := by
  unfold add
  split
  · rfl
  · rename_i h
    apply (Nat.modEq_iff_dvd' (Nat.sub_le _ _)).mpr
    exact ⟨1, by omega⟩

/-- The accumulator stays in 16 bits, has the residue of what was added, and is
zero only when all of it was.  The induction carries all three: the third needs
the first at every step. -/
theorem foldl_add (ws : List ℕ) (acc : ℕ) (hacc : acc ≤ 65535)
    (hws : ∀ w ∈ ws, w ≤ 65535) :
    ws.foldl add acc ≤ 65535 ∧ ws.foldl add acc ≡ acc + ws.sum [MOD 65535] ∧
      (ws.foldl add acc = 0 ↔ acc + ws.sum = 0) := by
  induction ws generalizing acc with
  | nil => exact ⟨hacc, by simp [Nat.ModEq], by simp⟩
  | cons w ws ih =>
      have hw := hws w List.mem_cons_self
      have hle : add acc w ≤ 65535 := by unfold add; split <;> omega
      have hzero : add acc w = 0 ↔ acc + w = 0 := by unfold add; split <;> omega
      obtain ⟨hbound, hmod, hiff⟩ :=
        ih (add acc w) hle fun v hv => hws v (List.mem_cons_of_mem w hv)
      refine ⟨hbound, ?_, ?_⟩
      · calc ws.foldl add (add acc w)
            ≡ add acc w + ws.sum [MOD 65535] := hmod
          _ ≡ acc + w + ws.sum [MOD 65535] := (add_modEq acc w).add_right _
          _ = acc + (w :: ws).sum := by rw [List.sum_cons]; omega
      · rw [List.foldl_cons, hiff, List.sum_cons]
        omega

/-- The residue, and whether the value is zero, determine a one's-complement
sum: the two representations of residue zero are told apart by the second. -/
theorem eq_of_modEq {a b : ℕ} (ha : a ≤ 65535) (hb : b ≤ 65535) (hmod : a ≡ b [MOD 65535])
    (hzero : a = 0 ↔ b = 0) : a = b := by
  have heq : a % 65535 = b % 65535 := hmod
  omega

/-- A sum with residue zero is `0xFFFF`, unless every word is zero. -/
theorem sum_eq_top {ws : List ℕ} (hws : ∀ w ∈ ws, w ≤ 65535) (hpos : 0 < ws.sum)
    (hdvd : 65535 ∣ ws.sum) : sum ws = 0xFFFF := by
  obtain ⟨hle, hmod, hzero⟩ := foldl_add ws 0 (by omega) hws
  rw [Nat.zero_add] at hmod hzero
  have hne : sum ws ≠ 0 := fun h => by rw [hzero.mp h] at hpos; omega
  have hsum : 65535 ∣ sum ws := (Nat.modEq_zero_iff_dvd.mp
    (hmod.trans (Nat.modEq_zero_iff_dvd.mpr hdvd)))
  exact Nat.le_antisymm hle (Nat.le_of_dvd (Nat.pos_of_ne_zero hne) hsum)

/-! ## Byte order

The words are taken from the front of the message in pairs of bytes.  A prefix
of even length can be cut off; a prefix of odd length would shift every word
behind it. -/

/-- A word has 16 bits, in either order. -/
theorem wordsBE_le (bs : List (BitVec 8)) : ∀ w ∈ wordsBE bs, w ≤ 65535 := by
  induction bs using wordsBE.induct with
  | case1 => simp [wordsBE]
  | case2 b => have := b.isLt; simp [wordsBE]; omega
  | case3 b c bs ih =>
      have hb := b.isLt
      have hc := c.isLt
      simp only [wordsBE, List.mem_cons, forall_eq_or_imp]
      exact ⟨by omega, ih⟩

/-- Reading the words in the other byte order multiplies their residue by
`256`. -/
theorem wordsBE_modEq (bs : List (BitVec 8)) :
    (wordsBE bs).sum ≡ 256 * (wordsLE bs).sum [MOD 65535] := by
  induction bs using wordsBE.induct with
  | case1 => rfl
  | case2 b => rfl
  | case3 b c bs ih =>
      simp only [wordsBE, wordsLE, List.sum_cons]
      have hword : 256 * b.toNat + c.toNat ≡ 256 * (b.toNat + 256 * c.toNat) [MOD 65535] := by
        apply (Nat.modEq_iff_dvd' (by omega)).mpr
        exact ⟨c.toNat, by omega⟩
      calc 256 * b.toNat + c.toNat + (wordsBE bs).sum
          ≡ 256 * (b.toNat + 256 * c.toNat) + 256 * (wordsLE bs).sum [MOD 65535] :=
            hword.add ih
        _ = 256 * (b.toNat + 256 * c.toNat + (wordsLE bs).sum) := by ring

/-- Both sums are zero for the same messages: those of zero bytes. -/
theorem wordsBE_sum_eq_zero (bs : List (BitVec 8)) :
    (wordsBE bs).sum = 0 ↔ (wordsLE bs).sum = 0 := by
  induction bs using wordsBE.induct with
  | case1 => rfl
  | case2 b => simp [wordsBE, wordsLE]
  | case3 b c bs ih =>
      simp only [wordsBE, wordsLE, List.sum_cons]
      omega

/-- Behind a prefix of even length the words begin afresh. -/
theorem wordsLE_append {pre : List (BitVec 8)} (hpre : Even pre.length)
    (bs : List (BitVec 8)) : wordsLE (pre ++ bs) = wordsLE pre ++ wordsLE bs := by
  induction pre using wordsLE.induct with
  | case1 => rfl
  | case2 b => simp at hpre
  | case3 b c pre ih =>
      have heven : Even pre.length := by simpa [Nat.even_add_one] using hpre
      simp [wordsLE, ih heven]

/-- The native sum of a message is at most `0xFFFF` for every pair of bytes,
and `0xFF` for an odd last one. -/
theorem wordsLE_sum_le (bs : List (BitVec 8)) :
    (wordsLE bs).sum ≤ 65535 * (bs.length / 2) + 255 * (bs.length % 2) := by
  induction bs using wordsLE.induct with
  | case1 => simp [wordsLE]
  | case2 b => have := b.isLt; simp [wordsLE]; omega
  | case3 b c bs ih =>
      have hb := b.isLt
      have hc := c.isLt
      simp only [wordsLE, List.sum_cons, List.length_cons]
      omega

/-- A message of ones attains the bound, so that it cannot be improved. -/
theorem wordsLE_sum_replicate (n : ℕ) :
    (wordsLE (List.replicate n 0xFF)).sum = 65535 * (n / 2) + 255 * (n % 2) := by
  induction n using Nat.twoStepInduction with
  | zero => rfl
  | one => rfl
  | more n ih _ =>
      have hword : (0xFF : BitVec 8).toNat + 256 * (0xFF : BitVec 8).toNat = 65535 := rfl
      simp only [List.replicate_succ, wordsLE, List.sum_cons, hword, ih]
      omega

/-- A folded native sum with its bytes exchanged is the sum of the big-endian
words. -/
theorem swap_eq_sum {bs : List (BitVec 8)} {f : ℕ} (hle : f ≤ 65535)
    (hmod : f ≡ (wordsLE bs).sum [MOD 65535]) (hzero : f = 0 ↔ (wordsLE bs).sum = 0) :
    256 * (f % 256) + f / 256 = sum (wordsBE bs) := by
  obtain ⟨hsumLe, hsumMod, hsumZero⟩ := foldl_add (wordsBE bs) 0 (by omega) (wordsBE_le bs)
  rw [Nat.zero_add] at hsumMod hsumZero
  -- exchanging the bytes multiplies by `256`: the high one comes back as the low one
  have hswap : 256 * (f % 256) + f / 256 ≡ 256 * f [MOD 65535] := by
    apply (Nat.modEq_iff_dvd' (by omega)).mpr
    exact ⟨f / 256, by omega⟩
  apply eq_of_modEq (by omega) hsumLe
  · calc 256 * (f % 256) + f / 256
        ≡ 256 * f [MOD 65535] := hswap
      _ ≡ 256 * (wordsLE bs).sum [MOD 65535] := hmod.mul_left 256
      _ ≡ (wordsBE bs).sum [MOD 65535] := (wordsBE_modEq bs).symm
      _ ≡ sum (wordsBE bs) [MOD 65535] := hsumMod.symm
  · calc 256 * (f % 256) + f / 256 = 0
        ↔ f = 0 := by omega
      _ ↔ (wordsLE bs).sum = 0 := hzero
      _ ↔ (wordsBE bs).sum = 0 := (wordsBE_sum_eq_zero bs).symm
      _ ↔ sum (wordsBE bs) = 0 := hsumZero.symm

/-! ## Filling in the checksum

The sender zeroes the field, sums, and stores the complement.  The field is
stored in the sender's byte order, as the sum was taken. -/

/-- The checksum of a message by its definition: the complement of the
one's-complement sum of the big-endian words. -/
def checksumBE (bs : List (BitVec 8)) : BitVec 16 := ~~~BitVec.ofNat 16 (sum (wordsBE bs))

/-- A message verifies when the sum of its big-endian words is `0xFFFF`. -/
def Verifies (bs : List (BitVec 8)) : Prop := sum (wordsBE bs) = 0xFFFF

/-- **The checksum rule.**  Let `f` be a folded form of the native sum of a
message whose checksum field, at an even offset, is zero: the same residue, in
16 bits, and zero only if the sum is.  Storing the complement of `f` in the
field, in native byte order, makes the message verify. -/
theorem fill_verifies {pre post : List (BitVec 8)} (hpre : Even pre.length) {f : ℕ}
    (hle : f ≤ 65535) (hmod : f ≡ (wordsLE (pre ++ [0, 0] ++ post)).sum [MOD 65535])
    (hzero : f = 0 ↔ (wordsLE (pre ++ [0, 0] ++ post)).sum = 0) {lo hi : BitVec 8}
    (hfield : lo.toNat + 256 * hi.toNat = 65535 - f) :
    Verifies (pre ++ [lo, hi] ++ post) := by
  have hsplit (b c : BitVec 8) : (wordsLE (pre ++ [b, c] ++ post)).sum
      = b.toNat + 256 * c.toNat + ((wordsLE pre).sum + (wordsLE post).sum) := by
    rw [List.append_assoc, wordsLE_append hpre, List.sum_append]
    simp [wordsLE]
    omega
  have hblank : (wordsLE (pre ++ [0, 0] ++ post)).sum
      = (wordsLE pre).sum + (wordsLE post).sum := by
    rw [hsplit]
    simp
  rw [hblank] at hmod hzero
  set S := (wordsLE pre).sum + (wordsLE post).sum with hS
  have hnative : (wordsLE (pre ++ [lo, hi] ++ post)).sum = 65535 - f + S := by
    rw [hsplit, hfield]
  have hdvd : 65535 ∣ 65535 - f + S := by
    apply Nat.modEq_zero_iff_dvd.mp
    calc 65535 - f + S ≡ 65535 - f + f [MOD 65535] := hmod.symm.add_left _
      _ = 65535 := Nat.sub_add_cancel hle
      _ ≡ 0 [MOD 65535] := rfl
  apply sum_eq_top (wordsBE_le _)
  · apply Nat.pos_of_ne_zero
    rw [ne_eq, wordsBE_sum_eq_zero, hnative]
    omega
  · apply Nat.modEq_zero_iff_dvd.mp
    refine (wordsBE_modEq _).trans ?_
    rw [hnative]
    exact Nat.modEq_zero_iff_dvd.mpr (hdvd.mul_left 256)

end OnesComplement
