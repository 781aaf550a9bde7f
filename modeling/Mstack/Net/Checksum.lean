import Mstack.Lib.BigEndian
import Mstack.Lib.OnesComplement
import Mstack.Net.Skbuff

/-!
# The native checksum

`sum_every_16bits` and `checksum` of `utils.hpp`, on a little-endian host.  The
words are read in host order, added in a `uint32_t`, folded to 16 bits and
complemented; callers store the result in host order too.

* `sumLoop` — the loop of `sum_every_16bits`, word by word, and the left-over
  byte.
* `foldSum` — `while (sum >> 16) …`.
* `checksum` — the two of them, behind the alignment `assert`; `chsumOf` is its
  value where that passes.

### The three steps, and what each may lose

1.  **The accumulator** has 32 bits.  `toNat_sumLoop`: it holds the true sum as
long as that fits, which `sumLoop_exact_iff` turns into a length: up to 131074
bytes, where a message of ones just fits. 2.  **The fold** keeps the residue
and the kind of zero (`foldSum_spec`), and is over after two turns
(`exists_leavesAfter`).  The loop is a `while` in the source; its termination
is shown with the definition. 3.  **The byte order** is the host's, in the
words and in the stored result, and the two cancel
(`OnesComplement.swap_eq_sum`).

`chsumOf_verifies` is what every caller relies on, and `checksum_eq_checksumBE`
compares the code with the definition of the checksum by the words in network
order.

### What is load-bearing

`addr`, the offset of the span in its allocation, is an argument:
`sum_every_16bits` asserts that the address is even, and an odd headroom stops
a debug build before it reads a word.  The layers keep their heads on even
offsets (`Net.Sealing`), but the function itself does not.
-/

namespace Mstack

open BigEndian OnesComplement

/-- `*ptr` for a `uint16_t const*`, widened: the first byte is the low one.
The model is of a little-endian host. -/
def nativeWord (b c : Byte) : BitVec 32 := (c ++ b).setWidth 32

/-- The loop of `sum_every_16bits`, and the left-over byte, which is added as a
low one. -/
def sumLoop : BitVec 32 → List Byte → BitVec 32
  | sum, [] => sum
  | sum, [b] => sum + b.setWidth 32
  | sum, b :: c :: buf => sumLoop (sum + nativeWord b c) buf

/-- `sum_every_16bits`.  `addr` is the offset of the span in its allocation,
whose start is aligned. -/
def sumEvery16bits (addr : ℕ) (buf : List Byte) : Except NetFault (BitVec 32) :=
  if addr % 2 = 1 then .error .misaligned else .ok (sumLoop 0 buf)

/-- One turn of the folding loop: the high half is added to the low one. -/
theorem toNat_foldStep (sum : BitVec 32) :
    ((sum &&& 0xffff#32) + sum >>> 16).toNat = sum.toNat % 65536 + sum.toNat / 65536 := by
  have hlow : (sum &&& 0xffff#32).toNat = sum.toNat % 65536 := by
    rw [BitVec.toNat_and]
    exact Nat.and_two_pow_sub_one_eq_mod sum.toNat 16
  have hhigh : (sum >>> 16).toNat = sum.toNat / 65536 := by
    rw [BitVec.toNat_ushiftRight, Nat.shiftRight_eq_div_pow]
  rw [BitVec.toNat_add, hlow, hhigh]
  apply Nat.mod_eq_of_lt
  have := sum.isLt
  omega

/-- The test of the loop: there is no high half. -/
theorem shiftRight_eq_zero_iff (sum : BitVec 32) : sum >>> 16 = 0 ↔ sum.toNat < 65536 := by
  rw [← BitVec.toNat_inj, BitVec.toNat_ushiftRight, Nat.shiftRight_eq_div_pow]
  change sum.toNat / 65536 = 0 ↔ _
  omega

/-- `while (sum >> 16) sum = (sum & 0xffff) + (sum >> 16);`.  Each turn makes
the sum smaller. -/
def foldSum (sum : BitVec 32) : BitVec 32 :=
  if sum >>> 16 = 0 then sum else foldSum ((sum &&& 0xffff#32) + sum >>> 16)
termination_by sum.toNat
decreasing_by
  rename_i h
  rw [shiftRight_eq_zero_iff] at h
  rw [toNat_foldStep]
  omega

/-- `checksum`; no caller passes a `start_sum`. -/
def checksum (addr : ℕ) (buf : List Byte) : Except NetFault (BitVec 16) := do
  let sum ← sumEvery16bits addr buf
  return (~~~foldSum sum).setWidth 16

/-- The two bytes of a `uint16_t` in the memory of the host. -/
def native16 (x : BitVec 16) : List Byte := [x.setWidth 8, (x >>> 8).setWidth 8]

/-- `utils::detail::byteswap`, for a `uint16_t`. -/
def byteswap (x : BitVec 16) : BitVec 16 := x.setWidth 8 ++ (x >>> 8).setWidth 8

/-- Exchanging the two bytes, in numbers. -/
theorem toNat_byteswap (x : BitVec 16) :
    (byteswap x).toNat = 256 * (x.toNat % 256) + x.toNat / 256 := by
  have hlow : ((x >>> 8).setWidth 8 : Byte).toNat < 2 ^ 8 := ((x >>> 8).setWidth 8).isLt
  have hx := x.isLt
  rw [byteswap, BitVec.toNat_append, ← Nat.shiftLeft_add_eq_or_of_lt hlow, Nat.shiftLeft_eq]
  simp only [BitVec.toNat_setWidth, BitVec.toNat_ushiftRight, Nat.shiftRight_eq_div_pow]
  omega

/-- Storing in host order is storing the swapped value in network order. -/
theorem native16_eq_put (x : BitVec 16) : native16 x = put (byteswap x) := by
  have hx := x.isLt
  have hhigh : (256 * (x.toNat % 256) + x.toNat / 256) / 256 = x.toNat % 256 := by
    rw [Nat.mul_add_div (by decide), Nat.div_eq_of_lt (by omega), Nat.add_zero]
  simp only [native16, put, encode, toNat_byteswap, pow_one, pow_zero, Nat.div_one, hhigh,
    List.cons.injEq, and_true]
  constructor
  · apply BitVec.eq_of_toNat_eq
    simp only [BitVec.toNat_setWidth, BitVec.toNat_ofNat]
    omega
  · apply BitVec.eq_of_toNat_eq
    simp only [BitVec.toNat_setWidth, BitVec.toNat_ofNat, BitVec.toNat_ushiftRight,
      Nat.shiftRight_eq_div_pow]
    omega

/-! ## The machine arithmetic is exact

Everything up to here is the code.  From here on its words are compared with
numbers. -/

/-- A native word in numbers: the first byte is the low one. -/
theorem toNat_nativeWord (b c : Byte) : (nativeWord b c).toNat = b.toNat + 256 * c.toNat := by
  have hb := b.isLt
  have hc := c.isLt
  rw [nativeWord, BitVec.toNat_setWidth, BitVec.toNat_append, Nat.shiftLeft_eq,
    ← Nat.shiftLeft_eq, ← Nat.shiftLeft_add_eq_or_of_lt hb, Nat.shiftLeft_eq]
  omega

/-- The 32-bit accumulator holds the true sum of the words, as long as that
fits. -/
theorem toNat_sumLoop (sum : BitVec 32) (buf : List Byte)
    (hfit : sum.toNat + (wordsLE buf).sum < 2 ^ 32) :
    (sumLoop sum buf).toNat = sum.toNat + (wordsLE buf).sum := by
  induction sum, buf using sumLoop.induct with
  | case1 sum => simp [sumLoop, wordsLE]
  | case2 sum b =>
      simp only [wordsLE, List.sum_cons, List.sum_nil] at hfit ⊢
      rw [sumLoop, BitVec.toNat_add, BitVec.toNat_setWidth]
      omega
  | case3 sum b c buf ih =>
      simp only [wordsLE, List.sum_cons] at hfit ⊢
      have hword : (sum + nativeWord b c).toNat = sum.toNat + (b.toNat + 256 * c.toNat) := by
        rw [BitVec.toNat_add, toNat_nativeWord]
        omega
      rw [sumLoop, ih (by rw [hword]; omega), hword]
      omega

/-- The loop passes through the accumulators of the even prefixes. -/
theorem sumLoop_append (sum : BitVec 32) {pre : List Byte} (hpre : Even pre.length)
    (post : List Byte) : sumLoop sum (pre ++ post) = sumLoop (sumLoop sum pre) post := by
  induction sum, pre using sumLoop.induct with
  | case1 sum => rfl
  | case2 sum b => simp at hpre
  | case3 sum b c pre ih =>
      have heven : Even pre.length := by simpa [Nat.even_add_one] using hpre
      simpa only [List.cons_append, sumLoop] using ih heven

/-- **No overflow.**  The accumulator is exact on every buffer of `n` bytes
just when a buffer of ones does not overflow it. -/
theorem sumLoop_exact_iff (n : ℕ) :
    (∀ buf : List Byte, buf.length = n → (sumLoop 0 buf).toNat = (wordsLE buf).sum)
      ↔ n ≤ 131074 := by
  constructor
  · intro hexact
    have hones := hexact (List.replicate n 0xFF) List.length_replicate
    rw [wordsLE_sum_replicate] at hones
    have hfit := (sumLoop 0 (List.replicate n (0xFF : Byte))).isLt
    omega
  · intro hn buf hlen
    have hstart : (0 : BitVec 32).toNat = 0 := rfl
    have hsum := wordsLE_sum_le buf
    rw [toNat_sumLoop 0 buf (by rw [hstart]; omega), hstart, Nat.zero_add]

/-- **The folding loop** ends with a 16-bit number of the same residue, which
is zero only if the sum was. -/
theorem foldSum_spec (sum : BitVec 32) :
    (foldSum sum).toNat ≤ 65535 ∧ (foldSum sum).toNat ≡ sum.toNat [MOD 65535] ∧
      ((foldSum sum).toNat = 0 ↔ sum.toNat = 0) := by
  induction sum using foldSum.induct with
  | case1 sum h =>
      rw [foldSum, if_pos h]
      rw [shiftRight_eq_zero_iff] at h
      exact ⟨by omega, rfl, Iff.rfl⟩
  | case2 sum h ih =>
      obtain ⟨hle, hmod, hzero⟩ := ih
      rw [foldSum, if_neg h]
      rw [toNat_foldStep] at hmod hzero
      refine ⟨hle, hmod.trans ?_, hzero.trans (by omega)⟩
      apply (Nat.modEq_iff_dvd' (by omega)).mpr
      exact ⟨sum.toNat / 65536, by omega⟩

/-- One turn of the folding loop: the high half is added to the low one. -/
def foldStep (sum : BitVec 32) : BitVec 32 := (sum &&& 0xffff#32) + sum >>> 16

/-- The test of the folding loop holds `turns` times, and then fails. -/
structure LeavesAfter (sum : BitVec 32) (turns : ℕ) : Prop where
  leaves : foldStep^[turns] sum >>> 16 = 0
  turning : ∀ k < turns, foldStep^[k] sum >>> 16 ≠ 0

/-- The loop computes the turns it makes. -/
theorem LeavesAfter.foldSum_eq {sum : BitVec 32} {turns : ℕ} (hend : LeavesAfter sum turns) :
    foldSum sum = foldStep^[turns] sum := by
  induction turns generalizing sum with
  | zero =>
      have hleaves : sum >>> 16 = 0 := hend.leaves
      rw [foldSum, if_pos hleaves, Function.iterate_zero, id_eq]
  | succ turns ih =>
      have hfirst : sum >>> 16 ≠ 0 := hend.turning 0 turns.succ_pos
      rw [foldSum, if_neg hfirst, Function.iterate_succ_apply]
      exact ih ⟨hend.leaves, fun k hk => hend.turning (k + 1) (Nat.succ_lt_succ hk)⟩

/-- Two turns are enough: the first leaves at most `2 * 0xFFFF`. -/
theorem exists_leavesAfter (sum : BitVec 32) : ∃ turns ≤ 2, LeavesAfter sum turns := by
  have hone : (foldStep sum).toNat = sum.toNat % 65536 + sum.toNat / 65536 := toNat_foldStep sum
  have htwo := toNat_foldStep (foldStep sum)
  have hsum := sum.isLt
  by_cases hzero : sum >>> 16 = 0
  · exact ⟨0, by omega, hzero, fun k hk => absurd hk k.not_lt_zero⟩
  by_cases hfold : foldStep sum >>> 16 = 0
  · refine ⟨1, by omega, hfold, fun k hk => ?_⟩
    obtain rfl : k = 0 := by omega
    exact hzero
  · refine ⟨2, le_rfl, ?_, fun k hk => ?_⟩
    · rw [shiftRight_eq_zero_iff] at hfold ⊢
      change ((foldStep sum &&& 0xffff#32) + foldStep sum >>> 16).toNat < 65536
      omega
    · obtain rfl | rfl : k = 0 ∨ k = 1 := by omega
      · exact hzero
      · exact hfold

/-- The stored bytes, read in host order, are the complement of the folded
sum. -/
theorem toNat_complement {f : BitVec 32} (hf : f.toNat ≤ 65535) :
    (((~~~f).setWidth 16).setWidth 8 : Byte).toNat
      + 256 * ((((~~~f).setWidth 16) >>> 8).setWidth 8 : Byte).toNat = 65535 - f.toNat := by
  simp only [BitVec.toNat_setWidth, BitVec.toNat_ushiftRight, BitVec.toNat_not,
    Nat.shiftRight_eq_div_pow]
  omega

/-- The value of `checksum`, on an aligned span. -/
def chsumOf (buf : List Byte) : BitVec 16 := (~~~foldSum (sumLoop 0 buf)).setWidth 16

/-- On an aligned span nothing stops `checksum`. -/
theorem checksum_even {addr : ℕ} (haddr : Even addr) (buf : List Byte) :
    checksum addr buf = .ok (chsumOf buf) := by
  have hodd : ¬ addr % 2 = 1 := by rw [Nat.even_iff] at haddr; omega
  simp only [checksum, sumEvery16bits, if_neg hodd]
  rfl

/-- **What a caller of `checksum` relies on.**  The field is blank and at an
even offset: storing the result there makes the message verify. -/
theorem chsumOf_verifies {pre post : List Byte} (hpre : Even pre.length)
    (hlen : (pre ++ ([0, 0] ++ post)).length ≤ 65535) :
    Verifies (pre ++ (native16 (chsumOf (pre ++ ([0, 0] ++ post))) ++ post)) := by
  simp only [← List.append_assoc] at hlen ⊢
  have hexact := (sumLoop_exact_iff _).mpr (hlen.trans (by decide)) (pre ++ [0, 0] ++ post) rfl
  obtain ⟨hle, hmod, hzero⟩ := foldSum_spec (sumLoop 0 (pre ++ [0, 0] ++ post))
  rw [hexact] at hmod hzero
  exact fill_verifies hpre hle hmod hzero (toNat_complement hle)

/-! ## The words in network order

`chsumOf` is the value in the host's order; the definition of the checksum is
in the network's.  Stored by the host, the first is the second. -/

/-- The result is the complement of the folded sum. -/
theorem toNat_chsumOf (buf : List Byte) :
    (chsumOf buf).toNat = 65535 - (foldSum (sumLoop 0 buf)).toNat := by
  have hle := (foldSum_spec (sumLoop 0 buf)).1
  rw [chsumOf, BitVec.toNat_setWidth, BitVec.toNat_not]
  omega

/-- Stored in host order, the result is the checksum by its definition. -/
theorem native16_chsumOf {buf : List Byte} (hlen : buf.length ≤ 131074) :
    native16 (chsumOf buf) = put (checksumBE buf) := by
  have hexact := (sumLoop_exact_iff _).mpr hlen buf rfl
  obtain ⟨hle, hmod, hzero⟩ := foldSum_spec (sumLoop 0 buf)
  rw [hexact] at hmod hzero
  have hswap := swap_eq_sum hle hmod hzero
  rw [native16_eq_put]
  congr 1
  apply BitVec.eq_of_toNat_eq
  rw [toNat_byteswap, toNat_chsumOf, checksumBE, BitVec.toNat_not, BitVec.toNat_ofNat, ← hswap]
  -- the complement acts on each byte by itself, and so commutes with their exchange
  generalize (foldSum (sumLoop 0 buf)).toNat = f at hle
  have hlow : (65535 - f) % 256 = 255 - f % 256 := by omega
  have hhigh : (65535 - f) / 256 = 255 - f / 256 := by omega
  have hlo : f % 256 < 256 := Nat.mod_lt f (by decide)
  have hhi : f / 256 < 256 := by omega
  rw [hlow, hhigh]
  generalize f % 256 = lo at hlo
  generalize f / 256 = hi at hhi
  rw [Nat.mod_eq_of_lt (by omega)]
  omega

/-- **The native checksum is the checksum.**  For a buffer of at most 131074
bytes no addition into the accumulator overflows, neither on the way nor at the
end, the folding loop is left after two turns at the latest, and the stored
bytes are the big-endian encoding of the complemented sum over the words in
network order.  An odd address stops the code before it reads a word. -/
theorem checksum_eq_checksumBE (buf : List Byte) (hlen : buf.length ≤ 131074) :
    (∀ pre post, buf = pre ++ post → Even pre.length →
      sumLoop 0 buf = sumLoop (sumLoop 0 pre) post ∧
        (sumLoop 0 pre).toNat = (wordsLE pre).sum) ∧
    (sumLoop 0 buf).toNat = (wordsLE buf).sum ∧
    (∃ turns ≤ 2, LeavesAfter (sumLoop 0 buf) turns ∧
      foldSum (sumLoop 0 buf) = foldStep^[turns] (sumLoop 0 buf)) ∧
    ∀ addr : ℕ, (Odd addr → checksum addr buf = .error .misaligned) ∧
      (Even addr → ∃ chsum, checksum addr buf = .ok chsum ∧
        native16 chsum = put (checksumBE buf)) := by
  refine ⟨?_, (sumLoop_exact_iff _).mpr hlen buf rfl, ?_, fun addr => ⟨fun hodd => ?_, ?_⟩⟩
  · rintro pre post rfl hpre
    have hshort : pre.length ≤ 131074 := by rw [List.length_append] at hlen; omega
    exact ⟨sumLoop_append 0 hpre post, (sumLoop_exact_iff _).mpr hshort pre rfl⟩
  · obtain ⟨turns, htwo, hend⟩ := exists_leavesAfter (sumLoop 0 buf)
    exact ⟨turns, htwo, hend, hend.foldSum_eq⟩
  · simp only [checksum, sumEvery16bits, if_pos (Nat.odd_iff.mp hodd)]
    rfl
  · intro heven
    exact ⟨chsumOf buf, checksum_even heven buf, native16_chsumOf hlen⟩

/-- Three bytes, the last one a word of its own. -/
theorem three_byte_checksum : ∃ chsum, checksum 2 [0x12, 0x34, 0xF0] = .ok chsum ∧
    native16 chsum = put (checksumBE [0x12, 0x34, 0xF0]) :=
  ((checksum_eq_checksumBE [0x12, 0x34, 0xF0] (by decide)).2.2.2 2).2 even_two

end Mstack
