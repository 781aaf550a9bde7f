import Mathlib

/-!
# Big-endian integers in a byte stream

Network headers are sequences of fixed-width integers, most significant byte
first.  This file has the integers, a reader for them, and the rules by which a
codec for a whole record is put together from one field at a time.

* `encode n x` — the low `n` bytes of `x`; `decode` — the number a byte string
  stands for.
* `put` and `get` — the same for a bit vector whose width is a whole number of
  bytes.  `get` is a reader: it consumes a prefix of the stream, or fails when
  the stream is too short.

### The three properties of a reader

A record is read by a chain of `get … >>= fun x => …`, and each property has
one rule for the end of the chain (`….pure`) and one for a field in front of it
(`….get_bind`).  A proof about a record is then as long as the record.

* `Fixed n r` — the reader `r` takes exactly `n` bytes: it succeeds if they are
  there, and leaves the rest.
* `Yields P r` — whatever `r` reads satisfies `P`.
* `Spells before write r` — whatever `r` reads is written back as the bytes it
  was read from, behind the bytes `before` that were read already.

`Inverse n write r` says that the two are a codec of `n` bytes: each direction
undoes the other.  Reading what was written comes from `get_bind_put`, one
rewrite for each field; writing what was read comes from `Spells`.

### What is load-bearing

`get_put` is the one fact a header codec is built from, and it asks that the
width be a whole number of bytes (`8 * (w / 8) = w`): `put` writes `w / 8`
bytes, and what a narrower vector has beyond them would be lost.  `Spells`
carries the bytes already read as an argument, because a field in the middle of
a record is only known to be where it is *behind* the fields before it.

The converse direction holds of byte strings of the right length only;
`Inverse.of_le` is the form a parser needs, where the stream goes on behind the
header.
-/

namespace BigEndian

/-- The low `n` bytes of `x`, most significant first. -/
def encode : ℕ → ℕ → List (BitVec 8)
  | 0, _ => []
  | n + 1, x => BitVec.ofNat 8 (x / 256 ^ n) :: encode n x

/-- The number a byte string stands for. -/
def decode (bs : List (BitVec 8)) : ℕ :=
  bs.foldl (fun acc b => 256 * acc + b.toNat) 0

/-- As many bytes are written as were asked for, whatever the number. -/
@[simp] theorem length_encode (n x : ℕ) : (encode n x).length = n := by
  induction n with
  | zero => rfl
  | succ n ih => rw [encode, List.length_cons, ih]

/-- The accumulator of `decode` is worth `256 ^ n` when `n` bytes follow it. -/
theorem foldl_encode (n x acc : ℕ) :
    (encode n x).foldl (fun acc b => 256 * acc + b.toNat) acc
      = acc * 256 ^ n + x % 256 ^ n := by
  induction n generalizing acc with
  | zero => simp [encode, Nat.mod_one]
  | succ n ih =>
      have hdigit : x % 256 ^ (n + 1) = 256 ^ n * (x / 256 ^ n % 256) + x % 256 ^ n := by
        rw [pow_succ, Nat.mod_mul, Nat.add_comm]
      rw [encode, List.foldl_cons, ih, BitVec.toNat_ofNat, hdigit, pow_succ]
      norm_num
      ring

/-- **What is written is read back modulo `256 ^ n`**: the bytes above the
width are not written. -/
theorem decode_encode (n x : ℕ) : decode (encode n x) = x % 256 ^ n := by
  rw [decode, foldl_encode, Nat.zero_mul, Nat.zero_add]

/-- The first byte is the most significant one. -/
theorem decode_cons (b : BitVec 8) (bs : List (BitVec 8)) :
    decode (b :: bs) = b.toNat * 256 ^ bs.length + decode bs := by
  have hacc (acc : ℕ) : bs.foldl (fun acc b => 256 * acc + b.toNat) acc
      = acc * 256 ^ bs.length + decode bs := by
    induction bs generalizing acc with
    | nil => simp [decode]
    | cons c cs ih =>
        rw [decode, List.foldl_cons, List.foldl_cons, ih, ih (256 * 0 + c.toNat),
          List.length_cons, pow_succ]
        ring
  rw [decode, List.foldl_cons, Nat.mul_zero, Nat.zero_add, hacc]

/-- A number of `n` bytes is below `256 ^ n`. -/
theorem decode_lt (bs : List (BitVec 8)) : decode bs < 256 ^ bs.length := by
  induction bs with
  | nil => simp [decode]
  | cons b bs ih =>
      have hb : b.toNat + 1 ≤ 256 := b.isLt
      rw [decode_cons, List.length_cons, pow_succ]
      calc b.toNat * 256 ^ bs.length + decode bs
          < (b.toNat + 1) * 256 ^ bs.length := by rw [Nat.add_mul, Nat.one_mul]; omega
        _ ≤ 256 * 256 ^ bs.length := Nat.mul_le_mul_right _ hb
        _ = 256 ^ bs.length * 256 := Nat.mul_comm _ _

/-- Only the value modulo `256 ^ n` is written. -/
theorem encode_add_mul (n a x : ℕ) : encode n (a * 256 ^ n + x) = encode n x := by
  induction n generalizing a with
  | zero => rfl
  | succ n ih =>
      have hsplit : a * 256 ^ (n + 1) + x = (a * 256) * 256 ^ n + x := by rw [pow_succ]; ring
      have hhead : BitVec.ofNat 8 ((a * 256 * 256 ^ n + x) / 256 ^ n)
          = BitVec.ofNat 8 (x / 256 ^ n) := by
        apply BitVec.eq_of_toNat_eq
        rw [Nat.add_comm, Nat.add_mul_div_right _ _ (by positivity), BitVec.toNat_ofNat,
          BitVec.toNat_ofNat]
        omega
      rw [encode, encode, hsplit, hhead, ih]

/-- A byte string is what its number is written as.  With `decode_encode` the
two are inverse to each other on strings of `n` bytes and numbers below
`256 ^ n`. -/
theorem encode_decode (bs : List (BitVec 8)) : encode bs.length (decode bs) = bs := by
  induction bs with
  | nil => rfl
  | cons b bs ih =>
      have hdigit : (b.toNat * 256 ^ bs.length + decode bs) / 256 ^ bs.length = b.toNat := by
        rw [Nat.add_comm, Nat.add_mul_div_right _ _ (by positivity),
          Nat.div_eq_of_lt (decode_lt bs), Nat.zero_add]
      rw [List.length_cons, encode, decode_cons, hdigit, encode_add_mul, ih, BitVec.ofNat_toNat,
        BitVec.setWidth_eq]

/-! ## Bit vectors of a whole number of bytes

The width is an argument of `get` and of nothing else: the bytes of a field do
not say how wide it is. -/

/-- Write a bit vector, most significant byte first. -/
def put {w : ℕ} (x : BitVec w) : List (BitVec 8) := encode (w / 8) x.toNat

/-- A computation that consumes a byte stream from the front. -/
abbrev Reader (α : Type) := StateT (List (BitVec 8)) Option α

/-- Read a bit vector of width `w`.  The reader fails when fewer bytes are left
than the width takes, and consumes nothing else. -/
def get (w : ℕ) : Reader (BitVec w) := fun bs =>
  if w / 8 ≤ bs.length then
    some (BitVec.ofNat w (decode (bs.take (w / 8))), bs.drop (w / 8))
  else none

/-- A bit vector takes a byte for each eight bits. -/
@[simp] theorem length_put {w : ℕ} (x : BitVec w) : (put x).length = w / 8 :=
  length_encode _ _

/-- A byte is written as itself. -/
theorem put_byte (x : BitVec 8) : put x = [x] := by
  simp [put, encode]

/-- **What is written is read back**, and the rest of the stream is untouched. -/
theorem get_put {w : ℕ} (hw : 8 * (w / 8) = w) (x : BitVec w) (rest : List (BitVec 8)) :
    get w (put x ++ rest) = some (x, rest) := by
  have hlen : w / 8 = (put x).length := (length_put x).symm
  have hmod : x.toNat % 256 ^ (w / 8) = x.toNat := by
    apply Nat.mod_eq_of_lt
    have hx := x.isLt
    rwa [show (2 : ℕ) ^ w = 256 ^ (w / 8) by
      rw [show (256 : ℕ) = 2 ^ 8 from rfl, ← pow_mul, hw]] at hx
  have htake : (put x ++ rest).take (w / 8) = put x := by rw [hlen, List.take_left]
  have hdrop : (put x ++ rest).drop (w / 8) = rest := by rw [hlen, List.drop_left]
  have hroom : w / 8 ≤ (put x ++ rest).length := by rw [List.length_append, ← hlen]; omega
  rw [get, if_pos hroom, htake, hdrop, put, decode_encode, hmod]
  simp

/-- Different bit vectors are written differently. -/
theorem put_injective {w : ℕ} (hw : 8 * (w / 8) = w) :
    Function.Injective (put : BitVec w → List (BitVec 8)) := by
  intro x y hxy
  have hread := get_put hw x []
  rw [hxy, get_put hw y [], Option.some.injEq, Prod.mk.injEq] at hread
  exact hread.1.symm

/-- Reading back the first field of a record: the reader goes on with the next
one. -/
theorem get_bind_put {w : ℕ} (hw : 8 * (w / 8) = w) {α : Type} (x : BitVec w)
    (f : BitVec w → Reader α) (rest : List (BitVec 8)) :
    (get w >>= f) (put x ++ rest) = f x rest := by
  change Option.bind (get w (put x ++ rest)) (fun p => f p.1 p.2) = f x rest
  rw [get_put hw]
  rfl

/-- A string of as many bytes as the bit vector has is what its number is
written as. -/
theorem put_ofNat_decode {w : ℕ} (hw : 8 * (w / 8) = w) {bs : List (BitVec 8)}
    (hlen : bs.length = w / 8) : put (BitVec.ofNat w (decode bs)) = bs := by
  have hlt : decode bs < 2 ^ w := by
    calc decode bs < 256 ^ (w / 8) := by simpa only [hlen] using decode_lt bs
      _ = 2 ^ (8 * (w / 8)) := by rw [pow_mul]; norm_num
      _ = 2 ^ w := by rw [hw]
  calc put (BitVec.ofNat w (decode bs)) = encode bs.length (decode bs) := by
        rw [put, BitVec.toNat_ofNat, Nat.mod_eq_of_lt hlt, hlen]
    _ = bs := encode_decode bs

/-- **What is read was written so**: the bytes of the bit vector stood in
front. -/
theorem put_of_get {w : ℕ} (hw : 8 * (w / 8) = w) {x : BitVec w} {bs rest : List (BitVec 8)}
    (h : get w bs = some (x, rest)) : bs = put x ++ rest := by
  rw [get] at h
  by_cases hroom : w / 8 ≤ bs.length
  · rw [if_pos hroom, Option.some.injEq, Prod.mk.injEq] at h
    obtain ⟨rfl, rfl⟩ := h
    rw [put_ofNat_decode hw (List.length_take_of_le hroom), List.take_append_drop]
  · rw [if_neg hroom] at h
    cases h

/-! ## Readers of a fixed number of bytes

A header without options always has the same size, and its reader fails for one
reason only: the bytes are not there. -/

section Fixed

variable {α : Type}

/-- The reader takes exactly `n` bytes. -/
def Fixed (n : ℕ) (r : Reader α) : Prop :=
  ∀ bs, (bs.length < n ∧ r bs = none) ∨ (n ≤ bs.length ∧ ∃ a, r bs = some (a, bs.drop n))

/-- The end of the chain takes nothing. -/
theorem Fixed.pure (a : α) : Fixed 0 (Pure.pure a : Reader α) := by
  intro bs
  exact .inr ⟨Nat.zero_le _, a, rfl⟩

/-- A field in front adds its width. -/
theorem Fixed.get_bind {w n : ℕ} {f : BitVec w → Reader α} (h : ∀ x, Fixed n (f x)) :
    Fixed (w / 8 + n) (get w >>= f) := by
  intro bs
  change (_ ∧ Option.bind (get w bs) (fun p => f p.1 p.2) = none) ∨
    (_ ∧ ∃ a, Option.bind (get w bs) (fun p => f p.1 p.2) = some _)
  by_cases hroom : w / 8 ≤ bs.length
  · rw [get, if_pos hroom, Option.bind_some]
    have hlen : (bs.drop (w / 8)).length = bs.length - w / 8 := List.length_drop
    rcases h (BitVec.ofNat w (decode (bs.take (w / 8)))) (bs.drop (w / 8)) with
      ⟨hshort, hnone⟩ | ⟨hlong, a, ha⟩
    · exact .inl ⟨by omega, hnone⟩
    · refine .inr ⟨by omega, a, ?_⟩
      rw [ha, List.drop_drop]
  · rw [get, if_neg hroom]
    exact .inl ⟨by omega, rfl⟩

/-- What was read was there, and the reader stopped behind it. -/
theorem Fixed.of_eq_some {n : ℕ} {r : Reader α} (h : Fixed n r) {bs rest : List (BitVec 8)}
    {a : α} (hread : r bs = some (a, rest)) : n ≤ bs.length ∧ rest = bs.drop n := by
  rcases h bs with ⟨-, hnone⟩ | ⟨hlong, a', ha'⟩
  · rw [hnone] at hread
    cases hread
  · rw [ha', Option.some.injEq, Prod.mk.injEq] at hread
    exact ⟨hlong, hread.2.symm⟩

/-- A stream that is long enough is read, and what is left is known. -/
theorem Fixed.exists_of_le {n : ℕ} {r : Reader α} (h : Fixed n r) {bs : List (BitVec 8)}
    (hlen : n ≤ bs.length) : ∃ a, r bs = some (a, bs.drop n) := by
  rcases h bs with ⟨hshort, -⟩ | ⟨-, ha⟩
  · omega
  · exact ha

end Fixed

/-! ## What a reader can return

A reader that tests a field fails on the values it does not accept, so that
what it returns has passed the test. -/

section Yields

variable {α : Type} {P : α → Prop}

/-- Inversion of a reader that starts with a bit vector. -/
theorem get_bind_eq_some {w : ℕ} {f : BitVec w → Reader α} {bs : List (BitVec 8)}
    {p : α × List (BitVec 8)} (h : (get w >>= f) bs = some p) :
    f (BitVec.ofNat w (decode (bs.take (w / 8)))) (bs.drop (w / 8)) = some p := by
  change Option.bind (get w bs) (fun p => f p.1 p.2) = some p at h
  by_cases hroom : w / 8 ≤ bs.length
  · rwa [get, if_pos hroom, Option.bind_some] at h
  · rw [get, if_neg hroom] at h
    cases h

/-- Whatever the reader returns satisfies `P`. -/
def Yields (P : α → Prop) (r : Reader α) : Prop := ∀ bs a rest, r bs = some (a, rest) → P a

/-- The value at the end of the chain is the one that is returned. -/
theorem Yields.pure {a : α} (ha : P a) : Yields P (Pure.pure a : Reader α) := by
  intro bs b rest h
  cases h
  exact ha

/-- What holds for every value of a field holds for the one that is read. -/
theorem Yields.get_bind {w : ℕ} {f : BitVec w → Reader α} (h : ∀ x, Yields P (f x)) :
    Yields P (get w >>= f) :=
  fun _ a rest hread => h _ _ a rest (get_bind_eq_some hread)

end Yields

/-! ## Codecs

Both directions of a record, from the fields. -/

section Inverse

variable {α : Type} {write : α → List (BitVec 8)}

/-- What the reader returns is written as the bytes it took, behind those of
`before`. -/
def Spells (before : List (BitVec 8)) (write : α → List (BitVec 8)) (r : Reader α) : Prop :=
  ∀ bs a rest, r bs = some (a, rest) → before ++ bs = write a ++ rest

/-- At the end of the chain all the fields have been read, and they are the
value's bytes. -/
theorem Spells.pure {before : List (BitVec 8)} {a : α} (h : before = write a) :
    Spells before write (Pure.pure a : Reader α) := by
  intro bs b rest hread
  cases hread
  rw [h]

/-- The field read first goes to the end of what was read already. -/
theorem Spells.get_bind {w : ℕ} (hw : 8 * (w / 8) = w) {before : List (BitVec 8)}
    {f : BitVec w → Reader α} (h : ∀ x, Spells (before ++ put x) write (f x)) :
    Spells before write (get w >>= f) := by
  intro bs a rest hread
  change Option.bind (get w bs) (fun p => f p.1 p.2) = some (a, rest) at hread
  obtain ⟨⟨x, tail⟩, hget, hread⟩ := Option.bind_eq_some_iff.mp hread
  rw [put_of_get hw hget, ← List.append_assoc]
  exact h x tail a rest hread

/-- `write` and `r` are a codec of `n` bytes: a value is read back from the
bytes it is written as, whatever follows them, and every string of `n` bytes is
what some value is written as.  The second half is what makes a header accepted
by the reader the header that was sent. -/
structure Inverse (n : ℕ) (write : α → List (BitVec 8)) (r : Reader α) : Prop where
  length : ∀ a, (write a).length = n
  read_write : ∀ a rest, r (write a ++ rest) = some (a, rest)
  write_read : ∀ bs, bs.length = n → ∃ a, r bs = some (a, []) ∧ write a = bs

/-- A reader that takes `n` bytes and spells them reads every string of `n`
bytes. -/
theorem Spells.exists_of_length {n : ℕ} {r : Reader α} (hspells : Spells [] write r)
    (hfixed : Fixed n r) {bs : List (BitVec 8)} (hlen : bs.length = n) :
    ∃ a, r bs = some (a, []) ∧ write a = bs := by
  obtain ⟨a, ha⟩ := hfixed.exists_of_le hlen.ge
  have hrest : bs.drop n = [] := List.drop_eq_nil_of_le hlen.le
  rw [hrest] at ha
  refine ⟨a, ha, ?_⟩
  simpa using (hspells bs a [] ha).symm

/-- A stream that is long enough begins with a value of the codec. -/
theorem Inverse.of_le {n : ℕ} {r : Reader α} (h : Inverse n write r) {bs : List (BitVec 8)}
    (hlen : n ≤ bs.length) : ∃ a, bs = write a ++ bs.drop n ∧ r bs = some (a, bs.drop n) := by
  obtain ⟨a, -, ha⟩ := h.write_read (bs.take n) (List.length_take_of_le hlen)
  have hcut : bs = write a ++ bs.drop n := by rw [ha, List.take_append_drop]
  have hread := h.read_write a (bs.drop n)
  rw [← hcut] at hread
  exact ⟨a, hcut, hread⟩

/-- What was read stood in front. -/
theorem Inverse.eq_write {n : ℕ} {r : Reader α} (h : Inverse n write r) (hfixed : Fixed n r)
    {bs rest : List (BitVec 8)} {a : α} (hread : r bs = some (a, rest)) : bs = write a ++ rest := by
  obtain ⟨hlen, rfl⟩ := hfixed.of_eq_some hread
  obtain ⟨a', hcut, ha'⟩ := h.of_le hlen
  obtain rfl : a' = a := by
    rw [ha'] at hread
    exact (Prod.mk.inj (Option.some.inj hread)).1
  exact hcut

end Inverse

end BigEndian
