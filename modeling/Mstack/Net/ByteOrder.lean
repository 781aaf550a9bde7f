import Mstack.Net.Headers

/-!
# Byte order

`utils::produce_to_net` and `utils::consume_from_net` store and load an integer
in the byte order of the host, swapped where that is not network order.  Every
header codec is written over `BigEndian.put` and `BigEndian.get`; here the
source's own functions are shown to be these, on a host of either byte order.

* `toBytes`, `ofBytes` — the object representation of an integer, what
  `std::bit_cast` shows, on a host of the given byte order.
* `byteswap`, `bigToNative`, `ntoh` — the three functions of `utils.hpp`, one
  upon the other.
* `produceToNet_eq_put`, `consumeFromNet_eq_get` — **the two are network
  order**.

`mac_addr_t` is an array that is written and read a byte at a time.  It is the
same as one integer of 48 bits, the first byte being the most significant.

### What is load-bearing

The byte order of the host is an argument, not a choice of the model.  A
one-byte integer is stored without a swap, and the source tests for it at
compile time (`if constexpr (sizeof(T) > 1)`): on one byte both orders are the
same list, which is why `MacAddr` may be read by a loop over bytes.  The
checksum is the one place where the order of the host remains visible, and it
is treated in `Net.Checksum`.
-/

namespace Mstack.Utils

open BigEndian

/-- `std::endian::native`. -/
inductive Endian where
  | little
  | big
  deriving DecidableEq, Repr

/-- The object representation of an integer: what `std::bit_cast` to an array
of bytes shows.  The first byte is the one at the lowest address. -/
def toBytes {w : ℕ} (x : BitVec w) : Endian → List Byte
  | .little => (put x).reverse
  | .big => put x

/-- `std::bit_cast` from an array of bytes. -/
def ofBytes (w : ℕ) (bs : List Byte) : Endian → BitVec w
  | .little => BitVec.ofNat w (decode bs.reverse)
  | .big => BitVec.ofNat w (decode bs)

/-- `detail::byteswap`: through the array of bytes, which is reversed. -/
def byteswap {w : ℕ} (e : Endian) (x : BitVec w) : BitVec w := ofBytes w (toBytes x e).reverse e

/-- `detail::big_to_native`: on a big-endian host there is nothing to do. -/
def bigToNative {w : ℕ} (e : Endian) (v : BitVec w) : BitVec w :=
  match e with
  | .little => byteswap e v
  | .big => v

/-- `ntoh`; `hton` is the same function. -/
def ntoh {w : ℕ} (e : Endian) (value : BitVec w) : BitVec w := bigToNative e value

/-- The bytes that `produce_to_net` stores. -/
def produceToNet {w : ℕ} (e : Endian) (t : BitVec w) : List Byte :=
  toBytes (if 1 < w / 8 then ntoh e t else t) e

/-- `consume_from_net`: load from the front of the stream, and convert what has
more than one byte. -/
def consumeFromNet (w : ℕ) (e : Endian) : BigEndian.Reader (BitVec w) := fun bs =>
  if w / 8 ≤ bs.length then
    let ret := ofBytes w (bs.take (w / 8)) e
    some (if 1 < w / 8 then ntoh e ret else ret, bs.drop (w / 8))
  else none

/-- One byte reads the same in both directions. -/
theorem reverse_eq_self {bs : List Byte} (h : bs.length ≤ 1) : bs.reverse = bs := by
  match bs, h with
  | [], _ => rfl
  | [b], _ => rfl

/-- On a little-endian host the swapped value has the representation reversed. -/
theorem toBytes_byteswap {w : ℕ} (hw : 8 * (w / 8) = w) (x : BitVec w) :
    toBytes (byteswap .little x) .little = put x := by
  have hlen : (put x).reverse.length = w / 8 := by rw [List.length_reverse, length_put]
  rw [byteswap, toBytes, toBytes, ofBytes, List.reverse_reverse, put_ofNat_decode hw hlen,
    List.reverse_reverse]

/-- **`produce_to_net` writes network order**, whatever the order of the host. -/
theorem produceToNet_eq_put {w : ℕ} (hw : 8 * (w / 8) = w) (e : Endian) (x : BitVec w) :
    produceToNet e x = put x := by
  cases e with
  | big => rw [produceToNet, ntoh, bigToNative, ite_self, toBytes]
  | little =>
      by_cases hwide : 1 < w / 8
      · rw [produceToNet, if_pos hwide]
        exact toBytes_byteswap hw x
      · -- A single byte is not swapped, and needs no swap.
        rw [produceToNet, if_neg hwide, toBytes]
        exact reverse_eq_self (by rw [length_put]; omega)

/-- The value that `consume_from_net` returns for the bytes of one integer. -/
theorem ntoh_ofBytes {w : ℕ} (hw : 8 * (w / 8) = w) (e : Endian) {bs : List Byte}
    (hlen : bs.length = w / 8) :
    (if 1 < w / 8 then ntoh e (ofBytes w bs e) else ofBytes w bs e)
      = BitVec.ofNat w (decode bs) := by
  cases e with
  | big => rw [ntoh, bigToNative, ite_self, ofBytes]
  | little =>
      by_cases hwide : 1 < w / 8
      · have hrev : bs.reverse.length = w / 8 := by rw [List.length_reverse, hlen]
        rw [if_pos hwide, ntoh, bigToNative, byteswap, ofBytes, ofBytes, toBytes,
          List.reverse_reverse, put_ofNat_decode hw hrev, List.reverse_reverse]
      · rw [if_neg hwide, ofBytes, reverse_eq_self (by omega)]

/-- **`consume_from_net` reads network order**. -/
theorem consumeFromNet_eq_get {w : ℕ} (hw : 8 * (w / 8) = w) (e : Endian) :
    consumeFromNet w e = get w := by
  funext bs
  rw [consumeFromNet, BigEndian.get]
  by_cases hroom : w / 8 ≤ bs.length
  · rw [if_pos hroom, if_pos hroom, ← ntoh_ofBytes hw e (List.length_take_of_le hroom)]
  · rw [if_neg hroom, if_neg hroom]

/-! ## An array of bytes

The elements of the array are single bytes, and none of them is swapped. -/

/-- The loop of `mac_addr_t::consume_from_net`, over `n` bytes. -/
def consumeBytes (e : Endian) : ℕ → BigEndian.Reader (List Byte)
  | 0 => pure []
  | n + 1 => do
    let d ← consumeFromNet 8 e
    let ds ← consumeBytes e n
    return d :: ds

/-- A byte at a time, the loop takes the front of the stream as it is. -/
theorem consumeBytes_eq (e : Endian) (n : ℕ) (bs : List Byte) :
    consumeBytes e n bs
      = if n ≤ bs.length then some (bs.take n, bs.drop n) else none := by
  induction n generalizing bs with
  | zero => simp [consumeBytes, pure, StateT.pure]
  | succ n ih =>
      rw [consumeBytes, consumeFromNet_eq_get rfl]
      cases bs with
      | nil => rfl
      | cons b bs =>
          have hget : get 8 (b :: bs) = some (b, bs) := by
            have h := get_put rfl b bs
            rwa [put_byte] at h
          change Option.bind (get 8 (b :: bs)) (fun p =>
            Option.bind (consumeBytes e n p.2) fun q => some (p.1 :: q.1, q.2)) = _
          rw [hget, Option.bind_some, ih]
          by_cases hroom : n ≤ bs.length
          · rw [if_pos hroom, if_pos (by rw [List.length_cons]; omega)]
            rfl
          · rw [if_neg hroom, if_neg (by rw [List.length_cons]; omega)]
            rfl

end Mstack.Utils

namespace Mstack.MacAddr

open BigEndian

/-- `mac_addr_t::raw()`. -/
def raw (mac : MacAddr) : List Byte := put mac

/-- `mac_addr_t::produce_to_net`. -/
def produceToNet (e : Utils.Endian) (mac : MacAddr) : List Byte :=
  mac.raw.flatMap (Utils.produceToNet e)

/-- `mac_addr_t::consume_from_net`. -/
def consumeFromNet (e : Utils.Endian) : BigEndian.Reader MacAddr := do
  let mac ← Utils.consumeBytes e 6
  return BitVec.ofNat 48 (decode mac)

theorem produceToNet_eq_put (e : Utils.Endian) (mac : MacAddr) :
    produceToNet e mac = put mac := by
  have hbyte (b : Byte) : Utils.produceToNet e b = [b] := by
    rw [Utils.produceToNet_eq_put rfl, put_byte]
  rw [produceToNet, funext hbyte, List.flatMap_singleton', raw]

theorem consumeFromNet_eq_get (e : Utils.Endian) : consumeFromNet e = get 48 := by
  funext bs
  change Option.bind (Utils.consumeBytes e 6 bs)
    (fun p => some (BitVec.ofNat 48 (decode p.1), p.2)) = _
  rw [Utils.consumeBytes_eq, BigEndian.get]
  by_cases hroom : 6 ≤ bs.length
  · rw [if_pos hroom, if_pos hroom, Option.bind_some]
  · rw [if_neg hroom, if_neg hroom, Option.bind_none]

end Mstack.MacAddr
