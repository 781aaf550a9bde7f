import Mathlib

/-!
# Where the members of a struct lie

The placement rule of a C struct, for plain members and bit fields, in bits
from the start of the object.

* `Member` — the size and the alignment of a plain member; the declared type
  and the width of a bit field.
* `start pos m` — where `m` is placed when the members before it end at `pos`.
  A plain member goes to the next multiple of its alignment.  A bit field
  follows directly, unless it would then cross a boundary of its declared type.
* `offsetOf l f` — `offsetof`, of a member that starts on a byte; `size l` —
  `sizeof`.

### What is load-bearing

The rule is that of the System V ABI with the usual compilers: bit fields are
allocated from the low end of a byte upwards, and the alignment of a bit
field's declared type counts for the struct.  Code that casts a pointer into a
buffer to a struct and reads its members depends on it, and its headers are
right or wrong byte by byte according to it.  The definitions compute, so that
a layout is a `decide` for a concrete struct.
-/

namespace StructLayout

/-- A member of a struct; sizes, alignments and units are in bytes, widths in
bits. -/
inductive Member where
  | plain (size alignment : ℕ)
  | bits (unit width : ℕ)
  deriving DecidableEq, Repr

/-- The next multiple of `a`. -/
def roundUp (n a : ℕ) : ℕ := (n + a - 1) / a * a

namespace Member

/-- The bits a member takes. -/
def width : Member → ℕ
  | plain size _ => 8 * size
  | bits _ width => width

/-- The alignment a member asks for: for a bit field, that of its declared
type. -/
def alignment : Member → ℕ
  | plain _ alignment => alignment
  | bits unit _ => unit

/-- The first bit of the member, when the members before it end at bit `pos`. -/
def start (pos : ℕ) : Member → ℕ
  | plain _ alignment => roundUp pos (8 * alignment)
  | bits unit width => if pos % (8 * unit) + width ≤ 8 * unit then pos else roundUp pos (8 * unit)

end Member

section Layout

variable {F : Type} [DecidableEq F]

/-- The bit at which the member called `f` starts, in what follows bit `pos`. -/
def bitOffset (f : F) : ℕ → List (F × Member) → Option ℕ
  | _, [] => none
  | pos, (g, m) :: l =>
    if g = f then some (m.start pos) else bitOffset f (m.start pos + m.width) l

/-- `offsetof`; a bit field inside a byte has none, and neither has a name that
is not a member. -/
def offsetOf (l : List (F × Member)) (f : F) : Option ℕ :=
  (bitOffset f 0 l).bind fun p => if p % 8 = 0 then some (p / 8) else none

/-- The end of the last member. -/
def bitEnd : ℕ → List (F × Member) → ℕ
  | pos, [] => pos
  | pos, (_, m) :: l => bitEnd (m.start pos + m.width) l

/-- The alignment of the struct: that of its strictest member. -/
def alignment (l : List (F × Member)) : ℕ := (l.map fun p => p.2.alignment).foldl max 1

/-- `sizeof`. -/
def size (l : List (F × Member)) : ℕ := roundUp ((bitEnd 0 l + 7) / 8) (alignment l)

end Layout

end StructLayout
