import Mstack.Lib.EventSystem
import Mstack.Tcp.Segment

/-!
# TCP options

`decode_options` and `encode_options`, the anonymous-namespace codec at the top
of `tcb.cpp`, with every assertion and with the one read that no assertion
guards: the window-scale branch looks at `buf[3]` although the option is three
bytes long.

* `decodeOptions` — what `tcp_handle_listen_state` and `tcp_handle_syn_sent`
  make of the options area.
* `encodeOptions` — what `start_connecting` writes: an MSS, and nothing else.
* `applyMss` — what the handlers keep of it: the last MSS wins, everything else
  is ignored.

### Translation

The loop of `decode_options` shortens its span in every iteration, so it is run
with as much fuel as the span has bytes.  The fuel is never used up: every
branch takes at least one byte.  `optionLength` is the pair of assertions at
the head of every branch with a length byte; the branches differ in the length
they expect and in what they keep.

An option of a kind that is not listed **ends the loop**.  It is not skipped,
although it has a length byte, and what stands behind it is not looked at
(`Tcp.OptionArea`).  Kind zero, the end of the option list, is one of these.

### What is load-bearing

A length that is wrong is an assertion and not an error: a segment from the
network stops the program (`Tcp.OptionSafety`).  And decoding can fail in two
ways only, which `decodeOptions_error` lists; whatever else is proved about a
run that stops uses that list.
-/

namespace Mstack

/-- The alternatives of `tcp_options`. -/
inductive TcpOption where
  | monostate
  | mss (value : BitVec 16)
  | sack
  | timestamp (tsValue tsEchoReply : BitVec 32)
  | nop
  | windowScale (shiftCnt : BitVec 8)
  deriving DecidableEq, Repr

/-- One byte without a length. -/
def kNOP : Byte := 1
/-- Four bytes, of which two are the value. -/
def kMSS : Byte := 2
/-- Three bytes, of which one is the shift. -/
def kWS : Byte := 3
/-- Two bytes: SACK permitted. -/
def kSACK : Byte := 4
/-- Ten bytes: timestamps. -/
def kTSO : Byte := 8

/-- The two assertions every option with a length byte starts with, for an
option of `expected` bytes: there is a length byte, it says `expected`, and
that many bytes are left. -/
def optionLength (buf : List Byte) (expected : ℕ) : Except Fault ℕ :=
  match buf[1]? with
  | none => .error .optionLength
  | some len =>
      if expected = len.toNat ∧ ¬ buf.length < len.toNat then .ok len.toNat
      else .error .optionLength

/-- `ntoh` of the two bytes at `&buf[2]`. -/
def networkShort (buf : List Byte) : BitVec 16 :=
  (buf.getD 2 0 ++ buf.getD 3 0 : BitVec 16)

/-- The loop of `decode_options`; `opts` is what has been pushed back so far.

The read of `buf[3]` for a window scale is not guarded, and a window scale has
three bytes: where it ends the span, the source reads the byte behind it.  The
model ends the run there, as at an assertion.  So a theorem about runs that
succeed does not cover a SYN whose options end with a window scale, which is
what the SYN of a Linux host looks like; there, the source goes on with
whatever the byte behind the options is (the first byte of the text, if there
is one), and makes no use of it. -/
def decodeOptionsLoop : ℕ → List Byte → List TcpOption → Except Fault (List TcpOption)
  | 0, _, opts => .ok opts
  | _ + 1, [], opts => .ok opts
  | fuel + 1, type :: rest, opts =>
      let buf := type :: rest
      if type = kNOP then decodeOptionsLoop fuel (buf.drop 1) opts
      else if type = kMSS then do
        let len ← optionLength buf 4
        decodeOptionsLoop fuel (buf.drop len) (opts ++ [.mss (networkShort buf)])
      else if type = kWS then do
        let len ← optionLength buf 3
        match buf[3]? with
        | none => .error .optionOutOfRange
        | some shiftCnt =>
            decodeOptionsLoop fuel (buf.drop len) (opts ++ [.windowScale shiftCnt])
      else if type = kSACK then do
        let len ← optionLength buf 2
        decodeOptionsLoop fuel (buf.drop len) opts
      else if type = kTSO then do
        let len ← optionLength buf 10
        decodeOptionsLoop fuel (buf.drop len) opts
      else .ok opts

/-- `decode_options`: the options in front of the first one that is not known. -/
def decodeOptions (buf : List Byte) : Except Fault (List TcpOption) :=
  decodeOptionsLoop buf.length buf []

/-- `encode_options`: the contents of `buf` afterwards.  Each option is written
to the front of what is left of the span; `std::monostate` has no branch and a
timestamp is `assert(false)`. -/
def encodeOptions : List Byte → List TcpOption → Except Fault (List Byte)
  | buf, [] => .ok buf
  | buf, .monostate :: opts => encodeOptions buf opts
  | buf, .nop :: opts => do
      if buf.length < 1 then .error .optionRoom
      else return [kNOP] ++ (← encodeOptions (buf.drop 1) opts)
  | buf, .mss value :: opts => do
      if buf.length < 4 then .error .optionRoom
      else
        return [kMSS, 4, value.extractLsb' 8 8, value.extractLsb' 0 8] ++
          (← encodeOptions (buf.drop 4) opts)
  | buf, .windowScale shiftCnt :: opts => do
      if buf.length < 3 then .error .optionRoom
      else return [kWS, 3, shiftCnt] ++ (← encodeOptions (buf.drop 3) opts)
  | buf, .sack :: opts => do
      if buf.length < 2 then .error .optionRoom
      else return [kSACK, 2] ++ (← encodeOptions (buf.drop 2) opts)
  | _, .timestamp _ _ :: _ => .error .optionRoom

/-- The effect of the `std::visit` over the decoded options in the LISTEN and
SYN-SENT handlers: the last MSS option wins, everything else is ignored. -/
def applyMss (mss : BitVec 16) (opts : List TcpOption) : BitVec 16 :=
  opts.foldl (fun m opt => match opt with | .mss value => value | _ => m) mss

/-- Decoding stops at an assertion or at the unguarded read, and nowhere else.
The induction is on the fuel, with the options found so far arbitrary. -/
theorem decodeOptionsLoop_error {f : Fault} :
    ∀ (fuel : ℕ) {buf : List Byte} {opts : List TcpOption},
      decodeOptionsLoop fuel buf opts = .error f → f = .optionLength ∨ f = .optionOutOfRange := by
  have hlength : ∀ {buf : List Byte} {n : ℕ} {g : Fault},
      optionLength buf n = .error g → g = .optionLength := by
    intro buf n g h
    unfold optionLength at h
    split at h
    · cases h; rfl
    · split at h <;> cases h
      rfl
  intro fuel
  induction fuel with
  | zero => intro buf opts h; cases h
  | succ fuel ih =>
      intro buf opts h
      cases buf with
      | nil => cases h
      | cons type rest =>
          unfold decodeOptionsLoop at h
          dsimp only at h
          -- Every branch with a length byte either fails its assertions or loops.
          split_ifs at h
          · exact ih h
          all_goals
            rcases EventSystem.bind_eq_error.mp h with h | ⟨len, -, h⟩
            · exact .inl (hlength h)
          · exact ih h
          · split at h
            · cases h; exact .inr rfl
            · exact ih h
          · exact ih h
          · exact ih h

theorem decodeOptions_error {f : Fault} {buf : List Byte}
    (h : decodeOptions buf = .error f) : f = .optionLength ∨ f = .optionOutOfRange :=
  decodeOptionsLoop_error buf.length h

end Mstack
