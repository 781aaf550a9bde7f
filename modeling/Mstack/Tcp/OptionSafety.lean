import Mstack.Tcp.OptionArea
import Mstack.Tcp.Outcome

/-!
# Arbitrary bytes as options

The options area of a SYN comes from the network before there is a connection,
and nothing looks at it before `decode_options` does.  Any bytes can stand
there: options cut off by the end of the area, wrong or zero length bytes, any
kinds.

Every branch of the decoder with a length byte asserts that the option has its
one proper length and is there as a whole, so other bytes **stop the process**
instead of being skipped.  The assertions cover what the branches read
(`networkShort_inside`), except that the window-scale branch reads one byte
more.

### Main results

* `safeOptions_iff` — `WellCut` is the grammar of the areas that get through,
  and it is exact: every other area fails an assertion or has the byte behind
  the span read.
* `process_error_iff_of_opens` — the SYN or SYN-ACK that opens a connection
  stops the process exactly if its options are not well cut.  Four bytes of
  options are enough for that (`syn_options_abort`).

### What is load-bearing

**The loop ends on any bytes.**  A zero length byte does not keep it in place,
since the length is asserted to be the expected one and is not taken from the
area.
-/

namespace Mstack

open EventSystem

/-- The areas the decoder gets through, from the first byte on.  An option of a
kind it knows is whole and has its proper length, and another byte stands
behind a window-scale option; behind an option of an unknown kind there may be
anything. -/
inductive WellCut : List Byte → Prop
  | nil : WellCut []
  | unknown {kind : Byte} (rest : List Byte) (hkind : kind ∉ [kNOP, kMSS, kWS, kSACK, kTSO]) :
      WellCut (kind :: rest)
  | nop {rest : List Byte} (hrest : WellCut rest) : WellCut (kNOP :: rest)
  | mss (hi lo : Byte) {rest : List Byte} (hrest : WellCut rest) :
      WellCut (kMSS :: 4 :: hi :: lo :: rest)
  | windowScale (shiftCnt next : Byte) {rest : List Byte} (hrest : WellCut (next :: rest)) :
      WellCut (kWS :: 3 :: shiftCnt :: next :: rest)
  | sack {rest : List Byte} (hrest : WellCut rest) : WellCut (kSACK :: 2 :: rest)
  | timestamp {body rest : List Byte} (hbody : body.length = 8) (hrest : WellCut rest) :
      WellCut (kTSO :: 10 :: (body ++ rest))

theorem WellCut.decodes {buf : List Byte} (hcut : WellCut buf) :
    ∃ decoded, decodeOptions buf = .ok decoded := by
  induction hcut with
  | nil => exact ⟨[], rfl⟩
  | unknown rest hkind => exact ⟨[], decodeOptions_unknown rest hkind⟩
  | nop _ ih => exact ih
  | mss hi lo _ ih =>
      obtain ⟨decoded, hdecoded⟩ := ih
      rw [decodeOptions_mss, hdecoded]
      exact ⟨_, rfl⟩
  | windowScale shiftCnt next _ ih =>
      obtain ⟨decoded, hdecoded⟩ := ih
      rw [decodeOptions_windowScale, hdecoded]
      exact ⟨_, rfl⟩
  | sack _ ih => rwa [decodeOptions_sack]
  | timestamp hbody _ ih => rwa [decodeOptions_timestamp _ hbody]

/-! ## What an accepted area begins with

From an area that is decoded the first option is read back, with its length. -/

/-- The kinds with a length byte, and the length the decoder asserts. -/
def assertedLengths : List (Byte × ℕ) := [(kMSS, 4), (kWS, 3), (kSACK, 2), (kTSO, 10)]

/-- The assertions pass on a whole option only. -/
theorem split_of_optionLength {kind : Byte} {rest : List Byte} {expected len : ℕ}
    (htwo : 2 ≤ expected) (h : optionLength (kind :: rest) expected = .ok len) :
    ∃ body tail, rest = BitVec.ofNat 8 expected :: (body ++ tail) ∧
      body.length + 2 = expected := by
  cases rest with
  | nil => cases h
  | cons lenByte rest =>
      unfold optionLength at h
      simp only [List.getElem?_cons_succ, List.getElem?_cons_zero, List.length_cons] at h
      split_ifs at h with hlen
      refine ⟨rest.take (expected - 2), rest.drop (expected - 2), ?_, ?_⟩
      · rw [List.take_append_drop, hlen.1, BitVec.ofNat_toNat, BitVec.setWidth_eq]
      · rw [List.length_take]
        omega

/-- Behind its assertions the MSS branch reads two bytes of the span, and no
others. -/
theorem networkShort_inside {kind : Byte} {rest : List Byte} {len : ℕ}
    (h : optionLength (kind :: rest) 4 = .ok len) :
    ∃ hi lo, (kind :: rest)[2]? = some hi ∧ (kind :: rest)[3]? = some lo ∧
      networkShort (kind :: rest) = (hi ++ lo : BitVec 16) := by
  obtain ⟨body, tail, rfl, hbody⟩ := split_of_optionLength (by decide) h
  obtain ⟨hi, lo, rfl⟩ := List.length_eq_two.mp (Nat.add_right_cancel hbody)
  exact ⟨hi, lo, rfl, rfl, rfl⟩

/-- The loop stops at the assertions of the first option. -/
theorem split_of_decodeOptions {kind : Byte} {rest : List Byte} {decoded : List TcpOption}
    (expected : ℕ) (hkind : (kind, expected) ∈ assertedLengths)
    (h : decodeOptions (kind :: rest) = .ok decoded) :
    ∃ body tail, rest = BitVec.ofNat 8 expected :: (body ++ tail) ∧
      body.length + 2 = expected := by
  have htwo : 2 ≤ expected := by
    simp only [assertedLengths, List.mem_cons, Prod.mk.injEq, List.not_mem_nil, or_false] at hkind
    omega
  cases hlength : optionLength (kind :: rest) expected with
  | ok len => exact split_of_optionLength htwo hlength
  | error f =>
      rw [decodeOptions, List.length_cons, decodeOptionsLoop] at h
      simp only [assertedLengths, List.mem_cons, Prod.mk.injEq, List.not_mem_nil, or_false] at hkind
      obtain ⟨rfl, rfl⟩ | ⟨rfl, rfl⟩ | ⟨rfl, rfl⟩ | ⟨rfl, rfl⟩ := hkind <;>
        · rw [hlength] at h
          cases h

/-- What is pushed back in front does not decide whether the rest is decoded. -/
theorem exists_ok_of_map {α β : Type} {u : α → β} {x : Except Fault α} {b : β}
    (h : u <$> x = .ok b) : ∃ a, x = .ok a := by
  cases x with
  | error f => cases h
  | ok a => exact ⟨a, rfl⟩

/-- **The decoder gets through no other area.**  By strong induction on the
area: each option the decoder gets through leaves a shorter one. -/
theorem wellCut_of_decodes {buf : List Byte}
    (hdecodes : ∃ decoded, decodeOptions buf = .ok decoded) : WellCut buf := by
  -- induction on the length: each option is taken off the front of the area
  induction hn : buf.length using Nat.strong_induction_on generalizing buf with
  | h n ih =>
      subst hn
      obtain ⟨decoded, h⟩ := hdecodes
      cases buf with
      | nil => exact .nil
      | cons kind rest =>
          by_cases hknown : kind ∈ [kNOP, kMSS, kWS, kSACK, kTSO]
          swap
          · exact .unknown rest hknown
          simp only [List.mem_cons, List.not_mem_nil, or_false] at hknown
          obtain rfl | rfl | rfl | rfl | rfl := hknown
          · exact .nop (ih _ (by simp) ⟨decoded, h⟩ rfl)
          · obtain ⟨body, tail, rfl, hbody⟩ := split_of_decodeOptions 4 (by decide) h
            obtain ⟨hi, lo, rfl⟩ := List.length_eq_two.mp (Nat.add_right_cancel hbody)
            have htail := exists_ok_of_map ((decodeOptions_mss hi lo tail).symm.trans h)
            exact .mss hi lo (ih _ (by simp; omega) htail rfl)
          · obtain ⟨body, tail, rfl, hbody⟩ := split_of_decodeOptions 3 (by decide) h
            obtain ⟨shiftCnt, rfl⟩ := List.length_eq_one_iff.mp (Nat.add_right_cancel hbody)
            cases tail with
            | nil => cases (decodeOptions_windowScale_last shiftCnt).symm.trans h
            | cons next tail =>
                have htail :=
                  exists_ok_of_map ((decodeOptions_windowScale shiftCnt next tail).symm.trans h)
                exact .windowScale shiftCnt next (ih _ (by simp) htail rfl)
          · obtain ⟨body, tail, rfl, hbody⟩ := split_of_decodeOptions 2 (by decide) h
            obtain rfl := List.length_eq_zero_iff.mp (Nat.add_right_cancel hbody)
            exact .sack (ih _ (by simp) ⟨decoded, (decodeOptions_sack tail).symm.trans h⟩ rfl)
          · obtain ⟨body, tail, rfl, hbody⟩ := split_of_decodeOptions 10 (by decide) h
            have hbody : body.length = 8 := Nat.add_right_cancel hbody
            have htail := (decodeOptions_timestamp tail hbody).symm.trans h
            exact .timestamp hbody (ih _ (by simp; omega) ⟨decoded, htail⟩ rfl)

theorem decodes_iff (buf : List Byte) :
    (∃ decoded, decodeOptions buf = .ok decoded) ↔ WellCut buf :=
  ⟨wellCut_of_decodes, WellCut.decodes⟩

/-! ## What a SYN can do with its options

Options are decoded in LISTEN and SYN-SENT only. -/

/-- Receiving an options area does no harm: the loop of the decoder ends, no
read leaves the span and no assertion fails, and no block whose handshake is
not over (these are the states in which options are decoded) aborts at a
segment that carries it. -/
structure SafeOptions (opts : List Byte) : Prop where
  terminates : ∀ fuel, opts.length ≤ fuel →
    decodeOptionsLoop fuel opts [] = decodeOptions opts
  decodes : ∃ decoded, decodeOptions opts = .ok decoded
  received : ∀ (isn : BitVec 32) (t : Tcb) (seg : Segment), seg.opts = opts →
    t.state.synchronized = false → ∃ t', t.process isn seg = .ok t'

/-- The options are all a segment can stop such a block with. -/
theorem safeOptions_of_decodes {opts : List Byte}
    (hdecodes : ∃ decoded, decodeOptions opts = .ok decoded) : SafeOptions opts where
  terminates _ hfuel := decodeOptionsLoop_nil hfuel
  decodes := hdecodes
  received isn t seg hopts hsync := by
    obtain ⟨decoded, hdecoded⟩ := hdecodes
    cases hprocess : t.process isn seg with
    | ok t' => exact ⟨t', rfl⟩
    | error f =>
        have herror := Tcb.process_error_of_not_synchronized hsync hprocess
        rw [hopts, hdecoded] at herror
        cases herror

/-- **Exactly the well-cut areas are safe.**  The loop ends on any bytes; on
every other area an assertion fails or the byte behind the span is read.

For every list of bytes, without a bound on its length, although the header has
room for forty. -/
theorem safeOptions_iff (opts : List Byte) : SafeOptions opts ↔ WellCut opts :=
  ⟨fun hsafe => wellCut_of_decodes hsafe.decodes, fun hcut => safeOptions_of_decodes hcut.decodes⟩

namespace Tcb

/-- **A remote abort.**  The SYN or SYN-ACK that opens a connection stops the
process exactly if its options are not well cut.  No state of the connection is
needed for it, and no knowledge of one. -/
theorem process_error_iff_of_opens {t : Tcb} {seg : Segment} (hopens : Opens t seg)
    (isn : BitVec 32) : (∃ f, t.process isn seg = .error f) ↔ ¬ WellCut seg.opts := by
  obtain ⟨u, hprocess, -⟩ := process_of_opens hopens isn
  rw [← decodes_iff, hprocess]
  cases decodeOptions seg.opts with
  | error f =>
      refine iff_of_true ⟨f, rfl⟩ ?_
      rintro ⟨decoded, h⟩
      cases h
  | ok decoded =>
      refine iff_of_false ?_ fun hno => hno ⟨decoded, rfl⟩
      rintro ⟨f, h⟩
      cases h

end Tcb

/-- A SYN with any bytes as its options. -/
def synBytes (opts : List Byte) : Segment where
  tcph := { TcpHeader.bare with SYN := true }
  opts := opts
  text := []

/-- Four bytes are enough: a NOP and a window-scale option, both whole, and a
lone MSS kind behind three NOPs. -/
theorem syn_options_abort :
    ¬ SafeOptions [kNOP, kWS, 3, 7] ∧
      Tcb.listening.process 7 (synBytes [kNOP, kWS, 3, 7]) = .error .optionOutOfRange ∧
      ¬ SafeOptions [kNOP, kNOP, kNOP, kMSS] ∧
      Tcb.listening.process 7 (synBytes [kNOP, kNOP, kNOP, kMSS]) = .error .optionLength := by
  have hscale : decodeOptions [kNOP, kWS, 3, 7] = .error .optionOutOfRange := by decide
  have hmss : decodeOptions [kNOP, kNOP, kNOP, kMSS] = .error .optionLength := by decide
  refine ⟨fun hsafe => ?_, by decide, fun hsafe => ?_, by decide⟩
  · obtain ⟨decoded, hdecoded⟩ := hsafe.decodes
    rw [hscale] at hdecoded
    cases hdecoded
  · obtain ⟨decoded, hdecoded⟩ := hsafe.decodes
    rw [hmss] at hdecoded
    cases hdecoded

end Mstack
