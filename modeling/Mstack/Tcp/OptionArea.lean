import Mstack.Tcp.Control

/-!
# The options area

What `decode_options` makes of an area of options, option by option, and what
follows for its two uses: reading back what `encode_options` has written, and
finding the MSS of a peer.

The decoder departs from the format in two places.

* The window-scale branch reads `buf[3]`, the byte *behind* the option, where
  `encode_options` writes the shift count to `buf[2]`.  The value it reports is
  the kind of the next option; with no next option, the byte is outside the
  span.
* An option of an unknown kind ends the loop, although its length byte says
  where the next option begins.

### Main results

* `roundTrips_iff` — options survive encoding and decoding exactly if every
  window-scale option is directly followed by one whose kind equals the shift
  count.
* `mss_found_iff` — the MSS of a peer is found exactly if the decoder does not
  run over the end, and the last MSS in front of the first unknown option has
  the value of the last MSS.

### Outline

One equation for each branch of the decoder; every later proof rewrites with
these and none unfolds the loop.  The first half is about the options
`encode_options` can write, the second one about any well-formed area of a
peer, `OptionArea`: items of any kind, and padding.
-/

namespace Mstack

open EventSystem

/-! ## The decoder, option by option

One equation for each branch.  The loop is run with more fuel than it needs, so
that the number can change from one equation to the next. -/

/-- An option with the length byte it has to have. -/
theorem optionLength_cons {kind len : Byte} {expected : ℕ} {body : List Byte}
    (hlen : len.toNat = expected) (hroom : expected ≤ body.length + 2) :
    optionLength (kind :: len :: body) expected = .ok expected := by
  simp only [optionLength, List.getElem?_cons_succ, List.getElem?_cons_zero, List.length_cons, hlen]
  rw [if_pos ⟨trivial, by omega⟩]

/-- The length that passes the assertions is the expected one. -/
theorem optionLength_eq_ok {buf : List Byte} {expected len : ℕ}
    (h : optionLength buf expected = .ok len) : len = expected := by
  unfold optionLength at h
  split at h
  · cases h
  · split at h
    · rename_i hlen
      cases h
      exact hlen.1.symm
    · cases h

/-- Fuel beyond the length of the span is of no use, and what has been pushed
back is only carried along. -/
theorem decodeOptionsLoop_eq (fuel : ℕ) :
    ∀ {fuel' : ℕ} {buf : List Byte} {opts opts' : List TcpOption},
      buf.length ≤ fuel → buf.length ≤ fuel' →
      decodeOptionsLoop fuel buf (opts ++ opts')
        = (opts ++ ·) <$> decodeOptionsLoop fuel' buf opts' := by
  induction fuel with
  | zero =>
      intro fuel' buf opts opts' hlen hlen'
      obtain rfl : buf = [] := List.length_eq_zero_iff.mp (Nat.le_zero.mp hlen)
      cases fuel' <;> rfl
  | succ fuel ih =>
      intro fuel' buf opts opts' hlen hlen'
      cases buf with
      | nil => cases fuel' <;> rfl
      | cons type rest =>
          obtain ⟨fuel', rfl⟩ : ∃ n, fuel' = n + 1 := Nat.exists_eq_add_one.mpr (by
            rw [List.length_cons] at hlen'
            omega)
          have hdrop : ∀ n, 0 < n → ((type :: rest).drop n).length ≤ fuel ∧
              ((type :: rest).drop n).length ≤ fuel' := by
            intro n hn
            rw [List.length_cons] at hlen hlen'
            rw [List.length_drop, List.length_cons]
            omega
          -- Every branch goes on with a shorter span and with what it has pushed back.
          have hnext : ∀ n, 0 < n → ∀ pushed,
              decodeOptionsLoop fuel ((type :: rest).drop n) (opts ++ opts' ++ pushed)
                = (opts ++ ·) <$> decodeOptionsLoop fuel' ((type :: rest).drop n)
                  (opts' ++ pushed) := by
            intro n hn pushed
            rw [List.append_assoc]
            exact ih (hdrop n hn).1 (hdrop n hn).2
          have hskip := fun n hn => hnext n hn []
          simp only [List.append_nil] at hskip
          have hlength : ∀ {expected : ℕ} {f g : ℕ → Except Fault (List TcpOption)},
              f expected = (opts ++ ·) <$> g expected →
              (optionLength (type :: rest) expected >>= f)
                = (opts ++ ·) <$> (optionLength (type :: rest) expected >>= g) := by
            intro expected f g hfg
            cases h : optionLength (type :: rest) expected with
            | error e => rfl
            | ok len =>
                rw [optionLength_eq_ok h]
                exact hfg
          simp only [decodeOptionsLoop]
          split_ifs
          · exact hskip 1 (by decide)
          · exact hlength (hnext 4 (by decide) _)
          · apply hlength
            cases (type :: rest)[3]? with
            | none => rfl
            | some shiftCnt => exact hnext 3 (by decide) _
          · exact hlength (hskip 2 (by decide))
          · exact hlength (hskip 10 (by decide))
          · rfl

theorem decodeOptionsLoop_of_le {fuel : ℕ} {buf : List Byte} (opts : List TcpOption)
    (hlen : buf.length ≤ fuel) :
    decodeOptionsLoop fuel buf opts = (opts ++ ·) <$> decodeOptions buf := by
  have h : decodeOptionsLoop fuel buf (opts ++ [])
      = (opts ++ ·) <$> decodeOptionsLoop buf.length buf [] := decodeOptionsLoop_eq fuel hlen le_rfl
  rwa [List.append_nil] at h

theorem decodeOptions_mss (hi lo : Byte) (rest : List Byte) :
    decodeOptions (kMSS :: 4 :: hi :: lo :: rest)
      = ([.mss (hi ++ lo : BitVec 16)] ++ ·) <$> decodeOptions rest := by
  have hlength : optionLength (kMSS :: 4 :: hi :: lo :: rest) 4 = .ok 4 :=
    optionLength_cons rfl (by simp)
  have hnop : ¬ kMSS = kNOP := by decide
  rw [decodeOptions, List.length_cons, decodeOptionsLoop]
  simp only [if_neg hnop, if_true, hlength, ok_bind]
  exact decodeOptionsLoop_of_le _ (by simp; omega)

theorem decodeOptions_windowScale_last (shiftCnt : Byte) :
    decodeOptions [kWS, 3, shiftCnt] = .error .optionOutOfRange := rfl

/-- The value that is pushed back is the byte behind the option. -/
theorem decodeOptions_windowScale (shiftCnt next : Byte) (rest : List Byte) :
    decodeOptions (kWS :: 3 :: shiftCnt :: next :: rest)
      = ([.windowScale next] ++ ·) <$> decodeOptions (next :: rest) := by
  have hlength : optionLength (kWS :: 3 :: shiftCnt :: next :: rest) 3 = .ok 3 :=
    optionLength_cons rfl (by simp)
  have hnop : ¬ kWS = kNOP := by decide
  have hmss : ¬ kWS = kMSS := by decide
  rw [decodeOptions, List.length_cons, decodeOptionsLoop]
  simp only [if_neg hnop, if_neg hmss, if_true, hlength, ok_bind]
  exact decodeOptionsLoop_of_le _ (by simp)

theorem decodeOptionsLoop_nil {fuel : ℕ} {buf : List Byte} (hlen : buf.length ≤ fuel) :
    decodeOptionsLoop fuel buf [] = decodeOptions buf := by
  rw [decodeOptionsLoop_of_le [] hlen]
  exact id_map' _

theorem decodeOptions_sack (rest : List Byte) :
    decodeOptions (kSACK :: 2 :: rest) = decodeOptions rest := by
  have hlength : optionLength (kSACK :: 2 :: rest) 2 = .ok 2 := optionLength_cons rfl (by simp)
  have hkind : ¬ kSACK = kNOP ∧ ¬ kSACK = kMSS ∧ ¬ kSACK = kWS := by decide
  rw [decodeOptions, List.length_cons, decodeOptionsLoop]
  simp only [if_neg hkind.1, if_neg hkind.2.1, if_neg hkind.2.2, if_true, hlength, ok_bind]
  exact decodeOptionsLoop_nil (by simp)

theorem decodeOptions_timestamp {body : List Byte} (rest : List Byte) (hbody : body.length = 8) :
    decodeOptions (kTSO :: 10 :: (body ++ rest)) = decodeOptions rest := by
  have hlength : optionLength (kTSO :: 10 :: (body ++ rest)) 10 = .ok 10 :=
    optionLength_cons rfl (by rw [List.length_append]; omega)
  have hkind : ¬ kTSO = kNOP ∧ ¬ kTSO = kMSS ∧ ¬ kTSO = kWS ∧ ¬ kTSO = kSACK := by decide
  have hdrop : (kTSO :: 10 :: (body ++ rest)).drop 10 = rest := by
    rw [List.drop_succ_cons, List.drop_succ_cons, ← hbody, List.drop_left]
  rw [decodeOptions, List.length_cons, decodeOptionsLoop]
  simp only [if_neg hkind.1, if_neg hkind.2.1, if_neg hkind.2.2.1, if_neg hkind.2.2.2, if_true,
    hlength, ok_bind, hdrop]
  exact decodeOptionsLoop_nil (by simp; omega)

/-- Any other kind ends the loop. -/
theorem decodeOptions_unknown {kind : Byte} (rest : List Byte)
    (hkind : kind ∉ [kNOP, kMSS, kWS, kSACK, kTSO]) : decodeOptions (kind :: rest) = .ok [] := by
  simp only [List.mem_cons, List.not_mem_nil, or_false, not_or] at hkind
  obtain ⟨hnop, hmss, hws, hsack, htso⟩ := hkind
  rw [decodeOptions, List.length_cons, decodeOptionsLoop]
  simp only [if_neg hnop, if_neg hmss, if_neg hws, if_neg hsack, if_neg htso]

/-! ## Encoding and decoding

The options `encode_options` has a branch for, and what comes back. -/

namespace TcpOption

/-- The options `encode_options` has a branch for and asserts nothing about but
room. -/
def Encodable : TcpOption → Prop
  | .mss _ | .sack | .nop | .windowScale _ => True
  | .monostate | .timestamp _ _ => False

/-- The bytes of an option. -/
def encoded : TcpOption → List Byte
  | .nop => [kNOP]
  | .mss value => [kMSS, 4, value.extractLsb' 8 8, value.extractLsb' 0 8]
  | .windowScale shiftCnt => [kWS, 3, shiftCnt]
  | .sack => [kSACK, 2]
  | .monostate | .timestamp _ _ => []

/-- The options `decode_options` pushes back. -/
def reported : TcpOption → Bool
  | .mss _ | .windowScale _ => true
  | _ => false

/-- The first byte of an option. -/
def kind : TcpOption → Byte
  | .mss _ => kMSS
  | .windowScale _ => kWS
  | .sack => kSACK
  | _ => kNOP

theorem head?_encoded {opt : TcpOption} (h : opt.Encodable) (rest : List Byte) :
    (opt.encoded ++ rest).head? = some opt.kind := by
  cases opt <;> first | rfl | cases h

end TcpOption

/-- **The encoder**: a buffer of the right size is filled with the options,
whatever was in it.  The assertions of the source are about room, and there is
just enough. -/
theorem encodeOptions_eq {opts : List TcpOption} (hopts : ∀ opt ∈ opts, opt.Encodable)
    {buf : List Byte} (hlen : buf.length = (opts.flatMap TcpOption.encoded).length) :
    encodeOptions buf opts = .ok (opts.flatMap TcpOption.encoded) := by
  induction opts generalizing buf with
  | nil =>
      rw [List.length_eq_zero_iff.mp hlen]
      rfl
  | cons opt opts ih =>
      rw [List.flatMap_cons, List.length_append] at hlen
      have hroom : ¬ buf.length < opt.encoded.length := by omega
      have hrest : (buf.drop opt.encoded.length).length
          = (opts.flatMap TcpOption.encoded).length := by
        rw [List.length_drop]
        omega
      have hnext := ih (fun o ho => hopts o (List.mem_cons_of_mem _ ho)) hrest
      have hopt := hopts opt List.mem_cons_self
      cases opt with
      | monostate | timestamp => cases hopt
      | nop | mss | windowScale | sack =>
          simp only [TcpOption.encoded, List.length_cons, List.length_nil, Nat.zero_add,
            Nat.reduceAdd] at hroom hnext
          simp only [encodeOptions, if_neg hroom, hnext]
          rfl

/-- Every window-scale option is followed by an option whose kind is its shift
count.  The kinds are one to four, so this is a coincidence, and it never holds
of a window-scale option at the end. -/
def ShiftsEchoKinds : List TcpOption → Prop
  | [] => True
  | .windowScale shiftCnt :: opts =>
      opts.head?.map TcpOption.kind = some shiftCnt ∧ ShiftsEchoKinds opts
  | _ :: opts => ShiftsEchoKinds opts

theorem map_append_eq_ok {α : Type} {opt opt' : α} {x : Except Fault (List α)} {opts : List α} :
    ([opt] ++ ·) <$> x = .ok (opt' :: opts) ↔ opt = opt' ∧ x = .ok opts := by
  cases x <;> simp [Functor.map, Except.map]

/-- What the decoder finds in encoded options. -/
theorem decodeOptions_encoded_iff {opts : List TcpOption} (hopts : ∀ opt ∈ opts, opt.Encodable) :
    decodeOptions (opts.flatMap TcpOption.encoded) = .ok (opts.filter TcpOption.reported) ↔
      ShiftsEchoKinds opts := by
  induction opts with
  | nil => exact iff_of_true rfl trivial
  | cons opt opts ih =>
      have hrest := fun o ho => hopts o (List.mem_cons_of_mem opt ho)
      have hopt := hopts opt List.mem_cons_self
      rw [List.flatMap_cons]
      cases opt with
      | monostate | timestamp => cases hopt
      | nop => exact ih hrest
      | sack => exact (decodeOptions_sack _).symm ▸ ih hrest
      | mss value =>
          have hdecode := decodeOptions_mss (value.extractLsb' 8 8) (value.extractLsb' 0 8)
            (opts.flatMap TcpOption.encoded)
          have hhalves := @BitVec.extractLsb'_append_extractLsb' 8 8 value
          rw [hhalves] at hdecode
          exact (hdecode ▸ map_append_eq_ok).trans ((and_iff_right rfl).trans (ih hrest))
      | windowScale shiftCnt =>
          cases opts with
          | nil => exact iff_of_false nofun nofun
          | cons next opts =>
              -- The decoder takes the kind of the next option for the shift count.
              obtain ⟨rest, hrest'⟩ : ∃ rest,
                  (next :: opts).flatMap TcpOption.encoded = next.kind :: rest :=
                List.head?_eq_some_iff.mp
                  (TcpOption.head?_encoded (hrest next List.mem_cons_self) _)
              have hdecode := decodeOptions_windowScale shiftCnt next.kind rest
              rw [← hrest'] at hdecode
              have hecho : ShiftsEchoKinds (.windowScale shiftCnt :: next :: opts) ↔
                  TcpOption.windowScale next.kind = .windowScale shiftCnt ∧
                    ShiftsEchoKinds (next :: opts) := by
                rw [ShiftsEchoKinds, List.head?_cons, Option.map_some, Option.some.injEq,
                  TcpOption.windowScale.injEq]
              rw [hecho, ← ih hrest, ← map_append_eq_ok, ← hdecode]
              exact Iff.rfl

/-- Encoding fills any buffer of the right size with the same bytes, and
decoding these bytes gives the MSS and window-scale options back, in order. -/
def RoundTrips (opts : List TcpOption) : Prop :=
  ∃ out, (∀ buf, buf.length = (opts.map fun opt => opt.encoded.length).sum →
      encodeOptions buf opts = .ok out) ∧
    out.length = (opts.map fun opt => opt.encoded.length).sum ∧
    decodeOptions out = .ok (opts.filter TcpOption.reported)

/-- **The codec round trip**: options that can be encoded survive it if and
only if every window-scale option is directly followed by an option whose kind
equals the shift count.

For every list of options and every buffer of the right size.  Lists without
window-scale options survive always, among them the one of `start_connecting`. -/
theorem roundTrips_iff {opts : List TcpOption} (hopts : ∀ opt ∈ opts, opt.Encodable) :
    RoundTrips opts ↔ ShiftsEchoKinds opts := by
  have hsize : (opts.flatMap TcpOption.encoded).length
      = (opts.map fun opt => opt.encoded.length).sum := List.length_flatMap
  rw [← decodeOptions_encoded_iff hopts]
  constructor
  · rintro ⟨out, hencode, hlen, hdecode⟩
    have hout := encodeOptions_eq hopts (hlen.trans hsize.symm)
    rw [hencode out hlen] at hout
    rwa [← Except.ok.inj hout]
  · intro hdecode
    exact ⟨_, fun buf hlen => encodeOptions_eq hopts (hlen.trans hsize.symm), hsize, hdecode⟩

/-- The options of `start_connecting`. -/
theorem synOptions_roundTrip : RoundTrips [.mss 1446, .nop, .nop, .sack] := by
  refine (roundTrips_iff ?_).mpr trivial
  intro opt hopt
  fin_cases hopt <;> trivial

/-- A shift count of seven comes back as one, the kind of the NOP behind it;
without the NOP it does not come back at all. -/
theorem windowScale_lost :
    ¬ RoundTrips [.windowScale 7, .nop] ∧ ¬ RoundTrips [.windowScale 7] ∧
      decodeOptions [kWS, 3, 7, kNOP] = .ok [.windowScale 1] ∧
      decodeOptions [kWS, 3, 7] = .error .optionOutOfRange := by
  refine ⟨?_, ?_, by decide, by decide⟩
  · rintro ⟨out, hencode, -, hdecode⟩
    obtain rfl : out = [kWS, 3, 7, kNOP] := Except.ok.inj ((hencode [0, 0, 0, 0] rfl).symm.trans rfl)
    revert hdecode
    decide
  · rintro ⟨out, hencode, -, hdecode⟩
    obtain rfl : out = [kWS, 3, 7] := Except.ok.inj ((hencode [0, 0, 0] rfl).symm.trans rfl)
    revert hdecode
    decide

/-! ## The options of a peer

Well-formed areas with any kinds, and what LISTEN and SYN-SENT make of them. -/

/-- An option with a length byte.  Its kind is neither end-of-list nor NOP, and
the kinds the decoder knows have the lengths it asserts. -/
structure OptionField where
  kind : Byte
  body : List Byte
  kind_ne_end : kind ≠ 0
  kind_ne_nop : kind ≠ kNOP
  length_lt : body.length + 2 < 256
  length_mss : kind = kMSS → body.length = 2
  length_windowScale : kind = kWS → body.length = 1
  length_sack : kind = kSACK → body.length = 0
  length_timestamps : kind = kTSO → body.length = 8

/-- One item of an options area. -/
inductive OptionItem where
  | nop
  | field (f : OptionField)

namespace OptionItem

/-- The bytes of an item. -/
def bytes : OptionItem → List Byte
  | .nop => [kNOP]
  | .field f => f.kind :: BitVec.ofNat 8 (f.body.length + 2) :: f.body

/-- The decoder has a branch for the item. -/
def known : OptionItem → Bool
  | .nop => true
  | .field f => f.kind ∈ [kMSS, kWS, kSACK, kTSO]

/-- The item is a window-scale option. -/
def isWindowScale : OptionItem → Bool
  | .nop => false
  | .field f => f.kind = kWS

/-- The value of an MSS option. -/
def mss? : OptionItem → Option (BitVec 16)
  | .nop => none
  | .field f => if f.kind = kMSS then some (f.body.getD 0 0 ++ f.body.getD 1 0 : BitVec 16) else none

end OptionItem

/-- A well-formed options area: items, and the padding behind an end-of-list
byte if there is one. -/
structure OptionArea where
  items : List OptionItem
  padding : Option (List Byte)

/-- The value of the last MSS option. -/
def lastMss (items : List OptionItem) : Option (BitVec 16) :=
  (items.filterMap OptionItem.mss?).getLast?

namespace OptionArea

/-- What stands behind the items. -/
def tail (area : OptionArea) : List Byte :=
  match area.padding with
  | none => []
  | some padding => 0 :: padding

/-- The bytes of an area. -/
def bytes (area : OptionArea) : List Byte := area.items.flatMap OptionItem.bytes ++ area.tail

/-- The items in front of the first one of an unknown kind. -/
def reached (area : OptionArea) : List OptionItem := area.items.takeWhile OptionItem.known

/-- The decoder gets to a window-scale option with nothing behind it. -/
def Overruns (area : OptionArea) : Prop :=
  area.tail = [] ∧ area.reached = area.items ∧
    area.items.getLast?.any OptionItem.isWindowScale = true

end OptionArea

/-- What an area does to an MSS, or the fault it ends with. -/
def mssAfter (m : BitVec 16) (buf : List Byte) : Except Fault (BitVec 16) :=
  applyMss m <$> decodeOptions buf

theorem mssAfter_mss (m : BitVec 16) (hi lo : Byte) (rest : List Byte) :
    mssAfter m (kMSS :: 4 :: hi :: lo :: rest) = mssAfter (hi ++ lo : BitVec 16) rest := by
  rw [mssAfter, mssAfter, decodeOptions_mss]
  cases decodeOptions rest <;> rfl

theorem mssAfter_windowScale (m : BitVec 16) (shiftCnt : Byte) {rest : List Byte}
    (hrest : rest ≠ []) : mssAfter m (kWS :: 3 :: shiftCnt :: rest) = mssAfter m rest := by
  obtain ⟨next, rest, rfl⟩ := List.exists_cons_of_ne_nil hrest
  rw [mssAfter, mssAfter, decodeOptions_windowScale]
  cases decodeOptions (next :: rest) <;> rfl

/-- An item the decoder knows changes the MSS to its own value, if it has one. -/
theorem mssAfter_item {item : OptionItem} (hknown : item.known = true) (m : BitVec 16)
    {rest : List Byte} (hrest : item.isWindowScale = true → rest ≠ []) :
    mssAfter m (item.bytes ++ rest) = mssAfter (item.mss?.getD m) rest := by
  cases item with
  | nop => rfl
  | field f =>
      obtain ⟨kind, body, hend, hnop, hlt, hmss, hws, hsack, htso⟩ := f
      simp only [OptionItem.known, List.mem_cons, List.not_mem_nil, or_false,
        decide_eq_true_eq] at hknown
      rcases hknown with rfl | rfl | rfl | rfl
      · obtain ⟨hi, lo, rfl⟩ := List.length_eq_two.mp (hmss rfl)
        exact mssAfter_mss m hi lo rest
      · obtain ⟨shiftCnt, rfl⟩ := List.length_eq_one_iff.mp (hws rfl)
        exact mssAfter_windowScale m shiftCnt (hrest rfl)
      · obtain rfl := List.length_eq_zero_iff.mp (hsack rfl)
        exact congrArg (applyMss m <$> ·) (decodeOptions_sack rest)
      · have hbytes : BitVec.ofNat 8 (body.length + 2) = 10 := by rw [htso rfl]; rfl
        simp only [OptionItem.bytes, hbytes]
        exact congrArg (applyMss m <$> ·) (decodeOptions_timestamp rest (htso rfl))

/-- A window-scale option with nothing behind it. -/
theorem mssAfter_overrun {item : OptionItem} (hws : item.isWindowScale = true) (m : BitVec 16) :
    mssAfter m (item.bytes ++ []) = .error .optionOutOfRange := by
  cases item with
  | nop => cases hws
  | field f =>
      have hkind : f.kind = kWS := by simpa [OptionItem.isWindowScale] using hws
      obtain ⟨shiftCnt, hbody⟩ := List.length_eq_one_iff.mp (f.length_windowScale hkind)
      rw [OptionItem.bytes, hkind, hbody]
      rfl

/-- An item of an unknown kind ends the search. -/
theorem mssAfter_unknown {item : OptionItem} (hunknown : item.known = false) (m : BitVec 16)
    (rest : List Byte) : mssAfter m (item.bytes ++ rest) = .ok m := by
  cases item with
  | nop => cases hunknown
  | field f =>
      have hkind : f.kind ∉ [kNOP, kMSS, kWS, kSACK, kTSO] := by
        have hne := f.kind_ne_nop
        simp_all [OptionItem.known]
      exact congrArg (applyMss m <$> ·) (decodeOptions_unknown _ hkind)

theorem lastMss_cons (item : OptionItem) (items : List OptionItem) (m : BitVec 16) :
    (lastMss (item :: items)).getD m = (lastMss items).getD (item.mss?.getD m) := by
  unfold lastMss
  cases h : item.mss? with
  | none => rw [List.filterMap_cons_none h]; rfl
  | some value =>
      rw [List.filterMap_cons_some h, List.getLast?_cons, Option.getD_some, Option.getD_some]

namespace OptionArea

theorem bytes_cons (item : OptionItem) (items : List OptionItem) (padding : Option (List Byte)) :
    (⟨item :: items, padding⟩ : OptionArea).bytes
      = item.bytes ++ (⟨items, padding⟩ : OptionArea).bytes := by
  simp only [bytes, tail, List.flatMap_cons, List.append_assoc]

theorem bytes_eq_nil {area : OptionArea} (h : area.bytes = []) :
    area.items = [] ∧ area.tail = [] := by
  obtain ⟨hitems, htail⟩ := List.append_eq_nil_iff.mp h
  refine ⟨List.eq_nil_iff_forall_not_mem.mpr fun item hmem => ?_, htail⟩
  have hnil := List.flatMap_eq_nil_iff.mp hitems item hmem
  cases item <;> cases hnil

/-- An item that is known makes the area overrun if it is itself the last thing
in it. -/
theorem overruns_cons {item : OptionItem} (hknown : item.known = true) (items : List OptionItem)
    (padding : Option (List Byte)) :
    (⟨item :: items, padding⟩ : OptionArea).Overruns ↔
      (⟨items, padding⟩ : OptionArea).Overruns ∨
        (item.isWindowScale = true ∧ (⟨items, padding⟩ : OptionArea).bytes = []) := by
  cases items with
  | nil => simp [Overruns, reached, hknown, bytes, tail, and_comm]
  | cons next items =>
      have hbytes : (⟨next :: items, padding⟩ : OptionArea).bytes ≠ [] :=
        fun h => by cases (bytes_eq_nil h).1
      simp [Overruns, reached, hknown, hbytes, tail]

/-- **What the decoder gets out of an area**: the last MSS in front of the
first option of an unknown kind, unless it runs over the end.  By induction on
the items; the MSS is an accumulator, so it is arbitrary in the statement. -/
theorem mssAfter_bytes (area : OptionArea) (m : BitVec 16) :
    (area.Overruns → mssAfter m area.bytes = .error .optionOutOfRange) ∧
      (¬ area.Overruns → mssAfter m area.bytes = .ok ((lastMss area.reached).getD m)) := by
  obtain ⟨items, padding⟩ := area
  induction items generalizing m with
  | nil =>
      refine ⟨fun h => (by cases h.2.2), fun _ => ?_⟩
      cases padding with
      | none => rfl
      | some padding =>
          have hend : (0 : Byte) ∉ [kNOP, kMSS, kWS, kSACK, kTSO] := by decide
          exact congrArg (applyMss m <$> ·) (decodeOptions_unknown padding hend)
  | cons item items ih =>
      rw [bytes_cons]
      cases hknown : item.known with
      | false =>
          have hreached : (⟨item :: items, padding⟩ : OptionArea).reached = [] := by
            simp [reached, hknown]
          refine ⟨fun h => ?_, fun _ => ?_⟩
          · rw [Overruns, hreached] at h
            cases h.2.1
          · rw [hreached, mssAfter_unknown hknown]
            rfl
      | true =>
          have hreached : (⟨item :: items, padding⟩ : OptionArea).reached
              = item :: (⟨items, padding⟩ : OptionArea).reached := by
            simp [reached, hknown]
          rw [overruns_cons hknown, hreached, lastMss_cons]
          by_cases hlast : item.isWindowScale = true ∧ (⟨items, padding⟩ : OptionArea).bytes = []
          · refine ⟨fun _ => ?_, fun hno => absurd (.inr hlast) hno⟩
            rw [hlast.2, mssAfter_overrun hlast.1]
          · rw [or_iff_left hlast, mssAfter_item hknown m fun hws hnil => hlast ⟨hws, hnil⟩]
            exact ih (item.mss?.getD m)

end OptionArea

namespace Tcb

/-- The segment is a SYN for a block in LISTEN, or an acceptable SYN-ACK for
one in SYN-SENT. -/
inductive Opens (t : Tcb) (seg : Segment) : Prop where
  | passive (hstate : t.state = .listen) (hRST : seg.tcph.RST = false)
      (hACK : seg.tcph.ACK = false) (hSYN : seg.tcph.SYN = true)
  | active (hstate : t.state = .synSent) (hSYN : seg.tcph.SYN = true)
      (hACK : seg.tcph.ACK = true) (hlo : ¬ seg.tcph.ackNo < t.send.state.seqNrUnack)
      (hhi : ¬ seg.tcph.ackNo > t.send.state.seqNrNext)

/-- What both handlers do with the options. -/
theorem process_of_opens {t : Tcb} {seg : Segment} (hopens : Opens t seg) (isn : BitVec 32) :
    ∃ u : List TcpOption → Tcb, t.process isn seg = u <$> decodeOptions seg.opts ∧
      ∀ opts, (u opts).send.state.mss = applyMss t.send.state.mss opts := by
  cases hopens with
  | passive hstate hRST hACK hSYN =>
      refine ⟨fun opts => (t.acceptSyn isn seg opts).afterPacket
        (CircularBuffer.ofCapacity seg.tcph.window.toNat), ?_, fun opts => rfl⟩
      have hsend : ∀ opts, (t.acceptSyn isn seg opts).makeAndSendPkt = .ok _ :=
        fun opts => makeAndSendPkt_ok.mpr ⟨_, rfl, rfl⟩
      simp only [process, hstate, tcpHandleListenState, hRST, hACK, hSYN, hsend]
      cases decodeOptions seg.opts <;> rfl
  | active hstate hSYN hACK hlo hhi =>
      refine ⟨fun opts => ((t.acceptSynAck seg opts).afterPacket
        (CircularBuffer.ofCapacity seg.tcph.window.toNat)).listenFinish, ?_, fun opts => rfl⟩
      have hsend : ∀ opts, (t.acceptSynAck seg opts).makeAndSendPkt = .ok _ :=
        fun opts => makeAndSendPkt_ok.mpr ⟨_, rfl, rfl⟩
      simp only [process, hstate, tcpHandleSynSent, hSYN, hACK, Bool.and_self, if_true,
        if_pos (And.intro hlo hhi), hsend]
      cases decodeOptions seg.opts <;> rfl

/-- **The MSS of a peer is found exactly if the decoder gets that far.**  A
handler that opens a connection ends with the last MSS of a well-formed area if
and only if the area does not end in a window-scale option the decoder reaches,
and the last MSS in front of the first option of an unknown kind has the same
value (or, if there is none, the MSS before the segment has it). -/
theorem mss_found_iff {t : Tcb} {seg : Segment} {area : OptionArea} {value : BitVec 16}
    (hopens : Opens t seg) (hopts : seg.opts = area.bytes)
    (hvalue : lastMss area.items = some value) (isn : BitVec 32) :
    (∃ t', t.process isn seg = .ok t' ∧ some t'.send.state.mss = lastMss area.items) ↔
      ¬ area.Overruns ∧ (lastMss area.reached).getD t.send.state.mss = value := by
  obtain ⟨u, hprocess, hmss⟩ := process_of_opens hopens isn
  -- Running the handler and reading its MSS is what `mssAfter` does.
  have hafter : (∃ t', t.process isn seg = .ok t' ∧ t'.send.state.mss = value) ↔
      mssAfter t.send.state.mss area.bytes = .ok value := by
    rw [hprocess, hopts, mssAfter]
    cases decodeOptions area.bytes with
    | error f => exact iff_of_false (fun ⟨_, h, _⟩ => nomatch h) nofun
    | ok opts =>
        constructor
        · rintro ⟨t', ht', hm⟩
          cases ht'
          rw [hmss] at hm
          exact congrArg Except.ok hm
        · intro h
          exact ⟨u opts, rfl, (hmss opts).trans (Except.ok.inj h)⟩
  simp only [hvalue, Option.some.injEq]
  rw [hafter]
  obtain ⟨hfault, hfound⟩ := area.mssAfter_bytes t.send.state.mss
  by_cases hover : area.Overruns
  · rw [hfault hover]
    exact iff_of_false nofun fun h => h.1 hover
  · rw [hfound hover, and_iff_right hover, Except.ok.injEq]

/-- An MSS option. -/
def mssItem (value : BitVec 16) : OptionItem := .field
  { kind := kMSS
    body := [value.extractLsb' 8 8, value.extractLsb' 0 8]
    kind_ne_end := by decide
    kind_ne_nop := by decide
    length_lt := by simp
    length_mss := fun _ => rfl
    length_windowScale := fun h => absurd h (by decide)
    length_sack := fun h => absurd h (by decide)
    length_timestamps := fun h => absurd h (by decide) }

/-- A window-scale option. -/
def windowScaleItem (shiftCnt : Byte) : OptionItem := .field
  { kind := kWS
    body := [shiftCnt]
    kind_ne_end := by decide
    kind_ne_nop := by decide
    length_lt := by simp
    length_mss := fun h => absurd h (by decide)
    length_windowScale := fun _ => rfl
    length_sack := fun h => absurd h (by decide)
    length_timestamps := fun h => absurd h (by decide) }

/-- An empty option of kind 34, which the decoder does not know. -/
def fastOpenItem : OptionItem := .field
  { kind := 34
    body := []
    kind_ne_end := by decide
    kind_ne_nop := by decide
    length_lt := by decide
    length_mss := fun h => absurd h (by decide)
    length_windowScale := fun h => absurd h (by decide)
    length_sack := fun _ => rfl
    length_timestamps := fun h => absurd h (by decide) }

/-- A SYN with options. -/
def synWith (area : OptionArea) : Segment where
  tcph := { TcpHeader.bare with SYN := true }
  opts := area.bytes
  text := []

theorem opens_synWith (area : OptionArea) : Opens listening (synWith area) :=
  .passive rfl rfl rfl rfl

theorem leading_mss_found :
    ∃ t', listening.process 0 (synWith ⟨[.nop, mssItem 1460, fastOpenItem], none⟩) = .ok t' ∧
      t'.send.state.mss = 1460 := by
  have hvalue : lastMss [.nop, mssItem 1460, fastOpenItem] = some 1460 := by decide
  obtain ⟨t', ht', hmss⟩ := (mss_found_iff (opens_synWith ⟨[.nop, mssItem 1460, fastOpenItem], none⟩)
    rfl hvalue 0).mpr ⟨fun h => (by cases h.2.2), by decide⟩
  exact ⟨t', ht', Option.some.inj (hmss.trans hvalue)⟩

/-- Behind an option of an unknown kind the MSS is missed; and a window-scale
option at the end stops the process. -/
theorem hidden_mss_missed :
    lastMss [fastOpenItem, mssItem 1460] = some 1460 ∧
      (∃ t', listening.process 0 (synWith ⟨[fastOpenItem, mssItem 1460], none⟩) = .ok t' ∧
        t'.send.state.mss = 0) ∧
      listening.process 0 (synWith ⟨[mssItem 1460, .nop, windowScaleItem 7], none⟩)
        = .error .optionOutOfRange :=
  ⟨by decide, ⟨_, rfl, by decide⟩, by decide⟩

end Tcb

end Mstack
