import Mstack.Tcp.Conservation

/-!
# The peer's stream

What an ESTABLISHED block makes of a peer that sends the bytes of a stream `S`
and then a FIN, in segments that may be lost, repeated, reordered and cut anew.

The guard of the text step drops what starts before the *frontier*, RCV.NXT +
`rcv_.pq->size()`.  It takes everything that starts **behind** it: there is no
queue for segments that come too early, and no test that the segment is the
next one.  So a lost segment leaves a hole that nobody notices.  And the FIN
step does not ask whether the text step has taken the segment, nor whether
anything is missing in front of the FIN.

### Main results

* `in_order_delivery` — as long as no text starts behind the frontier
  (`NoGap`), the bytes handed on and buffered are a prefix of `S`.
* `fin_never_truncates` — if moreover a FIN that closes the connection comes at
  the frontier (`FinInOrder`), the block leaves ESTABLISHED only with all of
  `S`.
* `gap_is_taken`, `early_fin_truncates` — without the conditions neither holds,
  for segments inside the receive window.

### Implementation notes

`NoGap` and `FinInOrder` are conditions on the block and the segment that
arrives, asked of the segments that get to the text step only.  Numbers are
compared as the code compares them, so both results are about streams that do
not wrap: `irs + 1 + S.length < 2 ^ 32`.  What happens at the wrap is in
`Tcp.WrapSafety`.
-/

namespace Mstack

namespace Tcb

open EventSystem (bind_eq_ok Admitted)

/-- A segment of the peer: a slice of `S` under its true number, with FIN only
at the end. -/
def PeerSegment (irs : BitVec 32) (S : List Byte) (seg : Segment) : Prop :=
  ∃ off, seg.tcph.seqNo = irs + 1 + BitVec.ofNat 32 off ∧
    off + seg.text.length ≤ S.length ∧
    seg.text = (S.drop off).take seg.text.length ∧
    (seg.tcph.FIN = true → off + seg.text.length = S.length)

/-- The segment lies inside the receive window. -/
def InWindow (t : Tcb) (seg : Segment) : Prop :=
  t.rcv.state.next.toNat ≤ seg.tcph.seqNo.toNat ∧
    seg.tcph.seqNo.toNat + seg.text.length ≤
      t.rcv.state.next.toNat + t.rcv.state.window.toNat

/-- The number behind everything that has arrived.  RCV.NXT counts what readers
have got, so the queue is added; the code adds it in the guard. -/
def frontier (t : Tcb) : ℕ := t.rcv.state.next.toNat + t.rcv.pq.size

/-- Text that gets to the text step does not start behind the frontier. -/
def NoGap (t : Tcb) (seg : Segment) : Prop :=
  t.handles seg = true → seg.text ≠ [] → seg.tcph.seqNo.toNat ≤ t.frontier

/-- A FIN that closes the connection comes with the next text, or with text
that has already arrived to the end.  In the second case the text is dropped
and the FIN is not. -/
def FinInOrder (t : Tcb) (seg : Segment) : Prop :=
  t.closes seg = true → seg.tcph.seqNo.toNat = t.frontier ∨
    seg.tcph.seqNo.toNat + seg.text.length = t.frontier

/-- **The receiver of the stream `S`**: a prefix has arrived, and all of it if
the FIN has been counted. -/
structure InStream (irs : BitVec 32) (S : List Byte) (t : Tcb) : Prop extends Open t where
  stream : ∃ w, w.stream <+: S ∧
    ((t.state = .established ∧ Receives (irs + 1) w t) ∨
      (t.state ≠ .established ∧ w.stream = S ∧ Receives (irs + 1 + 1) w t))

section Frontier

variable {irs : BitVec 32} {S : List Byte} {w : ReceiveWindow Byte} {t : Tcb} {seg : Segment}

/-- As long as nothing wraps the frontier is the length of what has arrived. -/
theorem Receives.frontier_eq (h : Receives (irs + 1) w t) (hle : w.stream.length ≤ S.length)
    (hwrap : irs.toNat + 1 + S.length < 2 ^ 32) :
    t.frontier = irs.toNat + 1 + w.stream.length := by
  have hsum := w.handed_add_buffered
  have hbase : (irs + 1).toNat = irs.toNat + 1 := SerialNumber.toNat_add_one irs (by omega)
  rw [frontier, h.next, SerialNumber.toNat_add_ofNat (irs + 1) (by omega), hbase,
    CircularBuffer.size_eq, h.buffered]
  omega

theorem seqNo_toNat {off : ℕ} (hseq : seg.tcph.seqNo = irs + 1 + BitVec.ofNat 32 off)
    (hle : off ≤ S.length) (hwrap : irs.toNat + 1 + S.length < 2 ^ 32) :
    seg.tcph.seqNo.toNat = irs.toNat + 1 + off := by
  have hbase : (irs + 1).toNat = irs.toNat + 1 := SerialNumber.toNat_add_one irs (by omega)
  rw [hseq, SerialNumber.toNat_add_ofNat (irs + 1) (by omega), hbase]

/-- A prefix followed by the next slice is a prefix. -/
theorem take_append_slice {S stream : List Byte} {n : ℕ} (hpre : stream <+: S) :
    stream ++ (S.drop stream.length).take n = S.take (stream.length + n) := by
  rw [List.take_add, ← List.prefix_iff_eq_take.mp hpre]

/-- **Text step and FIN step at the frontier.**  The step lemma of both
results: what has arrived grows by the next slice of `S` or not at all, and a
FIN that is counted finds all of it. -/
theorem Receives.next_in_stream (h : Receives (irs + 1) w t) (hstate : t.state = .established)
    (hpre : w.stream <+: S) (hwrap : irs.toNat + 1 + S.length < 2 ^ 32)
    (hpeer : PeerSegment irs S seg) (hgap : NoGap t seg) (hfin : FinInOrder t seg)
    {stream' : List Byte}
    (hstream' : stream' = if t.takes seg then w.stream ++ seg.text else w.stream) :
    stream' <+: S ∧ (t.closes seg = true → stream' = S) := by
  obtain ⟨off, hseq, hlen, htext, hend⟩ := hpeer
  have hfrontier := h.frontier_eq hpre.length_le hwrap
  have hseqNat := seqNo_toNat hseq (by omega) hwrap
  -- The guard bounds the offset from below, the environment from above.
  have htakes_off : t.takes seg = true → off = w.stream.length ∧ seg.text ≠ [] := by
    intro htakes
    simp only [takes, acceptsText, textGuard, Bool.and_eq_true, decide_eq_true_eq] at htakes
    obtain ⟨hhandles, ⟨hpos, -⟩, hguard⟩ := htakes
    have hne : seg.text ≠ [] := List.ne_nil_of_length_pos hpos
    have hle := hgap hhandles hne
    rw [← frontier] at hguard
    exact ⟨by omega, hne⟩
  have hgrown : off = w.stream.length →
      w.stream ++ seg.text = S.take (off + seg.text.length) := by
    intro hoff
    rw [hoff, ← take_append_slice hpre, ← hoff, ← htext]
  refine ⟨?_, fun hcloses => ?_⟩
  · rw [hstream']
    split
    · rename_i htakes
      rw [hgrown (htakes_off htakes).1]
      exact List.take_prefix _ _
    · exact hpre
  · have hFIN : seg.tcph.FIN = true ∧ t.handles seg = true := by
      simp only [closes, Bool.and_eq_true] at hcloses
      exact ⟨hcloses.1.2, hcloses.1.1⟩
    have hoffEnd := hend hFIN.1
    by_cases htakes : t.takes seg = true
    · rw [hstream', if_pos htakes, hgrown (htakes_off htakes).1, hoffEnd, List.take_length]
    · -- The text was not taken: there was none, or all of it had arrived.
      have hlength : w.stream.length = S.length := by
        rcases hfin hcloses with hat | hdone
        · have hnil : seg.text = [] := by
            by_contra hne
            refine htakes ?_
            simp only [takes, acceptsText, textGuard, hFIN.2, hstate, TcpState.takesText,
              Bool.true_and, Bool.and_true, Bool.and_eq_true, decide_eq_true_eq]
            refine ⟨List.length_pos_of_ne_nil hne, ?_⟩
            rw [← frontier]
            omega
          rw [hnil, List.length_nil] at hoffEnd
          omega
        · omega
      rw [hstream', if_neg htakes]
      exact hpre.eq_of_length hlength

end Frontier

/-! ## Runs

The invariant `InStream` over the four moves, and the two results. -/

/-- The peer's segments, under the two conditions. -/
def StreamOk (irs : BitVec 32) (S : List Byte) (t : Tcb) (seg : Segment) : Prop :=
  PeerSegment irs S seg ∧ NoGap t seg ∧ FinInOrder t seg

section Runs

variable {irs : BitVec 32} {S : List Byte} {t t' : Tcb}

theorem InStream.process {isn : BitVec 32} {seg : Segment} (h : InStream irs S t)
    (hwrap : irs.toNat + 1 + S.length < 2 ^ 32) (hok : StreamOk irs S t seg)
    (hprocess : t.process isn seg = .ok t') : InStream irs S t' := by
  refine ⟨h.toOpen.process hprocess, ?_⟩
  obtain ⟨w, hpre, hcase⟩ := h.stream
  rcases hcase with ⟨hstate, hreceives⟩ | ⟨hstate, hall, hreceives⟩
  · obtain ⟨w', heffect⟩ := h.toOpen.receiveEffect hreceives hprocess
    obtain ⟨hpre', hclosed⟩ := hreceives.next_in_stream hstate hpre hwrap hok.1 hok.2.1
      hok.2.2 heffect.stream
    refine ⟨w', hpre', ?_⟩
    have hreceives' := heffect.receives
    cases hcloses : t.closes seg with
    | true =>
        rw [hcloses] at hreceives'
        refine .inr ⟨?_, hclosed hcloses, hreceives'⟩
        rw [ne_eq, heffect.state, hcloses]
        simp
    | false =>
        rw [hcloses] at hreceives'
        exact .inl ⟨heffect.state.mpr ⟨hstate, hcloses⟩, hreceives'⟩
  · -- Outside of ESTABLISHED neither text nor FIN is looked at.
    obtain ⟨w', heffect⟩ := h.toOpen.receiveEffect hreceives hprocess
    have hcloses : t.closes seg = false := by simp [closes, hstate]
    have htakes : t.takes seg = false := by
      rcases h.state with hs | hs | hs
      · exact (hstate hs).elim
      · simp [takes, acceptsText, hs, TcpState.takesText]
      · simp [takes, acceptsText, hs, TcpState.takesText]
    have hreceives' := heffect.receives
    have hstream := heffect.stream
    rw [hcloses] at hreceives'
    rw [htakes] at hstream
    refine ⟨w', hstream ▸ hpre, .inr ⟨?_, hstream.trans hall, hreceives'⟩⟩
    rw [ne_eq, heffect.state]
    exact fun hest => hstate hest.1

theorem InStream.appCall {c : AppCall} (h : InStream irs S t) (hcall : t.appCall c = .ok t') :
    InStream irs S t' := by
  refine ⟨h.toOpen.appCall hcall, ?_⟩
  obtain ⟨w, hpre, hcase⟩ := h.stream
  rw [(appCall_control h.toControlled hcall).2]
  rcases hcase with ⟨hstate, hreceives⟩ | ⟨hstate, hall, hreceives⟩
  · obtain ⟨-, w', hw', hstream, -⟩ := (appCall_cases hcall).receives hreceives
    exact ⟨w', hstream ▸ hpre, .inl ⟨hstate, hw'⟩⟩
  · obtain ⟨-, w', hw', hstream, -⟩ := (appCall_cases hcall).receives hreceives
    exact ⟨w', hstream ▸ hpre, .inr ⟨hstate, hstream.trans hall, hw'⟩⟩

/-- Handlers and packets leave the receive side alone. -/
theorem InStream.congr {u : Tcb} (h : InStream irs S t) (hopen : Open u)
    (hstate : u.state = .established ↔ t.state = .established) (hrcv : u.rcv = t.rcv)
    (hcopied : u.trace.copied = t.trace.copied) : InStream irs S u := by
  obtain ⟨w, hpre, hcase⟩ := h.stream
  refine ⟨hopen, w, hpre, ?_⟩
  rw [ne_eq, hstate]
  rcases hcase with ⟨hs, hreceives⟩ | ⟨hs, hall, hreceives⟩
  · exact .inl ⟨hs, hreceives.congr hrcv hcopied⟩
  · exact .inr ⟨hs, hall, hreceives.congr hrcv hcopied⟩

theorem InStream.enterTask (h : InStream irs S t) (k : ℕ) (task : Task) :
    InStream irs S (t.enterTask k task) :=
  h.congr (h.toOpen.enterTask k task) (by rw [enterTask_state]) (by simp) (by simp)

theorem InStream.afterPacket {pq : CircularBuffer Byte} (h : InStream irs S t)
    (hpq : t.send.pq = some pq) : InStream irs S (t.afterPacket pq) := by
  refine h.congr (h.toOpen.afterPacket hpq) ?_ rfl rfl
  rw [afterPacket_state]
  rcases h.state with hs | hs | hs <;> rw [h.nextState_eq hs rfl, hs]
  simp

/-- **A run of the receiver.**  The bound on the length of `S` makes natural
numbers of all sequence numbers involved; with it the step lemma applies to
every segment. -/
theorem run_inStream {isn : BitVec 32} {callOk : Tcb → AppCall → Prop} {es : List Event}
    (hwrap : irs.toNat + 1 + S.length < 2 ^ 32) (h : InStream irs S t)
    (hok : RunOk isn (StreamOk irs S) callOk t es) (hrun : run isn t es = .ok t') :
    InStream irs S t' := by
  refine run_induction ?_ ?_ ?_ ?_ h hok hrun
  · exact fun t seg t' h hok hprocess => h.process hwrap hok hprocess
  · exact fun t c t' h _ hcall => h.appCall hcall
  · exact fun t k task h _ => h.enterTask k task
  · exact fun t pq h hpq => h.afterPacket hpq

theorem FreshReceiver.inStream (hfresh : FreshReceiver irs t) (hbuffer : t.rcv.pq.data <+: S) :
    InStream irs S t :=
  ⟨hfresh.isOpen, _, hbuffer, .inl ⟨hfresh.state, hfresh.receives⟩⟩

end Runs

/-- **In-order delivery.**  Let every segment be a slice of `S` without FIN,
and let no text that gets to the text step start behind the frontier.  Then in
every state reached the bytes handed to readers followed by `rcv_.pq` are a
prefix of `S`, whatever is lost, repeated or cut anew.

Segments that start before the frontier need no condition.  They are dropped
whole, and if they bring new bytes at their end, these have to be sent again. -/
theorem in_order_delivery {isn irs : BitVec 32} {S : List Byte} {t₀ t : Tcb} {es : List Event}
    (hfresh : FreshReceiver irs t₀) (hbuffer : t₀.rcv.pq.data <+: S)
    (hwrap : irs.toNat + 1 + S.length < 2 ^ 32)
    (hok : RunOk isn (fun u seg => seg.tcph.FIN = false ∧ PeerSegment irs S seg ∧ NoGap u seg)
      OneRead t₀ es)
    (hrun : run isn t₀ es = .ok t) : t.handed ++ t.rcv.pq.data <+: S := by
  have hok' : RunOk isn (StreamOk irs S) OneRead t₀ es := by
    refine hok.mono fun u e => EventOk.mono (fun u seg hseg => ?_) fun _ _ h => h
    obtain ⟨hFIN, hpeer, hgap⟩ := hseg
    exact ⟨hpeer, hgap, fun hcloses => by simp [closes, hFIN] at hcloses⟩
  obtain ⟨w, hpre, hcase⟩ := (run_inStream hwrap (hfresh.inStream hbuffer) hok' hrun).stream
  rcases hcase with ⟨-, hreceives⟩ | ⟨-, -, hreceives⟩
  · rw [hreceives.received]; exact hpre
  · rw [hreceives.received]; exact hpre

/-- The second half of a stream of four bytes, numbered from 101. -/
def secondHalf : Segment :=
  ⟨{ TcpHeader.bare with ACK := true, seqNo := 103, ackNo := 8 }, [], [0x63, 0x64]⟩

/-- With the first half lost the second is taken for the beginning. -/
theorem gap_is_taken : FreshReceiver 100 (established 7 100 2 500) ∧
    secondHalf.tcph.FIN = false ∧
    PeerSegment 100 [0x61, 0x62, 0x63, 0x64] secondHalf ∧
    InWindow (established 7 100 2 500) secondHalf ∧
    ∃ t, run 7 (established 7 100 2 500) [.process secondHalf] = .ok t ∧
      t.handed ++ t.rcv.pq.data = [0x63, 0x64] ∧
      ¬ t.handed ++ t.rcv.pq.data <+: [0x61, 0x62, 0x63, 0x64] := by
  refine ⟨freshReceiver_established 7 100 2 500, rfl, ⟨2, rfl, by decide, rfl, nofun⟩,
    ⟨by decide, by decide⟩, _, rfl, rfl, ?_⟩
  decide

/-- Nothing is lost: two halves in order. -/
theorem halves_in_order :
    let es := [Event.process ⟨{ TcpHeader.bare with ACK := true, seqNo := 101, ackNo := 8 }, [],
      [0x61, 0x62]⟩, .process secondHalf]
    ∃ t, run 7 (established 7 100 2 500) es = .ok t ∧
      t.handed ++ t.rcv.pq.data <+: [0x61, 0x62, 0x63, 0x64] := by
  intro es
  have hfresh := freshReceiver_established 7 100 2 500
  have hok : RunOk 7 (fun u seg => seg.tcph.FIN = false ∧
      PeerSegment 100 [0x61, 0x62, 0x63, 0x64] seg ∧ NoGap u seg) OneRead
      (established 7 100 2 500) es := by
    refine .cons ⟨rfl, ⟨0, rfl, by decide, rfl, nofun⟩, fun _ _ => by decide⟩ rfl ?_
    exact .single ⟨rfl, ⟨2, rfl, by decide, rfl, nofun⟩, fun _ _ => by decide⟩
  exact ⟨_, rfl, in_order_delivery hfresh (List.nil_prefix) (by decide) hok rfl⟩

/-- **A FIN never truncates the stream.**  Let every segment be a slice of `S`,
with FIN only at the end, let no text that gets to the text step start behind
the frontier, and let a FIN that closes come at the frontier, before its text
or behind it.  Then in every state reached either the block is in ESTABLISHED
and RCV.NXT counts the bytes handed on, or it has left ESTABLISHED, every byte
of `S` has been handed on or is buffered, and RCV.NXT counts the FIN once. -/
theorem fin_never_truncates {isn irs : BitVec 32} {S : List Byte} {t₀ t : Tcb} {es : List Event}
    (hfresh : FreshReceiver irs t₀) (hbuffer : t₀.rcv.pq.data <+: S)
    (hwrap : irs.toNat + 1 + S.length < 2 ^ 32)
    (hok : RunOk isn (StreamOk irs S) OneRead t₀ es) (hrun : run isn t₀ es = .ok t) :
    (t.state = .established ∧ t.handed ++ t.rcv.pq.data <+: S ∧
      t.rcv.state.next = irs + 1 + BitVec.ofNat 32 t.handed.length) ∨
    ((t.state = .closeWait ∨ t.state = .timeWait) ∧ t.handed ++ t.rcv.pq.data = S ∧
      t.rcv.state.next = irs + 1 + BitVec.ofNat 32 t.handed.length + 1) := by
  have h := run_inStream hwrap (hfresh.inStream hbuffer) hok hrun
  obtain ⟨w, hpre, hcase⟩ := h.stream
  rcases hcase with ⟨hstate, hreceives⟩ | ⟨hstate, hall, hreceives⟩
  · refine .inl ⟨hstate, by rw [hreceives.received]; exact hpre, ?_⟩
    rw [hreceives.next, hreceives.copied, w.delivered_length]
  · refine .inr ⟨h.state.resolve_left hstate, by rw [hreceives.received, hall], ?_⟩
    rw [hreceives.next, hreceives.copied, w.delivered_length]
    ac_rfl

/-- The FIN behind a stream of two bytes, numbered from 101. -/
def earlyFin : Segment :=
  ⟨{ TcpHeader.bare with ACK := true, FIN := true, seqNo := 103, ackNo := 8 }, [], []⟩

/-- It overtakes the two bytes and closes the stream without them. -/
theorem early_fin_truncates : FreshReceiver 100 (established 7 100 2 500) ∧
    PeerSegment 100 [0x61, 0x62] earlyFin ∧ InWindow (established 7 100 2 500) earlyFin ∧
    ∃ t, run 7 (established 7 100 2 500) [.process earlyFin] = .ok t ∧
      t.state = .closeWait ∧ t.rcv.state.next = 102 ∧
      t.handed ++ t.rcv.pq.data ≠ [0x61, 0x62] := by
  refine ⟨freshReceiver_established 7 100 2 500, ⟨2, rfl, by decide, rfl, fun _ => rfl⟩,
    ⟨by decide, by decide⟩, _, rfl, rfl, rfl, ?_⟩
  decide

/-- The same FIN after the two bytes. -/
theorem fin_after_text :
    let es := [Event.process ⟨{ TcpHeader.bare with ACK := true, seqNo := 101, ackNo := 8 }, [],
      [0x61, 0x62]⟩, .process earlyFin]
    ∃ t, run 7 (established 7 100 2 500) es = .ok t ∧ t.state = .closeWait ∧
      t.handed ++ t.rcv.pq.data = [0x61, 0x62] := by
  intro es
  have hfresh := freshReceiver_established 7 100 2 500
  have hok : RunOk 7 (StreamOk 100 [0x61, 0x62]) OneRead (established 7 100 2 500) es := by
    refine .cons ⟨⟨0, rfl, by decide, rfl, nofun⟩, fun _ _ => by decide, fun h => by cases h⟩
      rfl ?_
    exact .single
      ⟨⟨2, rfl, by decide, rfl, fun _ => rfl⟩, fun _ h => (h rfl).elim, fun _ => .inl rfl⟩
  refine ⟨_, rfl, rfl, ?_⟩
  rcases fin_never_truncates hfresh List.nil_prefix (by decide) hok rfl with
    ⟨hstate, -⟩ | ⟨-, hall, -⟩
  · cases hstate
  · exact hall

end Tcb

end Mstack
