import Mstack.Net.RawFlow

/-!
# Failed interceptions

When the callback of a matching rule throws, `tcp::make_packet` erases the flow
it has just emplaced and goes on to offer `tcp_pkt` to the rules that follow;
behind the last one it returns it.  The table is as it was.  The packet is not:

* `it->second.pq.push(std::move(tcp_pkt))` has moved it into the queue of the
  flow.  The defaulted move constructor of `skbuff` takes `data_` and copies
  the pointers, so that `tcp_pkt` still shows the bytes, but no longer owns
  them.
* `rcv_raw_states_.erase(it)` destroys the queue, and with it the buffer.  From
  here on the pointers of `tcp_pkt` dangle: its sizes are right, so that no
  assertion on a size notices, and its bytes are those of memory that has been
  given back.

`RawTcpPacket.dangling` is this packet.  What its bytes are is not for the
program to say, so it is an argument, `freed`; and "the packet as received" is
asked for all values of it (`LeavesNoTrace`).  With a buffer that is not empty
there is always a value that shows the difference, so that the condition of
`leavesNoTrace_iff` is exact.

The erased iterator is also the hint of the next `emplace_hint`; the hash table
takes no notice of it, and neither does the model.
-/

namespace Mstack

/-- The rule is tried on a packet. -/
def Rule.matches (rule : Rule) (pkt : RawTcpPacket) : Bool :=
  rule.matcher pkt.remoteEp pkt.localEp

/-- Its callback throws. -/
def Rule.fails (rule : Rule) (pkt : RawTcpPacket) : Bool :=
  rule.cbThrows pkt.remoteEp pkt.localEp

namespace Tcp

/-- The rule that takes the flow: the first that matches and does not throw. -/
def taker (rules : List Rule) (pkt : RawTcpPacket) : Option Rule :=
  rules.find? fun rule => rule.matches pkt && !rule.fails pkt

/-- Some rule in front of it has thrown. -/
def someFailed : List Rule → RawTcpPacket → Bool
  | [], _ => false
  | rule :: rules, pkt => if rule.matches pkt then rule.fails pkt else someFailed rules pkt

/-- What is left of the packet once the rules have been tried. -/
def leftOf (freed : ℕ → Byte) (rules : List Rule) (pkt : RawTcpPacket) : RawTcpPacket :=
  if someFailed rules pkt then pkt.dangling freed else pkt

/-- A packet dangles once. -/
theorem leftOf_dangling (freed : ℕ → Byte) (rules : List Rule) (pkt : RawTcpPacket) :
    leftOf freed rules (pkt.dangling freed) = pkt.dangling freed := by
  have htwice : (pkt.dangling freed).dangling freed = pkt.dangling freed := by
    simp only [RawTcpPacket.dangling, Skbuff.dangling_dangling]
  rw [leftOf, htwice, ite_self]

/-- Emplacing a flow and erasing it restores the table. -/
theorem erase_setRawState {t : Tcp} {key : TwoEnds} (habsent : t.rcvRawStates key = none)
    (st : RawState) : (t.setRawState key st).erase key = t := by
  have htable : Function.update (Function.update t.rcvRawStates key (some st)) key none
      = t.rcvRawStates := by
    rw [Function.update_idem, ← habsent, Function.update_eq_self]
  rw [setRawState, erase, htable]

/-- One turn of the loop over the rules. -/
theorem intercept_cons (freed : ℕ → Byte) (t : Tcp) (rule : Rule) (rules : List Rule)
    (pkt : RawTcpPacket) :
    t.intercept freed (rule :: rules) pkt =
      if rule.matches pkt then
        if rule.fails pkt then
          intercept freed ((t.setRawState pkt.twoEnd ⟨[pkt], []⟩).erase pkt.twoEnd) rules
            (pkt.dangling freed)
        else (none, t.setRawState pkt.twoEnd ⟨[pkt], []⟩)
      else t.intercept freed rules pkt := rfl

/-- **What the loop over the rules does**, in closed form. -/
theorem intercept_eq (freed : ℕ → Byte) {t : Tcp} {pkt : RawTcpPacket}
    (habsent : t.rcvRawStates pkt.twoEnd = none) (rules : List Rule) :
    t.intercept freed rules pkt = match taker rules pkt with
      | none => (some (leftOf freed rules pkt), t)
      | some _ => (none, t.setRawState pkt.twoEnd ⟨[leftOf freed rules pkt], []⟩) := by
  induction rules generalizing pkt with
  | nil => rfl
  | cons rule rules ih =>
      rw [intercept_cons]
      by_cases hmatch : rule.matches pkt = true
      · rw [if_pos hmatch]
        by_cases hfails : rule.fails pkt = true
        · -- The flow is erased again, and the other rules see what is left of the packet.
          have hleft : leftOf freed (rule :: rules) pkt = pkt.dangling freed := by
            rw [leftOf, someFailed, if_pos hmatch, if_pos hfails]
          have htaker : taker (rule :: rules) pkt = taker rules pkt := by
            simp [taker, hmatch, hfails]
          have hrest := ih (show t.rcvRawStates (pkt.dangling freed).twoEnd = none from habsent)
          rw [if_pos hfails, erase_setRawState habsent, hrest, leftOf_dangling, hleft, htaker]
          rfl
        · have hleft : leftOf freed (rule :: rules) pkt = pkt := by
            rw [leftOf, someFailed, if_pos hmatch, if_neg hfails]
          have htaker : taker (rule :: rules) pkt = some rule := by
            simp [taker, hmatch, hfails]
          rw [if_neg hfails, hleft, htaker]
      · have hleft : leftOf freed (rule :: rules) pkt = leftOf freed rules pkt := by
          rw [leftOf, someFailed, if_neg hmatch, leftOf]
        have htaker : taker (rule :: rules) pkt = taker rules pkt := by
          simp [taker, hmatch]
        rw [if_neg hmatch, ih habsent, hleft, htaker]

/-- A packet that `make_packet` looks at has a header: its buffer is not empty,
so that memory that has been given back can hold something else. -/
theorem exists_dangling_ne {pktIn : Ipv4Packet} {pkt : RawTcpPacket}
    (hpkt : tcpPkt pktIn = .ok pkt) : ∃ freed, pkt.dangling freed ≠ pkt := by
  obtain ⟨tcph, hread, hpkt⟩ := EventSystem.bind_eq_ok.mp hpkt
  have hlen : TcpHeader.fixedSize ≤ pktIn.skb.payload.length := by
    rw [consume] at hread
    split at hread
    · cases hread
    · rename_i hsome
      exact (TcpHeader.fixed_consumeFromNet.of_eq_some hsome).1
  obtain rfl := Except.ok.inj hpkt
  obtain ⟨b, bs, hbytes⟩ := List.exists_cons_of_length_pos (Nat.lt_of_lt_of_le (by decide) hlen)
  -- Every byte of the memory is another one than the first byte of the header.
  refine ⟨fun _ => b + 1, fun heq => ?_⟩
  have hhead : (pktIn.skb.dangling fun _ => b + 1).payload.head? = some b := by
    have hskb := congrArg (fun pkt => pkt.skb.payload.head?) heq
    exact hskb.trans (by rw [hbytes]; rfl)
  rw [Skbuff.dangling, hbytes] at hhead
  have hsame : b + 1 = b := Option.some.inj hhead
  bv_omega

/-- No rule takes the flow if every matching one throws. -/
theorem taker_eq_none_iff {rules : List Rule} {pkt : RawTcpPacket} :
    taker rules pkt = none ↔ ∀ rule ∈ rules, rule.matches pkt = true → rule.fails pkt = true := by
  simp [taker, List.find?_eq_none]

/-- The rule that takes the flow stands behind rules that threw or did not
match. -/
theorem taker_eq_some_iff {rules : List Rule} {pkt : RawTcpPacket} {rule : Rule} :
    taker rules pkt = some rule ↔ (rule.matches pkt = true ∧ rule.fails pkt = false) ∧
      ∃ before after, rules = before ++ rule :: after ∧
        ∀ r ∈ before, r.matches pkt = true → r.fails pkt = true := by
  have himp (r : Rule) : (r.matches pkt = false ∨ r.fails pkt = true) ↔
      (r.matches pkt = true → r.fails pkt = true) := by
    rw [← Bool.not_eq_true, imp_iff_not_or]
  simp [taker, List.find?_eq_some_iff_append, himp]

/-- No rule in front of the taker has thrown exactly if the first that matches
does not. -/
theorem someFailed_eq_false_iff {rules : List Rule} {pkt : RawTcpPacket} :
    someFailed rules pkt = false ↔ ∀ rule ∈ firstMatch rules pkt, rule.fails pkt = false := by
  induction rules with
  | nil => simp [someFailed, firstMatch]
  | cons rule rules ih =>
      by_cases hmatch : rule.matches pkt = true
      · have hfirst : firstMatch (rule :: rules) pkt = some rule := List.find?_cons_of_pos hmatch
        rw [someFailed, if_pos hmatch, hfirst]
        simp
      · have hfirst : firstMatch (rule :: rules) pkt = firstMatch rules pkt :=
          List.find?_cons_of_neg hmatch
        rw [someFailed, if_neg hmatch, hfirst, ih]

/-! ## When a failed interception leaves no trace

The packet that comes back, or is queued, is the packet as received: not only
up to what the freed memory happens to hold. -/

/-- What is asked of `make_packet`, for a packet `pkt` of a flow that is not in
the table, whatever memory holds that has been given back.

* If the callback of each matching rule throws, the packet is returned as it is
  and the table has not changed.
* If those of the first matching rules throw and that of a later one does not,
  the queue of the flow holds the packet as it is, and nothing else. -/
structure LeavesNoTrace (t : Tcp) (pktIn : Ipv4Packet) (pkt : RawTcpPacket) : Prop where
  returned : ∀ freed, (∀ rule ∈ t.rules, rule.matches pkt = true → rule.fails pkt = true) →
    ∃ t', t.makePacket freed pktIn = .ok (some pkt, t') ∧ t'.rcvRawStates = t.rcvRawStates
  queued : ∀ freed before rule after, t.rules = before ++ rule :: after →
    (∀ r ∈ before, r.matches pkt = true → r.fails pkt = true) →
    rule.matches pkt = true → rule.fails pkt = false →
    ∃ t' st, t.makePacket freed pktIn = .ok (none, t') ∧
      t'.rcvRawStates pkt.twoEnd = some st ∧ st.pq = [pkt]

/-- A packet of a new flow is offered to the rules. -/
theorem makePacket_eq (freed : ℕ → Byte) {t : Tcp} {pktIn : Ipv4Packet} {pkt : RawTcpPacket}
    (hpkt : tcpPkt pktIn = .ok pkt) (habsent : t.rcvRawStates pkt.twoEnd = none) :
    t.makePacket freed pktIn = .ok (t.intercept freed t.rules pkt) := by
  rw [makePacket, hpkt, EventSystem.ok_bind, habsent]
  rfl

/-- **A failed interception leaves no trace exactly if the callback of the
first matching rule, if there is one, does not throw**: a callback that throws
has the buffer of the packet destroyed.

The packet is moved into the flow before the callback is called, and the object
that is left keeps its pointers.  The rest of the loop, and the layer above,
then read bytes that have been freed; what these are is arbitrary, and the
result is about all of it. -/
theorem leavesNoTrace_iff (t : Tcp) (pktIn : Ipv4Packet) (pkt : RawTcpPacket)
    (hpkt : tcpPkt pktIn = .ok pkt) (habsent : t.rcvRawStates pkt.twoEnd = none) :
    LeavesNoTrace t pktIn pkt ↔ ∀ rule ∈ firstMatch t.rules pkt, rule.fails pkt = false := by
  have hmake (freed : ℕ → Byte) := makePacket_eq freed hpkt habsent
  simp only [intercept_eq _ habsent] at hmake
  rw [← someFailed_eq_false_iff]
  constructor
  · intro htrace
    -- The freed bytes are chosen to differ from those of the packet.
    by_contra hfailed
    obtain ⟨freed, hne⟩ := exists_dangling_ne hpkt
    have hleft : leftOf freed t.rules pkt = pkt.dangling freed := by
      rw [leftOf, if_pos (by simpa using hfailed)]
    have hmake := hmake freed
    -- Whoever takes the packet, upwards or into the flow, sees the difference.
    cases htaker : taker t.rules pkt with
    | none =>
        obtain ⟨t', hmake', -⟩ := htrace.returned freed (taker_eq_none_iff.mp htaker)
        rw [hmake', htaker, hleft, Except.ok.injEq, Prod.mk.injEq, Option.some.injEq] at hmake
        exact hne hmake.1.symm
    | some rule =>
        obtain ⟨⟨hmatch, hok⟩, before, after, hrules, hbefore⟩ := taker_eq_some_iff.mp htaker
        obtain ⟨t', st, hmake', hst, hpq⟩ :=
          htrace.queued freed before rule after hrules hbefore hmatch hok
        rw [hmake', htaker, hleft] at hmake
        cases hmake
        rw [setRawState_self] at hst
        cases hst
        exact hne (List.singleton_inj.mp hpq)
  · intro hnone
    have hleft (freed : ℕ → Byte) : leftOf freed t.rules pkt = pkt := by rw [leftOf, hnone]; rfl
    simp only [hleft] at hmake
    constructor
    · intro freed hall
      have hmake := hmake freed
      rw [taker_eq_none_iff.mpr hall] at hmake
      exact ⟨t, hmake, rfl⟩
    · intro freed before rule after hrules hbefore hmatch hok
      have hmake := hmake freed
      rw [taker_eq_some_iff.mpr ⟨⟨hmatch, hok⟩, before, after, hrules, hbefore⟩] at hmake
      exact ⟨_, _, hmake, setRawState_self _ _ _, rfl⟩

/-- A rule that matches every flow, and whose callback throws. -/
def failingRule : Rule := ⟨fun _ _ => true, fun _ _ => true⟩

/-- With this rule alone, a segment is passed up with dangling pointers: it has
the size of the segment, and its bytes are what the memory holds that has been
given back, here zeros. -/
theorem failed_interception_dangles :
    ∃ pkt, tcpPkt (bareSegment 1) = .ok pkt ∧
      (create.ruleInsertBack failingRule).rcvRawStates pkt.twoEnd = none ∧
      (∃ out t', (create.ruleInsertBack failingRule).makePacket (fun _ => 0) (bareSegment 1)
          = .ok (some out, t') ∧ out.skb.payload.length = pkt.skb.payload.length ∧
        pkt.skb.payload.take 2 = [0, 1] ∧ out.skb.payload.take 2 = [0, 0]) ∧
      ¬ LeavesNoTrace (create.ruleInsertBack failingRule) (bareSegment 1) pkt := by
  refine ⟨_, rfl, rfl, ⟨_, _, rfl, Skbuff.length_payload_dangling _ _, rfl, rfl⟩, fun htrace => ?_⟩
  obtain ⟨t', hmake, -⟩ := htrace.returned (fun _ => 0) fun rule hrule _ => by
    cases List.mem_singleton.mp hrule
    rfl
  cases hmake

/-- With a rule of another flow in front and a failing one behind it, a flow is
taken whole: the failing rule is never asked. -/
theorem interception_before_failing :
    ∃ pkt t' st, tcpPkt (bareSegment 1) = .ok pkt ∧
      (((create.ruleInsertBack ⟨fun remote _ => remote.addrv4Port = 9, fun _ _ => true⟩).ruleInsertBack
        ⟨fun _ _ => true, fun _ _ => false⟩).ruleInsertBack failingRule).makePacket (fun _ => 0)
          (bareSegment 1) = .ok (none, t') ∧
      t'.rcvRawStates pkt.twoEnd = some st ∧ st.pq = [pkt] := by
  obtain ⟨pkt, hpkt⟩ : ∃ pkt, tcpPkt (bareSegment 1) = .ok pkt := ⟨_, rfl⟩
  have htrace := (leavesNoTrace_iff (((create.ruleInsertBack
    ⟨fun remote _ => remote.addrv4Port = 9, fun _ _ => true⟩).ruleInsertBack
      ⟨fun _ _ => true, fun _ _ => false⟩).ruleInsertBack failingRule) (bareSegment 1) pkt hpkt
    (by rfl)).mpr (by cases hpkt; intro rule hrule; cases hrule; rfl)
  obtain ⟨t', st, hmake, hst, hpq⟩ := htrace.queued (fun _ => 0)
    [⟨fun remote _ => remote.addrv4Port = 9, fun _ _ => true⟩] ⟨fun _ _ => true, fun _ _ => false⟩
    [failingRule] rfl (fun _ _ _ => by simp_all [Rule.fails]) rfl rfl
  exact ⟨pkt, t', st, hpkt, hmake, hst, hpq⟩

end Tcp

end Mstack
