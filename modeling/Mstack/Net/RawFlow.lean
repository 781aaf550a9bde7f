import Mstack.Lib.Rendezvous
import Mstack.Net.Layers

/-!
# Raw flows

The tables of `tcp.cpp`: `rcv_raw_states_`, with a packet queue and a waiter
queue for every flow that is taken out of the stack, and `rules_`, which create
such flows.  `tcp::make_packet` gives a packet to its flow, or offers it to the
rules, or passes it up to `tcb_manager`.

A callback is called as the last thing `make_packet` does, so what it does in
turn is an event of its own; all that `make_packet` sees of it is whether it
throws.  The history variables `paired`, `called` and `passedUp` record which
wait got which packet, which callbacks have been invoked, and what was passed
up.

### The rendezvous

A flow is two queues of which one is always empty: packets that came before
anybody waited, or waits that came before a packet.  This is the **rendezvous**
of `Lib.Rendezvous`, where it is shown once that such a pair of queues matches
two streams in order of arrival.

* `Served` — the flow has been served first-in, first-out since a given state.
* `Delivered` — every pair that was made is delivered once: its callback was
  called with the packet, or is posted with it.
* `SameFlow` — what an operation on another flow leaves alone.
* `raw_flow_rendezvous` — **all of it, for every run that does not detach the
  flow.**

### What is load-bearing

`detach` erases the queues, packets and waits alike, and it is the one event
that breaks service.  How a flow begins matters too: `attach` creates it empty,
a rule with the packet that it matched **already queued** and not passed up
(`Begins`).

The loop over the rules moves the packet into the new flow *before* it calls
the rule's callback.  When the callback throws, the flow is erased with the
packet in it, and the loop goes on with a packet whose buffer dangles
(`RawTcpPacket.dangling`): it is offered to the remaining rules and finally
passed up, its size intact and its bytes freed.  `Net.Withdrawal` and
`Net.Interceptor` say what follows.
-/

namespace Mstack

open EventSystem

/-- `two_ends_t`. -/
structure TwoEnds where
  remoteEp : Endpoint
  localEp : Endpoint
  deriving DecidableEq, Repr

namespace RawTcpPacket

/-- The flow a packet belongs to. -/
def twoEnd (pkt : RawTcpPacket) : TwoEnds where
  remoteEp := pkt.remoteEp
  localEp := pkt.localEp

/-- A packet that was moved into a queue, once the queue has been destroyed:
the endpoints were copied, and so were the pointers of the buffer, which now
dangle. -/
def dangling (freed : ℕ → Byte) (pkt : RawTcpPacket) : RawTcpPacket :=
  { pkt with skb := pkt.skb.dangling freed }

end RawTcpPacket

/-- `raw_state`. -/
structure RawState where
  pq : List RawTcpPacket
  onDataReceive : List CallbackId
  deriving DecidableEq, Repr

/-- `rule`.  Of its callback only the exception matters here. -/
structure Rule where
  matcher : Endpoint → Endpoint → Bool
  cbThrows : Endpoint → Endpoint → Bool

/-- A waiter, and the packet it is given. -/
structure Delivery where
  twoEnd : TwoEnds
  cb : CallbackId
  pkt : RawTcpPacket
  deriving DecidableEq, Repr

/-- The `std::runtime_error`s of `tcp.cpp`. -/
inductive TcpError where
  /-- `"{} <-> {} is already attached"`. -/
  | alreadyAttached (key : TwoEnds)
  /-- `"endpoint is not connected"`. -/
  | notConnected
  deriving DecidableEq, Repr

/-- `tcp`: its tables, the deliveries it has posted, and history variables. -/
structure Tcp where
  rules : List Rule
  rcvRawStates : TwoEnds → Option RawState
  ioCtx : List Delivery
  paired : List Delivery
  called : List Delivery
  passedUp : List RawTcpPacket

namespace Tcp

/-- The constructor. -/
def create : Tcp where
  rules := []
  rcvRawStates := fun _ => none
  ioCtx := []
  paired := []
  called := []
  passedUp := []

/-- `rcv_raw_states_[key] = st`. -/
def setRawState (t : Tcp) (key : TwoEnds) (st : RawState) : Tcp :=
  { t with rcvRawStates := Function.update t.rcvRawStates key (some st) }

/-- `rcv_raw_states_.erase(key)`. -/
def erase (t : Tcp) (key : TwoEnds) : Tcp :=
  { t with rcvRawStates := Function.update t.rcvRawStates key none }

/-- `cb(std::move(tcp_pkt))`, right away. -/
def callNow (t : Tcp) (d : Delivery) : Tcp :=
  { t with paired := t.paired ++ [d], called := t.called ++ [d] }

/-- `io_ctx_.post(…)` of a callback with its packet. -/
def callLater (t : Tcp) (d : Delivery) : Tcp :=
  { t with paired := t.paired ++ [d], ioCtx := t.ioCtx ++ [d] }

/-- The loop over `rules_` for a packet of a flow that is not in the table.
The packet is moved into the new flow before the callback runs; when the
callback throws, the flow is erased, its queue is destroyed with the packet in
it, and the loop goes on with `tcp_pkt`, whose buffer dangles.  `freed` is what
a read of that memory happens to yield. -/
def intercept (freed : ℕ → Byte) (t : Tcp) :
    List Rule → RawTcpPacket → Option RawTcpPacket × Tcp
  | [], pkt => (some pkt, t)
  | rule :: rules, pkt =>
      if rule.matcher pkt.remoteEp pkt.localEp then
        if rule.cbThrows pkt.remoteEp pkt.localEp then
          intercept freed ((t.setRawState pkt.twoEnd ⟨[pkt], []⟩).erase pkt.twoEnd) rules
            (pkt.dangling freed)
        else (none, t.setRawState pkt.twoEnd ⟨[pkt], []⟩)
      else intercept freed t rules pkt

/-- `tcp::make_packet`. -/
def makePacket (freed : ℕ → Byte) (t : Tcp) (pktIn : Ipv4Packet) :
    Except NetFault (Option RawTcpPacket × Tcp) := do
  let pkt ← tcpPkt pktIn
  match t.rcvRawStates pkt.twoEnd with
  | some st =>
      match st.onDataReceive with
      | cb :: rest =>
          let t := t.setRawState pkt.twoEnd { st with onDataReceive := rest }
          return (none, t.callNow { twoEnd := pkt.twoEnd, cb, pkt })
      | [] => return (none, t.setRawState pkt.twoEnd { st with pq := st.pq ++ [pkt] })
  | none => return t.intercept freed t.rules pkt

/-- `tcp::attach`: a new flow with empty queues, or an exception if there is
one. -/
def attach (t : Tcp) (key : TwoEnds) : Except TcpError Tcp :=
  match t.rcvRawStates key with
  | some _ => .error (.alreadyAttached key)
  | none => .ok (t.setRawState key ⟨[], []⟩)

/-- `tcp::detach`: the flow goes, with its packets and its waits. -/
def detach (t : Tcp) (key : TwoEnds) : Tcp := t.erase key

/-- `tcp::async_wait`: the oldest queued packet is posted to the new waiter, or
the waiter joins the queue. -/
def asyncWait (t : Tcp) (key : TwoEnds) (cb : CallbackId) : Except TcpError Tcp :=
  match t.rcvRawStates key with
  | some st =>
      match st.pq with
      | pkt :: rest => .ok ((t.setRawState key { st with pq := rest }).callLater
          { twoEnd := key, cb, pkt })
      | [] => .ok (t.setRawState key { st with onDataReceive := st.onDataReceive ++ [cb] })
  | none => .error .notConnected

/-- `tcp::rule_insert_front`. -/
def ruleInsertFront (t : Tcp) (rule : Rule) : Tcp := { t with rules := rule :: t.rules }

/-- `tcp::rule_insert_back`. -/
def ruleInsertBack (t : Tcp) (rule : Rule) : Tcp := { t with rules := t.rules ++ [rule] }

/-- What can happen to the tables. -/
inductive Event where
  /-- `ipv4` dispatches a packet to `tcp`; `freed` is what memory that has been
  given back holds. -/
  | packet (freed : ℕ → Byte) (pktIn : Ipv4Packet)
  | asyncWait (key : TwoEnds) (cb : CallbackId)
  | attach (key : TwoEnds)
  | detach (key : TwoEnds)
  | ruleInsertFront (rule : Rule)
  | ruleInsertBack (rule : Rule)
  /-- The oldest posted delivery runs. -/
  | task

/-- An exception leaves the tables as they are; it is the caller's to handle. -/
def orUnchanged (t : Tcp) : Except TcpError Tcp → Tcp
  | .ok t' => t'
  | .error _ => t

/-- Handle one event. -/
def step (t : Tcp) : Event → Except NetFault Tcp
  | .packet freed pktIn => do
      let (out, t) ← t.makePacket freed pktIn
      return { t with passedUp := t.passedUp ++ out.toList }
  | .asyncWait key cb => .ok (t.orUnchanged (t.asyncWait key cb))
  | .attach key => .ok (t.orUnchanged (t.attach key))
  | .detach key => .ok (t.detach key)
  | .ruleInsertFront rule => .ok (t.ruleInsertFront rule)
  | .ruleInsertBack rule => .ok (t.ruleInsertBack rule)
  | .task =>
      match t.ioCtx with
      | [] => .ok t
      | d :: rest => .ok { t with ioCtx := rest, called := t.called ++ [d] }

/-! ## The history of one flow

What an event brings to a flow, and what it says about which flow. -/

/-- The packets of flow `key` that an event brings. -/
def Event.arrivals (key : TwoEnds) : Event → List RawTcpPacket
  | .packet _ pktIn =>
      match tcpPkt pktIn with
      | .ok pkt => if pkt.twoEnd = key then [pkt] else []
      | .error _ => []
  | _ => []

/-- The waits on flow `key` that an event makes. -/
def Event.waits (key : TwoEnds) : Event → List CallbackId
  | .asyncWait key' cb => if key' = key then [cb] else []
  | _ => []

/-- The flow an event is about, if it is about one. -/
def Event.twoEnd? : Event → Option TwoEnds
  | .packet _ pktIn => (tcpPkt pktIn).toOption.map RawTcpPacket.twoEnd
  | .asyncWait key _ | .attach key | .detach key => some key
  | .ruleInsertFront _ | .ruleInsertBack _ | .task => none

/-- The pairs made on flow `key`. -/
def pairsOf (key : TwoEnds) (ds : List Delivery) : List (CallbackId × RawTcpPacket) :=
  (ds.filter fun d => d.twoEnd = key).map fun d => (d.cb, d.pkt)

/-- The packets of flow `key`. -/
def packetsOf (key : TwoEnds) (pkts : List RawTcpPacket) : List RawTcpPacket :=
  pkts.filter fun pkt => pkt.twoEnd = key

/-! ## Frames

A flow is one entry of a table, and an operation names the entry it touches. -/

/-- What an operation on another flow leaves alone. -/
structure SameFlow (key : TwoEnds) (t t' : Tcp) : Prop where
  rcvRawStates : t'.rcvRawStates key = t.rcvRawStates key
  paired : pairsOf key t'.paired = pairsOf key t.paired
  passedUp : packetsOf key t'.passedUp = packetsOf key t.passedUp

/-- Doing nothing leaves everything alone. -/
theorem SameFlow.refl (key : TwoEnds) (t : Tcp) : SameFlow key t t := ⟨rfl, rfl, rfl⟩

/-- An entry is one flow's. -/
theorem setRawState_of_ne {key key' : TwoEnds} (h : key' ≠ key) (t : Tcp) (st : RawState) :
    (t.setRawState key st).rcvRawStates key' = t.rcvRawStates key' :=
  Function.update_of_ne h _ _

/-- And it is what was stored. -/
theorem setRawState_self (t : Tcp) (key : TwoEnds) (st : RawState) :
    (t.setRawState key st).rcvRawStates key = some st :=
  Function.update_self _ _ _

/-- Erasing one flow leaves the others. -/
theorem erase_of_ne {key key' : TwoEnds} (h : key' ≠ key) (t : Tcp) :
    (t.erase key).rcvRawStates key' = t.rcvRawStates key' :=
  Function.update_of_ne h _ _

/-- An erased flow is not in the table. -/
theorem erase_self (t : Tcp) (key : TwoEnds) : (t.erase key).rcvRawStates key = none :=
  Function.update_self _ _ _

/-- One more delivery belongs to its own flow. -/
theorem pairsOf_append (key : TwoEnds) (ds : List Delivery) (d : Delivery) :
    pairsOf key (ds ++ [d])
      = pairsOf key ds ++ if d.twoEnd = key then [(d.cb, d.pkt)] else [] := by
  by_cases h : d.twoEnd = key <;> simp [pairsOf, h]

/-- One more delivery of the flow, behind the pairs since `ds₀`. -/
theorem pairsOf_concat {key : TwoEnds} {ds ds₀ : List Delivery}
    {pairs : List (CallbackId × RawTcpPacket)} (hpairs : pairsOf key ds = pairsOf key ds₀ ++ pairs)
    (cb : CallbackId) (pkt : RawTcpPacket) :
    pairsOf key (ds ++ [⟨key, cb, pkt⟩]) = pairsOf key ds₀ ++ (pairs ++ [(cb, pkt)]) := by
  rw [pairsOf_append, if_pos rfl, hpairs, List.append_assoc]

/-- The loop over the rules touches one entry of the table and no history, and
what it passes on is still a packet of the same flow. -/
theorem intercept_frame (freed : ℕ → Byte) (t : Tcp) (rules : List Rule) (pkt : RawTcpPacket) :
    (∀ key, key ≠ pkt.twoEnd →
      (t.intercept freed rules pkt).2.rcvRawStates key = t.rcvRawStates key) ∧
    ((t.intercept freed rules pkt).2.paired = t.paired ∧
      (t.intercept freed rules pkt).2.called = t.called ∧
      (t.intercept freed rules pkt).2.ioCtx = t.ioCtx ∧
      (t.intercept freed rules pkt).2.passedUp = t.passedUp) ∧
    ∀ out ∈ (t.intercept freed rules pkt).1, out.twoEnd = pkt.twoEnd := by
  induction rules generalizing t pkt with
  | nil => simp [intercept]
  | cons rule rules ih =>
      simp only [intercept]
      split
      · split
        · obtain ⟨htable, hrest, hout⟩ :=
            ih ((t.setRawState pkt.twoEnd ⟨[pkt], []⟩).erase pkt.twoEnd) (pkt.dangling freed)
          refine ⟨fun key hkey => ?_, hrest, hout⟩
          rw [htable key hkey, erase_of_ne hkey, setRawState_of_ne hkey]
        · exact ⟨fun key hkey => setRawState_of_ne hkey t _, ⟨rfl, rfl, rfl, rfl⟩, nofun⟩
      · exact ih t pkt

/-! ## One step

What a packet can do, and what no operation on another flow does. -/

/-- Everything a packet can do: it is given to a waiter, it is queued, or it is
offered to the rules. -/
theorem step_packet {freed : ℕ → Byte} {t t' : Tcp} {pktIn : Ipv4Packet}
    (h : step t (.packet freed pktIn) = .ok t') :
    ∃ pkt, tcpPkt pktIn = .ok pkt ∧
      ((∃ st cb rest, t.rcvRawStates pkt.twoEnd = some st ∧ st.onDataReceive = cb :: rest ∧
          t' = (t.setRawState pkt.twoEnd { st with onDataReceive := rest }).callNow
            { twoEnd := pkt.twoEnd, cb, pkt }) ∨
        (∃ st, t.rcvRawStates pkt.twoEnd = some st ∧ st.onDataReceive = [] ∧
          t' = t.setRawState pkt.twoEnd { st with pq := st.pq ++ [pkt] }) ∨
        (t.rcvRawStates pkt.twoEnd = none ∧
          t' = { (t.intercept freed t.rules pkt).2 with
            passedUp := t.passedUp ++ (t.intercept freed t.rules pkt).1.toList })) := by
  obtain ⟨⟨out, u⟩, hmake, ht'⟩ := bind_eq_ok.mp h
  obtain ⟨pkt, hpkt, hrest⟩ := bind_eq_ok.mp hmake
  refine ⟨pkt, hpkt, ?_⟩
  cases hst : t.rcvRawStates pkt.twoEnd with
  | none =>
      rw [hst] at hrest
      injection hrest with hrest
      injection ht' with ht'
      have hup := (intercept_frame freed t t.rules pkt).2.1.2.2.2
      refine .inr (.inr ⟨rfl, ?_⟩)
      rw [← ht', ← hup, hrest]
  | some st =>
      rw [hst] at hrest
      dsimp only at hrest
      split at hrest
      · rename_i cb rest hwaiting
        cases hrest
        cases ht'
        refine .inl ⟨st, cb, rest, rfl, hwaiting, ?_⟩
        simp [callNow, setRawState]
      · rename_i hwaiting
        cases hrest
        cases ht'
        refine .inr (.inl ⟨st, rfl, hwaiting, ?_⟩)
        simp [setRawState]

/-- **Operations on one flow change nothing of another one.**  The table is
looked up by the endpoints, and what is recorded of a flow is read off the
history by its endpoints as well. -/
theorem step_frame {key : TwoEnds} {t t' : Tcp} {e : Event} (h : step t e = .ok t')
    (he : e.twoEnd? ≠ some key) : SameFlow key t t' := by
  cases e with
  | packet freed pktIn =>
      obtain ⟨pkt, hpkt, hcases⟩ := step_packet h
      have hne : key ≠ pkt.twoEnd := by
        rintro rfl
        exact he (by simp [Event.twoEnd?, hpkt, Except.toOption])
      -- A waiter takes it, it is queued for the flow, or the rules are tried.
      rcases hcases with ⟨st, cb, rest, -, -, rfl⟩ | ⟨st, -, -, rfl⟩ | ⟨-, rfl⟩
      · refine ⟨setRawState_of_ne hne t _, ?_, rfl⟩
        exact (pairsOf_append _ _ _).trans (by rw [if_neg hne.symm, List.append_nil]; rfl)
      · exact ⟨setRawState_of_ne hne t _, rfl, rfl⟩
      · -- The rules are tried: what is passed up is of the flow of the packet.
        obtain ⟨htable, ⟨hpaired, -⟩, hout⟩ := intercept_frame freed t t.rules pkt
        refine ⟨htable key hne, congrArg (pairsOf key) hpaired, ?_⟩
        simp only [packetsOf, List.filter_append, List.append_right_eq_self, List.filter_eq_nil_iff]
        intro out hmem
        simpa [hout out (Option.mem_toList.mp hmem)] using hne.symm
  | asyncWait key' cb =>
      have hne : key ≠ key' := fun heq => he (by rw [heq]; rfl)
      injection h with h
      subst h
      simp only [asyncWait]
      split
      · split
        · refine ⟨setRawState_of_ne hne t _, ?_, rfl⟩
          exact (pairsOf_append _ _ _).trans (by rw [if_neg hne.symm, List.append_nil]; rfl)
        · exact ⟨setRawState_of_ne hne t _, rfl, rfl⟩
      · exact SameFlow.refl key t
  | attach key' =>
      have hne : key ≠ key' := fun heq => he (by rw [heq]; rfl)
      injection h with h
      subst h
      simp only [attach]
      split
      · exact SameFlow.refl key t
      · exact ⟨setRawState_of_ne hne t _, rfl, rfl⟩
  | detach key' =>
      have hne : key ≠ key' := fun heq => he (by rw [heq]; rfl)
      injection h with h
      subst h
      exact ⟨erase_of_ne hne t, rfl, rfl⟩
  | ruleInsertFront rule => cases h; exact ⟨rfl, rfl, rfl⟩
  | ruleInsertBack rule => cases h; exact ⟨rfl, rfl, rfl⟩
  | task =>
      simp only [step] at h
      split at h <;> cases h <;> exact ⟨rfl, rfl, rfl⟩

/-- **Every pair is delivered once**: the pairs that have been made since `t₀`
are those whose callback has been called with its packet since then, or is
posted with it. -/
def Delivered (t₀ t : Tcp) : Prop :=
  ∃ made, t.paired = t₀.paired ++ made ∧
    (t.called ++ t.ioCtx).Perm (t₀.called ++ t₀.ioCtx ++ made)

/-- Nothing has been paired, and nothing called. -/
theorem Delivered.refl (t : Tcp) : Delivered t t :=
  ⟨[], (List.append_nil _).symm, by rw [List.append_nil]⟩

/-- A pair is made, and its callback called or posted. -/
theorem Delivered.pair {t₀ t t' : Tcp} (h : Delivered t₀ t) {d : Delivery}
    (hpaired : t'.paired = t.paired ++ [d])
    (hcalled : (t'.called ++ t'.ioCtx).Perm (t.called ++ t.ioCtx ++ [d])) : Delivered t₀ t' := by
  obtain ⟨made, hmade, hperm⟩ := h
  refine ⟨made ++ [d], by rw [hpaired, hmade, List.append_assoc], ?_⟩
  rw [← List.append_assoc]
  exact hcalled.trans (hperm.append_right _)

/-- No pair is made, and a posted callback is called at most. -/
theorem Delivered.congr {t₀ t t' : Tcp} (h : Delivered t₀ t) (hpaired : t'.paired = t.paired)
    (hcalled : t'.called ++ t'.ioCtx = t.called ++ t.ioCtx) : Delivered t₀ t' := by
  obtain ⟨made, hmade, hperm⟩ := h
  exact ⟨made, hpaired.trans hmade, hcalled ▸ hperm⟩

/-- **One step delivers every pair it makes**, by calling the waiter or by
posting it.  The pairs are recorded where the source calls or posts, so the
statement ties the record to what is called. -/
theorem Delivered.step {t₀ t t' : Tcp} {e : Event} (h : Delivered t₀ t)
    (hstep : Tcp.step t e = .ok t') : Delivered t₀ t' := by
  cases e with
  | packet freed pktIn =>
      obtain ⟨pkt, -, hcases⟩ := step_packet hstep
      rcases hcases with ⟨st, cb, rest, -, -, rfl⟩ | ⟨st, -, -, rfl⟩ | ⟨-, rfl⟩
      · -- A waiter is there: it is called at once.
        refine h.pair rfl ?_
        simp only [callNow, setRawState, List.append_assoc]
        exact List.perm_append_comm.append_left _
      · exact h.congr rfl rfl
      · obtain ⟨-, ⟨hpaired, hcalled, hposted, -⟩, -⟩ := intercept_frame freed t t.rules pkt
        exact h.congr hpaired (congrArg₂ _ hcalled hposted)
  | asyncWait key cb =>
      injection hstep with hstep
      subst hstep
      simp only [asyncWait]
      split
      · split
        · -- A packet is there: the callback is posted with it.
          exact h.pair rfl (List.append_assoc _ _ _ ▸ List.Perm.refl _)
        · exact h.congr rfl rfl
      · exact h
  | attach key =>
      injection hstep with hstep
      subst hstep
      simp only [attach]
      split
      · exact h
      · exact h.congr rfl rfl
  | task =>
      simp only [Tcp.step] at hstep
      split at hstep
      · obtain rfl := Except.ok.inj hstep
        exact h
      · -- The oldest posted delivery moves to the called ones.
        rename_i d rest hposted
        obtain rfl := Except.ok.inj hstep
        refine h.congr rfl ?_
        rw [hposted, List.append_assoc]
        rfl
  | detach key =>
      obtain rfl := Except.ok.inj hstep
      exact h.congr rfl rfl
  | ruleInsertFront rule =>
      obtain rfl := Except.ok.inj hstep
      exact h.congr rfl rfl
  | ruleInsertBack rule =>
      obtain rfl := Except.ok.inj hstep
      exact h.congr rfl rfl

/-- And so does a run. -/
theorem Delivered.run {t₀ t t' : Tcp} {es : List Event} (h : Delivered t₀ t)
    (hrun : EventSystem.run Tcp.step t es = .ok t') : Delivered t₀ t' :=
  run_invariant (P := Delivered t₀) (fun _ _ _ hs _ hstep => hs.step hstep) h
    (admitted_of_forall (fun _ _ => trivial) t es) hrun

/-! ## Service of one flow

The invariant is over two streams: the packets and the waits that the flow has
seen since it began. -/

/-- Flow `key` has been served first-in, first-out since `t₀`: `items` are the
packets and `waiters` the waits it has seen since, and no packet of it was
passed up. -/
structure Served (key : TwoEnds) (t₀ : Tcp) (items : List RawTcpPacket)
    (waiters : List CallbackId) (t : Tcp) : Prop where
  matched : ∃ st pairs, t.rcvRawStates key = some st ∧
    pairsOf key t.paired = pairsOf key t₀.paired ++ pairs ∧
    Rendezvous.Matched items waiters pairs st.pq st.onDataReceive
  passedUp : packetsOf key t.passedUp = packetsOf key t₀.passedUp

/-- An operation on another flow does not disturb service. -/
theorem Served.frame {key : TwoEnds} {t₀ t t' : Tcp} {items : List RawTcpPacket}
    {waiters : List CallbackId} (h : Served key t₀ items waiters t) (hsame : SameFlow key t t') :
    Served key t₀ items waiters t' where
  matched := by
    obtain ⟨st, pairs, htable, hpairs, hmatched⟩ := h.matched
    exact ⟨st, pairs, hsame.rcvRawStates.trans htable, hsame.paired.trans hpairs, hmatched⟩
  passedUp := hsame.passedUp.trans h.passedUp

/-- An event that is about another flow brings nothing to this one. -/
theorem Event.arrivals_waits_eq_nil {key : TwoEnds} {e : Event} (he : e.twoEnd? ≠ some key) :
    e.arrivals key = [] ∧ e.waits key = [] := by
  cases e with
  | packet freed pktIn =>
      refine ⟨?_, rfl⟩
      simp only [arrivals]
      split
      · rename_i pkt hpkt
        rw [if_neg]
        rintro rfl
        exact he (by simp [Event.twoEnd?, hpkt, Except.toOption])
      · rfl
  | asyncWait key' cb =>
      refine ⟨rfl, ?_⟩
      rw [waits, if_neg]
      rintro rfl
      exact he rfl
  | _ => exact ⟨rfl, rfl⟩

/-- A packet of the flow goes to the oldest wait, or is queued. -/
theorem Served.packet {freed : ℕ → Byte} {t₀ t t' : Tcp} {items : List RawTcpPacket}
    {waiters : List CallbackId} {pktIn : Ipv4Packet} {pkt : RawTcpPacket}
    (h : Served pkt.twoEnd t₀ items waiters t) (hpkt : tcpPkt pktIn = .ok pkt)
    (hstep : Tcp.step t (.packet freed pktIn) = .ok t') :
    Served pkt.twoEnd t₀ (items ++ [pkt]) waiters t' := by
  obtain ⟨st, pairs, htable, hpairs, hmatched⟩ := h.matched
  obtain ⟨pkt', hpkt', hcases⟩ := step_packet hstep
  obtain rfl : pkt' = pkt := Except.ok.inj (hpkt'.symm.trans hpkt)
  rcases hcases with ⟨st', cb, rest, hst', hwaiting, rfl⟩ | ⟨st', hst', hwaiting, rfl⟩ | ⟨hnone, -⟩
  · obtain rfl : st = st' := Option.some.inj (htable.symm.trans hst')
    obtain hpq : st.pq = [] := hmatched.exclusive.resolve_right (by simp [hwaiting])
    rw [hpq, hwaiting] at hmatched
    refine ⟨⟨_, pairs ++ [(cb, pkt')], setRawState_self _ _ _, pairsOf_concat hpairs cb pkt',
      ?_⟩, h.passedUp⟩
    dsimp only
    rw [hpq]
    exact hmatched.item_taken pkt'
  · obtain rfl : st = st' := Option.some.inj (htable.symm.trans hst')
    rw [hwaiting] at hmatched
    refine ⟨⟨_, pairs, setRawState_self _ _ _, hpairs, ?_⟩, h.passedUp⟩
    dsimp only
    rw [hwaiting]
    exact hmatched.item_kept pkt'
  · -- The flow is in the table, so no rule is tried.
    rw [htable] at hnone
    cases hnone

/-- A wait gets the oldest queued packet, or joins the others. -/
theorem Served.asyncWait {key : TwoEnds} {t₀ t t' : Tcp} {items : List RawTcpPacket}
    {waiters : List CallbackId} {cb : CallbackId} (h : Served key t₀ items waiters t)
    (hstep : Tcp.step t (.asyncWait key cb) = .ok t') :
    Served key t₀ items (waiters ++ [cb]) t' := by
  obtain ⟨st, pairs, htable, hpairs, hmatched⟩ := h.matched
  injection hstep with hstep
  subst hstep
  simp only [Tcp.asyncWait, htable]
  cases hpq : st.pq with
  | cons pkt rest =>
      obtain hwaiting : st.onDataReceive = [] :=
        hmatched.exclusive.resolve_left (by simp [hpq])
      rw [hpq, hwaiting] at hmatched
      refine ⟨⟨_, pairs ++ [(cb, pkt)], setRawState_self _ _ _, pairsOf_concat hpairs cb pkt,
        ?_⟩, h.passedUp⟩
      dsimp only
      rw [hwaiting]
      exact hmatched.wait_served cb
  | nil =>
      rw [hpq] at hmatched
      refine ⟨⟨_, pairs, setRawState_self _ _ _, hpairs, ?_⟩, h.passedUp⟩
      exact hmatched.wait_kept cb

/-- **One step serves the flow**, unless it detaches it.  On other flows
nothing happens to it (`step_frame`); on its own an arrival or a wait is one
step of the rendezvous. -/
theorem Served.step {key : TwoEnds} {t₀ t t' : Tcp} {items : List RawTcpPacket}
    {waiters : List CallbackId} {e : Event} (h : Served key t₀ items waiters t)
    (he : e ≠ .detach key) (hstep : Tcp.step t e = .ok t') :
    Served key t₀ (items ++ e.arrivals key) (waiters ++ e.waits key) t' := by
  -- An event about another flow is a frame step.
  by_cases habout : e.twoEnd? = some key
  swap
  · obtain ⟨harrivals, hwaits⟩ := Event.arrivals_waits_eq_nil habout
    rw [harrivals, hwaits, List.append_nil, List.append_nil]
    exact h.frame (step_frame hstep habout)
  cases e with
  | packet freed pktIn =>
      obtain ⟨pkt, hpkt, -⟩ := step_packet hstep
      obtain rfl : pkt.twoEnd = key := by
        simpa [Event.twoEnd?, hpkt, Except.toOption] using habout
      have harrivals : Event.arrivals pkt.twoEnd (.packet freed pktIn) = [pkt] := by
        simp [Event.arrivals, hpkt]
      have hwaits : Event.waits pkt.twoEnd (.packet freed pktIn) = [] := rfl
      rw [harrivals, hwaits, List.append_nil]
      exact h.packet hpkt hstep
  | asyncWait key' cb =>
      obtain rfl : key' = key := by simpa [Event.twoEnd?] using habout
      have harrivals : Event.arrivals key' (.asyncWait key' cb) = [] := rfl
      rw [harrivals, List.append_nil, Event.waits, if_pos rfl]
      exact h.asyncWait hstep
  | attach key' =>
      obtain rfl : key' = key := by simpa [Event.twoEnd?] using habout
      injection hstep with hstep
      subst hstep
      -- The key is taken, so `attach` throws.
      obtain ⟨st, -, htable, -⟩ := h.matched
      simp only [attach, htable, Event.arrivals, Event.waits, List.append_nil]
      exact h
  | detach key' => exact absurd (by simpa [Event.twoEnd?] using habout) he
  | ruleInsertFront rule => cases habout
  | ruleInsertBack rule => cases habout
  | task => cases habout

/-- A run serves the flow as long as it is not detached. -/
theorem Served.run {key : TwoEnds} {t₀ t t' : Tcp} {items : List RawTcpPacket} {es : List Event}
    (h : Served key t₀ items [] t) (hes : .detach key ∉ es)
    (hrun : EventSystem.run Tcp.step t es = .ok t') :
    Served key t₀ (items ++ es.flatMap (Event.arrivals key)) (es.flatMap (Event.waits key)) t' := by
  have hadm : Admitted Tcp.step (fun _ e => e ≠ .detach key) t es :=
    admitted_of_mem (fun _ hmem _ => ne_of_mem_of_not_mem hmem hes) t
  refine run_history (P := fun past t => Served key t₀
    (items ++ past.flatMap (Event.arrivals key)) (past.flatMap (Event.waits key)) t)
    ?_ (by simpa using h) hadm hrun
  intro past s e s' hserved he hstep
  have hnext := hserved.step he hstep
  simpa [List.flatMap_append] using hnext

/-! ## How a flow begins

The two ways into the table. -/

/-- The first rule that matches the flow of `pkt`. -/
def firstMatch (rules : List Rule) (pkt : RawTcpPacket) : Option Rule :=
  rules.find? fun rule => rule.matcher pkt.remoteEp pkt.localEp

/-- A flow that the rules have created holds one packet, which was not passed
up: the packet itself, unless the callback of an earlier matching rule threw. -/
theorem intercept_created {freed : ℕ → Byte} {t : Tcp} {rules : List Rule} {pkt : RawTcpPacket}
    {st : RawState} (habsent : t.rcvRawStates pkt.twoEnd = none)
    (h : (t.intercept freed rules pkt).2.rcvRawStates pkt.twoEnd = some st) :
    (t.intercept freed rules pkt).1 = none ∧ ∃ q, st = ⟨[q], []⟩ ∧ q.twoEnd = pkt.twoEnd ∧
      ((∀ rule ∈ firstMatch rules pkt, rule.cbThrows pkt.remoteEp pkt.localEp = false) →
        q = pkt) := by
  induction rules generalizing t pkt with
  | nil => simp [intercept, habsent] at h
  | cons rule rules ih =>
      simp only [intercept] at h ⊢
      by_cases hmatch : rule.matcher pkt.remoteEp pkt.localEp
      · have hfirst : firstMatch (rule :: rules) pkt = some rule := by
          simp [firstMatch, hmatch]
        rw [if_pos hmatch] at h ⊢
        by_cases hthrows : rule.cbThrows pkt.remoteEp pkt.localEp
        · rw [if_pos hthrows] at h ⊢
          obtain ⟨hout, q, hst, hq, -⟩ := @ih _ (pkt.dangling freed) (erase_self _ _) h
          refine ⟨hout, q, hst, hq, fun hok => ?_⟩
          have := hok rule hfirst
          rw [hthrows] at this
          cases this
        · rw [if_neg hthrows] at h ⊢
          rw [setRawState_self] at h
          cases h
          exact ⟨rfl, pkt, rfl, rfl, fun _ => rfl⟩
      · rw [if_neg hmatch] at h ⊢
        have hfirst : firstMatch (rule :: rules) pkt = firstMatch rules pkt := by
          simp [firstMatch, hmatch]
        rw [hfirst]
        exact ih habsent h

/-- How a flow came into the table: by `attach`, empty, or by a rule, with the
packet the rule matched already queued. -/
def Begins (key : TwoEnds) (t : Tcp) (e : Event) (first : List RawTcpPacket) : Prop :=
  (e = .attach key ∧ first = []) ∨
    ∃ freed pktIn pkt q, e = .packet freed pktIn ∧ tcpPkt pktIn = .ok pkt ∧ pkt.twoEnd = key ∧
      first = [q] ∧ q.twoEnd = key ∧
      ((∀ rule ∈ firstMatch t.rules pkt, rule.cbThrows pkt.remoteEp pkt.localEp = false) → q = pkt)

/-- The step that puts a flow into the table starts its service. -/
theorem served_start {key : TwoEnds} {t t' : Tcp} {e : Event} {st : RawState}
    (habsent : t.rcvRawStates key = none) (hstep : step t e = .ok t')
    (hst : t'.rcvRawStates key = some st) :
    Begins key t e st.pq ∧ Served key t st.pq [] t' := by
  have habout : e.twoEnd? = some key := by
    -- An event of another flow leaves the table at this key alone.
    by_contra hother
    rw [(step_frame hstep hother).rcvRawStates, habsent] at hst
    cases hst
  cases e with
  | packet freed pktIn =>
      obtain ⟨pkt, hpkt, hcases⟩ := step_packet hstep
      obtain rfl : pkt.twoEnd = key := by
        simpa [Event.twoEnd?, hpkt, Except.toOption] using habout
      rcases hcases with ⟨st', -, -, hsome, -⟩ | ⟨st', hsome, -⟩ | ⟨-, rfl⟩
      · rw [habsent] at hsome
        cases hsome
      · rw [habsent] at hsome
        cases hsome
      · -- A rule takes the flow, with the packet or with what is left of it.
        obtain ⟨hout, q, rfl, hq, hfirst⟩ := intercept_created habsent hst
        obtain ⟨-, ⟨hpaired, -⟩, -⟩ := intercept_frame freed t t.rules pkt
        refine ⟨.inr ⟨freed, pktIn, pkt, q, rfl, hpkt, rfl, rfl, hq, hfirst⟩, ?_, ?_⟩
        · refine ⟨_, [], hst, ?_, Rendezvous.matched_start [q]⟩
          rw [List.append_nil]
          exact congrArg (pairsOf pkt.twoEnd) hpaired
        · simp [hout]
  | asyncWait key' cb =>
      obtain rfl : key' = key := by simpa [Event.twoEnd?] using habout
      injection hstep with hstep
      subst hstep
      simp [asyncWait, habsent, orUnchanged] at hst
  | attach key' =>
      obtain rfl : key' = key := by simpa [Event.twoEnd?] using habout
      injection hstep with hstep
      subst hstep
      simp only [attach, habsent, orUnchanged, setRawState_self, Option.some.injEq] at hst ⊢
      subst hst
      refine ⟨.inl ⟨rfl, rfl⟩, ⟨_, [], setRawState_self _ _ _, ?_, Rendezvous.matched_start []⟩, rfl⟩
      exact (List.append_nil _).symm
  -- These events put nothing into the table.
  | detach key' =>
      obtain rfl : key' = key := by simpa [Event.twoEnd?] using habout
      injection hstep with hstep
      subst hstep
      rw [detach, erase_self] at hst
      cases hst
  | ruleInsertFront rule => cases habout
  | ruleInsertBack rule => cases habout
  | task => cases habout

/-- **Raw-flow rendezvous is first-in, first-out and lossless.**  From the
event that puts a flow into the table on, and as long as the flow is not
detached, the packets of the flow and the waits on it are matched in order of
arrival: what has been paired is the two streams zipped, the queues hold the
rest, at most one of them is not empty, and no packet is passed up.  Of every
pair that has been made, the callback has been called with the packet, once, or
is posted with it (`Delivered`).  An event that is not about a flow does not
change its queues. -/
theorem raw_flow_rendezvous {key : TwoEnds} {t t₁ t₂ : Tcp} {e : Event} {es : List Event}
    {st₁ : RawState} (habsent : t.rcvRawStates key = none) (hbegin : step t e = .ok t₁)
    (hpresent : t₁.rcvRawStates key = some st₁) (hes : .detach key ∉ es)
    (hrun : EventSystem.run step t₁ es = .ok t₂) :
    Begins key t e st₁.pq ∧ st₁.onDataReceive = [] ∧
    (∃ st₂, t₂.rcvRawStates key = some st₂ ∧
      pairsOf key t₂.paired = pairsOf key t.paired ++
        (es.flatMap (Event.waits key)).zip (st₁.pq ++ es.flatMap (Event.arrivals key)) ∧
      st₂.pq = (st₁.pq ++ es.flatMap (Event.arrivals key)).drop
        (es.flatMap (Event.waits key)).length ∧
      st₂.onDataReceive = (es.flatMap (Event.waits key)).drop
        (st₁.pq ++ es.flatMap (Event.arrivals key)).length ∧
      (st₂.pq = [] ∨ st₂.onDataReceive = [])) ∧
    Delivered t t₂ ∧ packetsOf key t₂.passedUp = packetsOf key t.passedUp ∧
    ∀ s s' e' key', step s e' = .ok s' → e'.twoEnd? ≠ some key' →
      s'.rcvRawStates key' = s.rcvRawStates key' := by
  obtain ⟨hbegins, hserved⟩ := served_start habsent hbegin hpresent
  have hempty : st₁.onDataReceive = [] := by
    obtain ⟨st, pairs, htable, -, hmatched⟩ := hserved.matched
    obtain rfl : st₁ = st := Option.some.inj (hpresent.symm.trans htable)
    exact (List.append_eq_nil_iff.mp hmatched.waiters_eq.symm).2
  have hend := hserved.run hes hrun
  obtain ⟨st₂, pairs, htable, hpairs, hmatched⟩ := hend.matched
  refine ⟨hbegins, hempty, ⟨st₂, htable, ?_, hmatched.ready_eq, hmatched.waiting_eq,
    hmatched.exclusive⟩, ((Delivered.refl t).step hbegin).run hrun, hend.passedUp,
    fun s s' e' key' hs he' => (step_frame hs he').rcvRawStates⟩
  rw [hpairs, hmatched.pairs_eq]

/-- A segment without text from port `srcPort` of host 1 to port 2 of host 2,
as `ipv4` dispatches it. -/
def bareSegment (srcPort : BitVec 16) : Ipv4Packet where
  srcAddrv4 := 1
  dstAddrv4 := 2
  proto := 0x06
  skb := ⟨[], { TcpHeader.bare with srcPort, dstPort := 2 }.produceToNet, []⟩

/-- A flow that a rule has created, with a packet of another flow, two waits
and a second packet after it: the waits get the two packets in order. -/
theorem intercepted_flow_in_order :
    ∃ t₁ st₁ t₂ pkt, tcpPkt (bareSegment 1) = .ok pkt ∧
      step (create.ruleInsertBack ⟨fun remote _ => remote.addrv4Port = 1, fun _ _ => false⟩)
        (.packet (fun _ => 0) (bareSegment 1)) = .ok t₁ ∧
      t₁.rcvRawStates pkt.twoEnd = some st₁ ∧ st₁.pq = [pkt] ∧
      EventSystem.run step t₁ [.packet (fun _ => 0) (bareSegment 3), .asyncWait pkt.twoEnd 7,
        .asyncWait pkt.twoEnd 8, .packet (fun _ => 0) (bareSegment 1)] = .ok t₂ ∧
      pairsOf pkt.twoEnd t₂.paired = [(7, pkt), (8, pkt)] ∧
      (t₂.called ++ t₂.ioCtx).Perm t₂.paired := by
  obtain ⟨pkt, hpkt⟩ : ∃ pkt, tcpPkt (bareSegment 1) = .ok pkt := ⟨_, rfl⟩
  obtain ⟨t₁, hbegin⟩ : ∃ t₁, step
      (create.ruleInsertBack ⟨fun remote _ => remote.addrv4Port = 1, fun _ _ => false⟩)
      (.packet (fun _ => 0) (bareSegment 1)) = .ok t₁ := ⟨_, rfl⟩
  have hpresent : t₁.rcvRawStates pkt.twoEnd = some ⟨[pkt], []⟩ := by
    cases hpkt
    cases hbegin
    rfl
  obtain ⟨t₂, hrun⟩ : ∃ t₂, EventSystem.run step t₁ [.packet (fun _ => 0) (bareSegment 3),
      .asyncWait pkt.twoEnd 7, .asyncWait pkt.twoEnd 8,
      .packet (fun _ => 0) (bareSegment 1)] = .ok t₂ := by
    cases hpkt
    cases hbegin
    exact ⟨_, rfl⟩
  obtain ⟨-, -, ⟨st₂, -, hpairs, -⟩, ⟨made, hmade, hperm⟩, -⟩ :=
    raw_flow_rendezvous (by rfl) hbegin hpresent (by simp) hrun
  refine ⟨t₁, _, t₂, pkt, hpkt, hbegin, hpresent, rfl, hrun, hpairs.trans ?_, hmade ▸ hperm⟩
  cases hpkt
  rfl

end Tcp

end Mstack
