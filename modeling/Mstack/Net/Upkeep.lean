import Mstack.Net.Host

/-!
# What a host keeps

Every event of a host is a few small operations: a handler takes an element out
of its queue, an element is enqueued, a packet is submitted.  `Ran`, `Routed`
and `Received` say which, for a handler, for `ipv4::process` and for a frame
that arrives.  They are the inversion lemmas of the functions involved, stated
as inductive relations; behind them no proof opens a function of the namespace.

What a host keeps is kept by each of these operations:

* `Served` — for every element of a queue one handler has been posted.
* `Contents` — what is in the queues is what the next layer can take, and all
  bindings of addresses to MAC addresses, learned or told, hold on the network.
* `KnowsSources` — every route starts at an address whose MAC is known.
* `Upkeep` — the three of them, with the accounts of `Net.Resolve`.

`Upkeep.handler` and `Upkeep.receive`: so no host ever aborts, and none tells
anything false.

### `owns`

Which addresses have which MAC addresses is a relation `owns`, and nothing is
said about it: a host may have several addresses, an address several hosts.  It
is what is *true on the network*.  `Told` is what a frame says: an ARP packet
says that its sender's address has the sender's MAC, a datagram that its next
hop has the MAC it is sent to.

### What is load-bearing

`ipv4::process` asserts that the cache knows the MAC of the route's own address
(`assert(src_mac_opt)`).  A route can be configured without it, and a reset can
take it away, so `KnowsSources` is an assumption at the start and on resets.
Learning keeps it: what arrives adds to the cache and replaces nothing.
-/

namespace Mstack

open BigEndian EventSystem

namespace Netns

/-! ## What an event does

The functions of the namespace, inverted. -/

/-- The packet is given to address resolution. -/
def submit (s : Netns) (sub : Submission) : Netns :=
  { s with
    seq := s.seq + 1
    wrappers := s.wrappers ++ [sub.frame]
    submissions := s.submissions ++ [sub] }

/-- The newest packet waits for `addr`. -/
def await (s : Netns) (addr : Ipv4Addr) (w : ℕ) : Netns :=
  { s with onReplies := Function.update s.onReplies addr (s.onReplies addr ++ [w]) }

/-- **What `ipv4::process` makes of a namespace.**  The next hop is known and a
task is posted, it is not known and is asked for, or there is no route, and
only the counter of datagrams has moved. -/
inductive Routed (s : Netns) (pkt : Ipv4Packet) : Netns → Prop where
  | unroutable (hnh : s.rt.nh pkt.dstAddrv4 = none) : Routed s pkt { s with seq := s.seq + 1 }
  | known {nh : RouteRecord} {sub : Submission} {mac : MacAddr}
      (hnh : s.rt.nh pkt.dstAddrv4 = some nh) (hpkt : sub.pkt = pkt)
      (hframe : sub.frame.HoldsDatagram) (hvia : sub.via = nh.viaAddrv4)
      (hcached : sub.cached = some mac) (hmac : s.neighs sub.via = some mac) :
      Routed s pkt ((s.submit sub).post (.resolve s.wrappers.length mac))
  | unknown {nh : RouteRecord} {sub : Submission} {srcMac : MacAddr} {out : EthernetFrame}
      (hnh : s.rt.nh pkt.dstAddrv4 = some nh) (hpkt : sub.pkt = pkt)
      (hframe : sub.frame.HoldsDatagram) (hvia : sub.via = nh.viaAddrv4)
      (hcached : sub.cached = none) (hmac : s.neighs sub.via = none)
      (hsrc : s.neighs nh.fromAddrv4 = some srcMac)
      (hout : out.HoldsArp (.request srcMac nh.fromAddrv4 sub.via)) :
      Routed s pkt (((s.submit sub).await sub.via s.wrappers.length).arpEnqueue out)

/-- Every route starts at an address whose MAC is known. -/
def KnowsSources (s : Netns) : Prop :=
  ∀ dst nh, s.rt.nh dst = some nh → s.neighs nh.fromAddrv4 ≠ none

/-- **`ipv4::process` on a packet that can be sent** drops it, posts its frame,
or asks for an address. -/
theorem ipv4Process_routed {s : Netns} {pkt : Ipv4Packet} (hsrc : s.KnowsSources)
    (hpkt : pkt.Sendable) (junk : ℕ → Byte) :
    ∃ s', s.ipv4Process junk pkt = .ok s' ∧ s.Routed pkt s' := by
  obtain ⟨skb, hskb, hframe⟩ := hpkt.skbOut s.seq
  rw [ipv4Process, hskb, ok_bind]
  cases hnh : s.rt.nh pkt.dstAddrv4 with
  | none => exact ⟨_, rfl, .unroutable hnh⟩
  | some nh =>
      obtain ⟨srcMac, hsrcMac⟩ := Option.ne_none_iff_exists'.mp (hsrc _ nh hnh)
      simp only [NeighCache.query, hsrcMac, asyncResolve]
      cases hmac : s.neighs nh.viaAddrv4 with
      | some mac =>
          have hrouted : s.Routed pkt ((s.submit ⟨pkt, s.seq, ⟨srcMac, 0, Ipv4.PROTO, skb,
              some nh.dev⟩, nh.viaAddrv4, some mac⟩).post (.resolve s.wrappers.length mac)) :=
            .known hnh rfl (hframe srcMac 0 nh.dev) rfl rfl hmac
          exact ⟨_, rfl, hrouted⟩
      | none =>
          obtain ⟨out, hout, hholds⟩ := asyncRequest_eq
            (((s.submit ⟨pkt, s.seq, ⟨srcMac, 0, Ipv4.PROTO, skb, some nh.dev⟩, nh.viaAddrv4,
              none⟩).await nh.viaAddrv4 s.wrappers.length)) junk srcMac nh.fromAddrv4
            nh.viaAddrv4 nh.dev
          exact ⟨_, hout, .unknown hnh rfl (hframe srcMac 0 nh.dev) rfl rfl hmac hsrcMac hholds⟩

/-- **What running the handler at position `i` makes of a namespace.**  One
constructor for each kind of handler, with the layer's function on the element
it takes. -/
inductive Ran (s : Netns) (i : ℕ) : Netns → Prop where
  | tcbManager {pkt : RawTcpPacket} {rest : List RawTcpPacket} {ip : Ipv4Packet}
      (hi : s.ioCtx[i]? = some .tcbManager) (hqueue : s.tcbmQueue = pkt :: rest)
      (hip : Tcp.process pkt = .ok ip) :
      Ran s i ({ s with ioCtx := s.ioCtx.eraseIdx i, tcbmQueue := rest }.tcpEnqueue ip)
  | tcp {pkt : Ipv4Packet} {rest : List Ipv4Packet} {s' : Netns}
      (hi : s.ioCtx[i]? = some .tcp) (hqueue : s.tcpQueue = pkt :: rest)
      (hrouted : Routed { s with ioCtx := s.ioCtx.eraseIdx i, tcpQueue := rest } pkt s') : Ran s i s'
  | icmp {pkt : Ipv4Packet} {rest : List Ipv4Packet} {s' : Netns}
      (hi : s.ioCtx[i]? = some .icmp) (hqueue : s.icmpQueue = pkt :: rest)
      (hrouted : Routed { s with ioCtx := s.ioCtx.eraseIdx i, icmpQueue := rest } pkt s') : Ran s i s'
  | arp {frame : EthernetFrame} {rest : List EthernetFrame} {out : Skbuff × DeviceId}
      (hi : s.ioCtx[i]? = some .arp) (hqueue : s.arpQueue = frame :: rest)
      (hout : Ethernetv2.process frame = .ok out) (hbytes : out.1.payload = frame.onWire) :
      Ran s i ({ s with ioCtx := s.ioCtx.eraseIdx i, arpQueue := rest }.ethEnqueue out)
  | ipv4 {frame : EthernetFrame} {rest : List EthernetFrame} {out : Skbuff × DeviceId}
      (hi : s.ioCtx[i]? = some .ipv4) (hqueue : s.ipv4Queue = frame :: rest)
      (hout : Ethernetv2.process frame = .ok out) (hbytes : out.1.payload = frame.onWire) :
      Ran s i ({ s with ioCtx := s.ioCtx.eraseIdx i, ipv4Queue := rest }.ethEnqueue out)
  | ethernetv2 {out : Skbuff × DeviceId} {rest : List (Skbuff × DeviceId)}
      (hi : s.ioCtx[i]? = some .ethernetv2) (hqueue : s.ethQueue = out :: rest) :
      Ran s i { s with
        ioCtx := s.ioCtx.eraseIdx i, ethQueue := rest, device := s.device ++ [out] }
  | resolve {w : ℕ} {mac : MacAddr} {frame : EthernetFrame}
      (hi : s.ioCtx[i]? = some (.resolve w mac)) (hframe : s.wrappers[w]? = some frame) :
      Ran s i ({ s with
        ioCtx := s.ioCtx.eraseIdx i
        wrappers := s.wrappers.set w frame.movedFrom }.ipv4Enqueue w
          { frame with dstMacAddr := mac })

/-- A reply has been processed: the packets of `outs` have left. -/
structure Replied (s : Netns) (inArp : ArpHeader) (outs : List (ℕ × EthernetFrame))
    (s' : Netns) : Prop where
  state : ∃ wrappers, s' = { s.arpUpdate inArp.sha inArp.spa with
    onReplies := Function.update s.onReplies inArp.spa []
    replies := s.replies ++ [(inArp.spa, inArp.sha)]
    wrappers
    ipv4Queue := s.ipv4Queue ++ outs.map Prod.snd
    enqueued := s.enqueued ++ outs
    ioCtx := s.ioCtx ++ outs.map fun _ => .ipv4 }
  waited : outs.map Prod.fst = s.onReplies inArp.spa

/-- **What a frame that arrives makes of a namespace.**  Five ways: it is
ignored, a request teaches, or is answered as well, a reply releases what
waits, an echo request is answered. -/
inductive Received (s : Netns) (bs : List Byte) : Netns → Prop where
  | ignored : Received s bs s
  | learned {inArp : ArpHeader} (harp : arpOf bs = some inArp) (hrequest : inArp.IsRequest)
      (htarget : (s.arpUpdate inArp.sha inArp.spa).neighs inArp.tpa = none) :
      Received s bs (s.arpUpdate inArp.sha inArp.spa)
  | answered {inArp : ArpHeader} {tha : MacAddr} {out : EthernetFrame}
      (harp : arpOf bs = some inArp) (hrequest : inArp.IsRequest)
      (htarget : (s.arpUpdate inArp.sha inArp.spa).neighs inArp.tpa = some tha)
      (hout : out.HoldsArp (.reply tha inArp.tpa inArp.sha inArp.spa)) :
      Received s bs ((s.arpUpdate inArp.sha inArp.spa).arpEnqueue out)
  | replied {inArp : ArpHeader} {outs : List (ℕ × EthernetFrame)} {s' : Netns}
      (harp : arpOf bs = some inArp) (hreply : inArp.IsReply) (h : Replied s inArp outs s') :
      Received s bs s'
  | echoed {reply : Ipv4Packet} (harp : arpOf bs = none) (hreply : reply.Sendable) :
      Received s bs (s.icmpEnqueue reply)

/-- The slots of a signal are called in order. -/
theorem onReply_state {s s' : Netns} {mac : MacAddr} {slots : List ℕ}
    (h : s.onReply mac slots = .ok s') :
    ∃ wrappers outs, outs.map Prod.fst = slots ∧ s' = { s with
      wrappers
      ipv4Queue := s.ipv4Queue ++ outs.map Prod.snd
      enqueued := s.enqueued ++ outs
      ioCtx := s.ioCtx ++ outs.map fun _ => .ipv4 } := by
  induction slots generalizing s with
  | nil =>
      obtain rfl := Except.ok.inj h
      exact ⟨s.wrappers, [], rfl, by simp⟩
  | cons w slots ih =>
      obtain ⟨t, ht, hrest⟩ := bind_eq_ok.mp h
      unfold onResolved at ht
      split at ht
      · cases ht
      · rename_i frame hframe
        obtain rfl := Except.ok.inj ht
        obtain ⟨wrappers, outs, houts, rfl⟩ := ih hrest
        refine ⟨wrappers, (w, { frame with dstMacAddr := mac }) :: outs,
          by rw [List.map_cons, houts], ?_⟩
        simp [ipv4Enqueue, post]

/-- **`arp::process_reply`** releases what waits. -/
theorem processReply_replied {s : Netns} (h : s.ledger.Accounts []) (inArp : ArpHeader) :
    ∃ s' outs, s.processReply inArp = .ok s' ∧ Replied s inArp outs s' := by
  obtain ⟨s', -, hs', -⟩ := processReply_releases h inArp
  obtain ⟨wrappers, outs, houts, hstate⟩ := onReply_state hs'
  have hupdate : s.arpUpdate inArp.sha inArp.spa =
      { s with neighs := (s.arpUpdate inArp.sha inArp.spa).neighs } := by
    unfold arpUpdate
    split <;> rfl
  have hsame {α : Type} (f : Netns → α) (hf : ∀ neighs, f { s with neighs } = f s) :
      f (s.arpUpdate inArp.sha inArp.spa) = f s := by
    rw [hupdate]
    exact hf _
  refine ⟨s', outs, hs', ⟨⟨wrappers, ?_⟩, ?_⟩⟩
  · rw [hstate]
    simp only [hsame onReplies fun _ => rfl, hsame replies fun _ => rfl,
      hsame ipv4Queue fun _ => rfl, hsame enqueued fun _ => rfl, hsame ioCtx fun _ => rfl]
  · rw [houts, hsame onReplies fun _ => rfl]

/-- **A readable frame is received**, in one of five ways. -/
theorem receive_received {s : Netns} {bs : List Byte} (h : s.ledger.Accounts [])
    (hreadable : Readable bs) (dev : DeviceId) :
    ∃ s', s.receive dev bs = .ok s' ∧ s.Received bs s' := by
  cases harp : arpOf bs with
  | none =>
      rcases receive_other harp hreadable s dev with hsame | ⟨reply, hreply, hechoed⟩
      · exact ⟨s, hsame, .ignored⟩
      · exact ⟨_, hechoed, .echoed harp hreply⟩
  | some inArp =>
      by_cases hrequest : inArp.IsRequest
      · rcases receive_request harp hrequest s dev with
          ⟨htarget, hlearned⟩ | ⟨tha, out, htarget, hout, hanswered⟩
        · exact ⟨_, hlearned, .learned harp hrequest htarget⟩
        · exact ⟨_, hanswered, .answered harp hrequest htarget hout⟩
      · by_cases hreply : inArp.IsReply
        · obtain ⟨s', outs, hs', hreplied⟩ := processReply_replied h inArp
          exact ⟨s', (receive_reply harp hreply s dev).trans hs', .replied harp hreply hreplied⟩
        · exact ⟨s, receive_neither harp hrequest hreply s dev, .ignored⟩

/-! ## Queues and handlers

The order of the `io_context` plays no part: a count is enough. -/

/-- The length of the queue that a handler serves. -/
def queued (s : Netns) : Handler → ℕ
  | .tcbManager => s.tcbmQueue.length
  | .tcp => s.tcpQueue.length
  | .icmp => s.icmpQueue.length
  | .arp => s.arpQueue.length
  | .ipv4 => s.ipv4Queue.length
  | .ethernetv2 => s.ethQueue.length
  | .resolve _ _ => 0

/-- **For every element of a queue one handler has been posted.**  This is what
keeps the handlers from looking at the front of an empty queue, and queued
elements from being forgotten. -/
def Served (s : Netns) : Prop := ∀ h, h.resolve? = none → s.ioCtx.count h = s.queued h

/-- A handler that is about to run has a queue that is not empty. -/
theorem Served.queued_pos {s : Netns} (h : s.Served) {i : ℕ} {handler : Handler}
    (hi : s.ioCtx[i]? = some handler) (hresolve : handler.resolve? = none) :
    0 < s.queued handler := by
  rw [← h handler hresolve]
  exact List.count_pos_iff.mpr (List.mem_of_getElem? hi)

/-- A handler is taken out, and an element out of its queue. -/
theorem Served.take {s t : Netns} (h : s.Served) {i : ℕ} {handler : Handler}
    (hi : s.ioCtx[i]? = some handler) (hio : t.ioCtx = s.ioCtx.eraseIdx i)
    (hqueued : ∀ h', h'.resolve? = none →
      s.queued h' = t.queued h' + if h' = handler then 1 else 0) : t.Served := by
  intro h' hresolve
  obtain ⟨hlt, hget⟩ := List.getElem?_eq_some_iff.mp hi
  have hperm := (List.getElem_cons_eraseIdx_perm hlt).count_eq h'
  have hcount := h h' hresolve
  rw [hget, List.count_cons, ← hio, hcount, hqueued h' hresolve] at hperm
  by_cases heq : h' = handler
  · subst heq
    simp at hperm
    omega
  · have hne : (handler == h') = false := by simpa using fun h => heq h.symm
    rw [hne, if_neg heq] at hperm
    simpa using hperm

/-- Elements are enqueued, with a handler for each. -/
theorem Served.push {s t : Netns} (h : s.Served) (posted : List Handler)
    (hio : t.ioCtx = s.ioCtx ++ posted)
    (hqueued : ∀ h', h'.resolve? = none → t.queued h' = s.queued h' + posted.count h') :
    t.Served := by
  intro h' hresolve
  rw [hio, List.count_append, h h' hresolve, hqueued h' hresolve]

/-- A resolve task is in no queue. -/
theorem Served.post {s : Netns} (h : s.Served) (w : ℕ) (mac : MacAddr) :
    (s.post (.resolve w mac)).Served := by
  refine h.push [.resolve w mac] rfl fun h' hresolve => ?_
  cases h' <;> first | rfl | cases hresolve

/-- An element is enqueued, and the handler of its queue is posted. -/
theorem Served.enqueue {s t : Netns} (h : s.Served) (handler : Handler)
    (hio : t.ioCtx = s.ioCtx ++ [handler])
    (hqueued : ∀ h', h'.resolve? = none →
      t.queued h' = s.queued h' + if h' = handler then 1 else 0) : t.Served := by
  refine h.push [handler] hio fun h' hresolve => ?_
  rw [hqueued h' hresolve]
  by_cases heq : h' = handler
  · simp [heq]
  · rw [if_neg heq, List.count_eq_zero.mpr (by simpa using heq)]

/-- `enqueue`, in `tcb_manager`. -/
theorem Served.tcbmEnqueue {s : Netns} (h : s.Served) (pkt : RawTcpPacket) :
    (s.tcbmEnqueue pkt).Served := by
  refine h.enqueue .tcbManager rfl fun h' hresolve => ?_
  cases h' <;> simp [queued, Netns.tcbmEnqueue, Netns.post]

/-- `enqueue`, in `tcp`. -/
theorem Served.tcpEnqueue {s : Netns} (h : s.Served) (pkt : Ipv4Packet) :
    (s.tcpEnqueue pkt).Served := by
  refine h.enqueue .tcp rfl fun h' hresolve => ?_
  cases h' <;> simp [queued, Netns.tcpEnqueue, Netns.post]

/-- `enqueue`, in `icmp`. -/
theorem Served.icmpEnqueue {s : Netns} (h : s.Served) (pkt : Ipv4Packet) :
    (s.icmpEnqueue pkt).Served := by
  refine h.enqueue .icmp rfl fun h' hresolve => ?_
  cases h' <;> simp [queued, Netns.icmpEnqueue, Netns.post]

/-- `enqueue`, in `arp`. -/
theorem Served.arpEnqueue {s : Netns} (h : s.Served) (frame : EthernetFrame) :
    (s.arpEnqueue frame).Served := by
  refine h.enqueue .arp rfl fun h' hresolve => ?_
  cases h' <;> simp [queued, Netns.arpEnqueue, Netns.post]

/-- `enqueue`, in `ipv4`. -/
theorem Served.ipv4Enqueue {s : Netns} (h : s.Served) (w : ℕ) (frame : EthernetFrame) :
    (s.ipv4Enqueue w frame).Served := by
  refine h.enqueue .ipv4 rfl fun h' hresolve => ?_
  cases h' <;> simp [queued, Netns.ipv4Enqueue, Netns.post]

/-- `enqueue`, in `ethernetv2`. -/
theorem Served.ethEnqueue {s : Netns} (h : s.Served) (out : Skbuff × DeviceId) :
    (s.ethEnqueue out).Served := by
  refine h.enqueue .ethernetv2 rfl fun h' hresolve => ?_
  cases h' <;> simp [queued, Netns.ethEnqueue, Netns.post]

/-- A packet that is submitted posts the handlers of what it enqueues. -/
theorem Served.routed {s s' : Netns} {pkt : Ipv4Packet} (h : s.Served) (hrouted : s.Routed pkt s') :
    s'.Served := by
  cases hrouted with
  | unroutable => exact h
  | @known nh sub mac =>
      have hsubmitted : (s.submit sub).Served := h
      exact hsubmitted.post _ _
  | @unknown nh sub srcMac out =>
      have hawaited : ((s.submit sub).await sub.via s.wrappers.length).Served := h
      exact hawaited.arpEnqueue _

/-- **A handler** takes its own element, and what it passes on gets a handler
of its own. -/
theorem Served.ran {s s' : Netns} {i : ℕ} (h : s.Served) (hran : s.Ran i s') : s'.Served := by
  cases hran with
  | tcbManager hi hqueue =>
      refine Served.tcpEnqueue (h.take hi rfl fun h' hresolve => ?_) _
      cases h' <;> simp [queued, hqueue]
  | tcp hi hqueue hrouted =>
      refine Served.routed (h.take hi rfl fun h' hresolve => ?_) hrouted
      cases h' <;> simp [queued, hqueue]
  | icmp hi hqueue hrouted =>
      refine Served.routed (h.take hi rfl fun h' hresolve => ?_) hrouted
      cases h' <;> simp [queued, hqueue]
  | arp hi hqueue =>
      refine Served.ethEnqueue (h.take hi rfl fun h' hresolve => ?_) _
      cases h' <;> simp [queued, hqueue]
  | ipv4 hi hqueue =>
      refine Served.ethEnqueue (h.take hi rfl fun h' hresolve => ?_) _
      cases h' <;> simp [queued, hqueue]
  | ethernetv2 hi hqueue =>
      refine h.take hi rfl fun h' hresolve => ?_
      cases h' <;> simp [queued, hqueue]
  | resolve hi =>
      refine Served.ipv4Enqueue (h.take hi rfl fun h' hresolve => ?_) _ _
      cases h' <;> first | rfl | cases hresolve

/-- Learning posts nothing. -/
theorem Served.learn {s : Netns} (h : s.Served) (mac : MacAddr) (addr : Ipv4Addr) :
    (s.arpUpdate mac addr).Served := by
  unfold arpUpdate
  split
  · exact h
  · exact h

/-- **A frame that arrives.** -/
theorem Served.received {s s' : Netns} {bs : List Byte} (h : s.Served)
    (hreceived : s.Received bs s') : s'.Served := by
  cases hreceived with
  | ignored => exact h
  | learned => exact h.learn _ _
  | answered => exact (h.learn _ _).arpEnqueue _
  | @replied inArp outs _ harp hreply hreplied =>
      obtain ⟨wrappers, rfl⟩ := hreplied.state
      refine h.push (outs.map fun _ => .ipv4) rfl fun h' hresolve => ?_
      unfold arpUpdate
      split <;> cases h' <;> simp [queued, List.count_replicate, List.map_const']
  | echoed => exact h.icmpEnqueue _

/-! ## What is in the queues

Each queue, with what the layer that serves it asks of an element. -/

section Contents

variable (owns : Ipv4Addr → MacAddr → Prop)

/-- **What a host tells its network**: an ARP packet whose sender has the MAC
address that the packet says, or a datagram to a MAC address that its next hop
has. -/
inductive Told (subs : List Submission) (bs : List Byte) : Prop where
  | arp {h : ArpHeader} (harp : arpOf bs = some h) (hkind : h.IsRequest ∨ h.IsReply)
      (htrue : owns h.spa h.sha)
  | datagram {sub : Submission} {mac : MacAddr} (hsub : sub ∈ subs) (hmac : owns sub.via mac)
      (hbytes : bs = ({ sub.frame with dstMacAddr := mac } : EthernetFrame).onWire)

/-- **What is in the queues can be taken by the next layer, and is true.**
Shape and truth are in one invariant, because a frame is built from the cache
in one layer and sent in another. -/
structure Contents (s : Netns) : Prop where
  cache : ∀ addr mac, s.neighs addr = some mac → owns addr mac
  cached : ∀ sub ∈ s.submissions, ∀ mac, sub.cached = some mac → owns sub.via mac
  replies : ∀ reply ∈ s.replies, owns reply.1 reply.2
  segments : ∀ pkt ∈ s.tcbmQueue, pkt.IsSegment
  fromTcp : ∀ pkt ∈ s.tcpQueue, pkt.Sendable
  fromIcmp : ∀ pkt ∈ s.icmpQueue, pkt.Sendable
  fromArp : ∀ frame ∈ s.arpQueue, ∃ h, frame.HoldsArp h ∧ (h.IsRequest ∨ h.IsReply) ∧
    owns h.spa h.sha
  datagrams : ∀ sub ∈ s.submissions, sub.frame.HoldsDatagram
  fromIpv4 : ∀ frame ∈ s.ipv4Queue, frame ∈ s.enqueued.map Prod.snd
  told : ∀ out ∈ s.ethQueue ++ s.device, Told owns s.submissions out.1.payload

variable {owns}

/-- What has been told stays told. -/
theorem Told.mono {subs subs' : List Submission} {bs : List Byte} (h : Told owns subs bs)
    (hsubs : subs ⊆ subs') : Told owns subs' bs := by
  cases h with
  | arp harp hkind htrue => exact .arp harp hkind htrue
  | datagram hsub hmac hbytes => exact .datagram (hsubs hsub) hmac hbytes

variable {s : Netns}

/-- One more element. -/
theorem forall_mem_concat {α : Type} {p : α → Prop} {xs : List α} {x : α} (hxs : ∀ a ∈ xs, p a)
    (hx : p x) : ∀ a ∈ xs ++ [x], p a := by
  intro a ha
  rcases List.mem_append.mp ha with ha | ha
  · exact hxs a ha
  · rwa [List.mem_singleton.mp ha]

/-- A frame on its way to `ethernetv2` goes to a MAC address that its next hop
has. -/
theorem Contents.leaves (h : s.Contents owns) (haccounts : s.ledger.Accounts [])
    {frame : EthernetFrame} (hframe : frame ∈ s.enqueued.map Prod.snd) :
    frame.HoldsDatagram ∧ Told owns s.submissions frame.onWire := by
  obtain ⟨out, hout, rfl⟩ := List.mem_map.mp hframe
  obtain ⟨sub, mac, hsub, heq, hmac⟩ := haccounts.sent out hout
  have hmem : sub ∈ s.submissions := List.mem_of_getElem? hsub
  have howns : owns sub.via mac := by
    rcases hmac with hcached | hreply
    · exact h.cached sub hmem mac hcached
    · exact h.replies _ hreply
  have hholds := h.datagrams sub hmem
  rw [heq]
  exact ⟨⟨hholds.proto, hholds.dev, hholds.room, hholds.bytes⟩, .datagram hmem howns rfl⟩

/-- A packet is submitted, with an address that is true if it has one. -/
theorem Contents.submit (h : s.Contents owns) {sub : Submission}
    (hframe : sub.frame.HoldsDatagram) (hcached : ∀ mac, sub.cached = some mac → owns sub.via mac) :
    (s.submit sub).Contents owns :=
  { h with
    cached := forall_mem_concat h.cached hcached
    datagrams := forall_mem_concat h.datagrams hframe
    told := fun out hout => (h.told out hout).mono (List.subset_append_left _ _) }

/-- ARP says something true. -/
theorem Contents.arpEnqueue (h : s.Contents owns) {out : EthernetFrame} {inArp : ArpHeader}
    (hout : out.HoldsArp inArp) (hkind : inArp.IsRequest ∨ inArp.IsReply)
    (htrue : owns inArp.spa inArp.sha) : (s.arpEnqueue out).Contents owns :=
  { h with fromArp := forall_mem_concat h.fromArp ⟨inArp, hout, hkind, htrue⟩ }

/-- Something is told to the network. -/
theorem Contents.ethEnqueue (h : s.Contents owns) {out : Skbuff × DeviceId}
    (hout : Told owns s.submissions out.1.payload) : (s.ethEnqueue out).Contents owns :=
  { h with
    told := by
      intro out' hout'
      rw [show (s.ethEnqueue out).ethQueue ++ (s.ethEnqueue out).device
        = s.ethQueue ++ ([out] ++ s.device) from List.append_assoc _ _ _] at hout'
      simp only [List.mem_append, List.mem_singleton] at hout'
      rcases hout' with hout' | rfl | hout'
      · exact h.told out' (List.mem_append_left _ hout')
      · exact hout
      · exact h.told out' (List.mem_append_right _ hout') }

/-- `ipv4::process` says nothing false. -/
theorem Contents.routed {s' : Netns} {pkt : Ipv4Packet} (h : s.Contents owns)
    (hrouted : s.Routed pkt s') : s'.Contents owns := by
  cases hrouted with
  | unroutable => exact { h with }
  | @known nh sub mac hnh hpkt hframe hvia hcached hmac =>
      refine { h.submit hframe fun mac' hmac' => ?_ with }
      obtain rfl := Option.some.inj (hcached.symm.trans hmac')
      exact h.cache _ _ hmac
  | @unknown nh sub srcMac out hnh hpkt hframe hvia hcached hmac hsrc hout =>
      have hsubmitted : ((s.submit sub).await sub.via s.wrappers.length).Contents owns := by
        refine { h.submit hframe fun mac' hmac' => ?_ with }
        rw [hcached] at hmac'
        cases hmac'
      exact hsubmitted.arpEnqueue hout (.inl (ArpHeader.isRequest_request _ _ _))
        (h.cache _ _ hsrc)

/-- **No handler says anything false.**  Addresses come from the cache, from a
reply, or from the host's own devices. -/
theorem Contents.ran {s' : Netns} {i : ℕ} (h : s.Contents owns) (haccounts : s.ledger.Accounts [])
    (hran : s.Ran i s') : s'.Contents owns := by
  cases hran with
  | @tcbManager pkt rest ip hi hqueue hip =>
      have hall := h.segments
      rw [hqueue, List.forall_mem_cons] at hall
      obtain ⟨ip', hip', hsendable, -⟩ := hall.1.process
      obtain rfl : ip' = ip := Except.ok.inj (hip'.symm.trans hip)
      exact { h with segments := hall.2, fromTcp := forall_mem_concat h.fromTcp hsendable }
  | @tcp pkt rest _ hi hqueue hrouted =>
      have hall := h.fromTcp
      rw [hqueue, List.forall_mem_cons] at hall
      have htaken : Contents owns { s with ioCtx := s.ioCtx.eraseIdx i, tcpQueue := rest } :=
        { h with fromTcp := hall.2 }
      exact htaken.routed hrouted
  | @icmp pkt rest _ hi hqueue hrouted =>
      have hall := h.fromIcmp
      rw [hqueue, List.forall_mem_cons] at hall
      have htaken : Contents owns { s with ioCtx := s.ioCtx.eraseIdx i, icmpQueue := rest } :=
        { h with fromIcmp := hall.2 }
      exact htaken.routed hrouted
  | @arp frame rest out hi hqueue hout hbytes =>
      have hall := h.fromArp
      rw [hqueue, List.forall_mem_cons] at hall
      obtain ⟨inArp, hholds, hkind, htrue⟩ := hall.1
      have htaken : Contents owns { s with ioCtx := s.ioCtx.eraseIdx i, arpQueue := rest } :=
        { h with fromArp := hall.2 }
      exact htaken.ethEnqueue (.arp (hbytes ▸ arpOf_onWire hholds) hkind htrue)
  | @ipv4 frame rest out hi hqueue hout hbytes =>
      have hall := h.fromIpv4
      rw [hqueue, List.forall_mem_cons] at hall
      have htaken : Contents owns { s with ioCtx := s.ioCtx.eraseIdx i, ipv4Queue := rest } :=
        { h with fromIpv4 := hall.2 }
      exact htaken.ethEnqueue (hbytes ▸ (h.leaves haccounts hall.1).2)
  | @ethernetv2 out rest hi hqueue =>
      have hall := h.told
      rw [hqueue] at hall
      exact { h with
        told := fun out' hout' => hall out' (by
          simp only [List.mem_append, List.mem_cons, List.not_mem_nil] at hout' ⊢
          tauto) }
  | @resolve w mac frame hi hframe =>
      exact { h with
        fromIpv4 := by
          intro out hout
          show out ∈ (s.enqueued ++ [(w, { frame with dstMacAddr := mac })]).map Prod.snd
          rw [List.map_append, List.mem_append]
          exact (List.mem_append.mp hout).imp_left (h.fromIpv4 out) }

/-- The ARP packet that a frame holds is true. -/
def Truthful (owns : Ipv4Addr → MacAddr → Prop) (bs : List Byte) : Prop :=
  ∀ h, arpOf bs = some h → h.IsRequest ∨ h.IsReply → owns h.spa h.sha

/-- Something true is learned. -/
theorem Contents.learn (h : s.Contents owns) {mac : MacAddr} {addr : Ipv4Addr}
    (htrue : owns addr mac) : (s.arpUpdate mac addr).Contents owns := by
  unfold arpUpdate
  split
  · exact h
  · refine { h with cache := fun addr' mac' hmac' => ?_ }
    rcases NeighCache.update_cases hmac' with hold | ⟨rfl, rfl⟩
    · exact h.cache addr' mac' hold
    · exact htrue

/-- **What arrives is true, so what is learned is.** -/
theorem Contents.received {s' : Netns} {bs : List Byte} (h : s.Contents owns)
    (htrue : Truthful owns bs) (hreceived : s.Received bs s') : s'.Contents owns := by
  cases hreceived with
  | ignored => exact h
  | learned harp hrequest htarget => exact h.learn (htrue _ harp (.inl hrequest))
  | answered harp hrequest htarget hout =>
      have hlearned := h.learn (htrue _ harp (.inl hrequest))
      exact hlearned.arpEnqueue hout (.inr (ArpHeader.isReply_reply _ _ _ _))
        (hlearned.cache _ _ htarget)
  | @replied inArp outs _ harp hreply hreplied =>
      have hsender := htrue _ harp (.inr hreply)
      have hlearned := h.learn hsender
      obtain ⟨wrappers, rfl⟩ := hreplied.state
      exact { hlearned with
        replies := forall_mem_concat h.replies hsender
        fromIpv4 := by
          intro out hout
          show out ∈ (s.enqueued ++ outs).map Prod.snd
          rw [List.map_append, List.mem_append]
          exact (List.mem_append.mp hout).imp_left (h.fromIpv4 out) }
  | echoed harp hreply => exact { h with fromIcmp := forall_mem_concat h.fromIcmp hreply }

end Contents

/-! ## No host aborts

The parts put together. -/

/-- A handler changes neither the routes nor the cache. -/
theorem Ran.tables {s s' : Netns} {i : ℕ} (h : s.Ran i s') :
    s'.rt = s.rt ∧ s'.neighs = s.neighs := by
  cases h with
  | tcp hi hqueue hrouted => cases hrouted <;> exact ⟨rfl, rfl⟩
  | icmp hi hqueue hrouted => cases hrouted <;> exact ⟨rfl, rfl⟩
  | _ => exact ⟨rfl, rfl⟩

/-- Learning does not change the routes. -/
theorem arpUpdate_rt (s : Netns) (mac : MacAddr) (addr : Ipv4Addr) :
    (s.arpUpdate mac addr).rt = s.rt := by
  unfold arpUpdate
  split <;> rfl

/-- What arrives adds to the cache. -/
theorem Received.tables {s s' : Netns} {bs : List Byte} (h : s.Received bs s') :
    s'.rt = s.rt ∧ ∀ addr mac, s.neighs addr = some mac → s'.neighs addr = some mac := by
  cases h with
  | ignored | echoed => exact ⟨rfl, fun _ _ hmac => hmac⟩
  | learned | answered => exact ⟨s.arpUpdate_rt _ _, fun _ _ hmac => arpUpdate_keeps hmac _ _⟩
  | replied harp hreply hreplied =>
      obtain ⟨wrappers, rfl⟩ := hreplied.state
      exact ⟨s.arpUpdate_rt _ _, fun _ _ hmac => arpUpdate_keeps hmac _ _⟩

/-- A cache that only grows keeps the sources. -/
theorem KnowsSources.of_keeps {s s' : Netns} (h : s.KnowsSources) (hrt : s'.rt = s.rt)
    (hkeeps : ∀ addr mac, s.neighs addr = some mac → s'.neighs addr = some mac) :
    s'.KnowsSources := by
  intro dst nh hnh hnone
  rw [hrt] at hnh
  obtain ⟨mac, hmac⟩ := Option.ne_none_iff_exists'.mp (h dst nh hnh)
  rw [hkeeps _ _ hmac] at hnone
  cases hnone

/-- The accounts of what waits for an address stay right. -/
theorem accounts_of_receive {s s' : Netns} {dev : DeviceId} {bs : List Byte}
    (haccounts : s.ledger.Accounts []) (h : s.receive dev bs = .ok s') :
    s'.ledger.Accounts [] := by
  obtain ⟨frame, -, h⟩ := bind_eq_ok.mp h
  split at h
  · exact haccounts.step (step_ledger (show s.step (.arpProcess frame) = .ok s' from h))
  · split at h
    · obtain ⟨o, -, h⟩ := bind_eq_ok.mp h
      split at h
      · obtain rfl := Except.ok.inj h
        exact haccounts
      · split at h
        · exact haccounts.step (step_ledger h)
        · obtain rfl := Except.ok.inj h
          exact haccounts
    · obtain rfl := Except.ok.inj h
      exact haccounts

/-- **What a host keeps**: the accounts of the resolver, a handler for every
element of a queue, true contents, and a source address for every device it
sends from. -/
structure Upkeep (owns : Ipv4Addr → MacAddr → Prop) (s : Netns) : Prop where
  accounts : s.ledger.Accounts []
  served : s.Served
  contents : s.Contents owns
  sources : s.KnowsSources

namespace Upkeep

variable {owns : Ipv4Addr → MacAddr → Prop} {s : Netns}

/-- A handler that is posted can run. -/
theorem exists_ran (h : s.Upkeep owns) {i : ℕ} {handler : Handler}
    (hi : s.ioCtx[i]? = some handler) (junk : ℕ → Byte) :
    ∃ s', s.step (.handler junk i) = .ok s' ∧ s.Ran i s' := by
  have hpos := h.served.queued_pos hi
  simp only [step, hi]
  -- A posted handler finds its queue non-empty, and its packet fits the next header.
  cases handler with
  | tcbManager =>
      obtain ⟨pkt, rest, hqueue⟩ := List.exists_cons_of_length_pos (hpos rfl)
      obtain ⟨ip, hip, -⟩ := (h.contents.segments pkt (hqueue ▸ List.mem_cons_self)).process
      refine ⟨_, ?_, .tcbManager hi hqueue hip⟩
      simp only [runHandler, hqueue, popQueue]
      rw [ok_bind, hip]
      rfl
  | tcp =>
      obtain ⟨pkt, rest, hqueue⟩ := List.exists_cons_of_length_pos (hpos rfl)
      have hsources : KnowsSources { s with ioCtx := s.ioCtx.eraseIdx i, tcpQueue := rest } :=
        h.sources
      obtain ⟨s', hs', hrouted⟩ := ipv4Process_routed hsources
        (h.contents.fromTcp pkt (hqueue ▸ List.mem_cons_self)) junk
      refine ⟨s', ?_, .tcp hi hqueue hrouted⟩
      simp only [runHandler, hqueue, popQueue]
      rw [ok_bind]
      exact hs'
  | icmp =>
      obtain ⟨pkt, rest, hqueue⟩ := List.exists_cons_of_length_pos (hpos rfl)
      have hsources : KnowsSources { s with ioCtx := s.ioCtx.eraseIdx i, icmpQueue := rest } :=
        h.sources
      obtain ⟨s', hs', hrouted⟩ := ipv4Process_routed hsources
        (h.contents.fromIcmp pkt (hqueue ▸ List.mem_cons_self)) junk
      refine ⟨s', ?_, .icmp hi hqueue hrouted⟩
      simp only [runHandler, hqueue, popQueue]
      rw [ok_bind]
      exact hs'
  | arp =>
      obtain ⟨frame, rest, hqueue⟩ := List.exists_cons_of_length_pos (hpos rfl)
      obtain ⟨inArp, hholds, -⟩ := h.contents.fromArp frame (hqueue ▸ List.mem_cons_self)
      obtain ⟨out, hout, hbytes⟩ := Ethernetv2.process_onWire hholds.dev hholds.room
      refine ⟨_, ?_, .arp hi hqueue hout hbytes⟩
      simp only [runHandler, hqueue, popQueue]
      rw [ok_bind, hout]
      rfl
  | ipv4 =>
      obtain ⟨frame, rest, hqueue⟩ := List.exists_cons_of_length_pos (hpos rfl)
      have hholds := (h.contents.leaves h.accounts
        (h.contents.fromIpv4 frame (hqueue ▸ List.mem_cons_self))).1
      obtain ⟨out, hout, hbytes⟩ := Ethernetv2.process_onWire hholds.dev hholds.room
      refine ⟨_, ?_, .ipv4 hi hqueue hout hbytes⟩
      simp only [runHandler, hqueue, popQueue]
      rw [ok_bind, hout]
      rfl
  | ethernetv2 =>
      obtain ⟨out, rest, hqueue⟩ := List.exists_cons_of_length_pos (hpos rfl)
      refine ⟨_, ?_, .ethernetv2 hi hqueue⟩
      simp only [runHandler, hqueue, popQueue]
      rfl
  | resolve w mac =>
      -- The wrapper has been made: the accounts number every posted task.
      have hw : w ∈ s.ledger.tasks.map Prod.fst := by
        have htask : (w, mac) ∈ s.tasks :=
          List.mem_filterMap.mpr ⟨.resolve w mac, List.mem_of_getElem? hi, rfl⟩
        exact List.mem_map.mpr ⟨(w, mac), htask, rfl⟩
      have hframe := List.getElem?_eq_getElem
        (show w < s.wrappers.length from h.accounts.tasks_lt w hw)
      refine ⟨_, ?_, .resolve hi hframe⟩
      simp only [runHandler, onResolved, hframe]

/-- **A handler runs**: it never aborts.  Which of the ways it takes is part of
the statement, so that the network can say what is on the wire afterwards. -/
theorem handler (h : s.Upkeep owns) {i : ℕ} {handler : Handler}
    (hi : s.ioCtx[i]? = some handler) (junk : ℕ → Byte) :
    ∃ s', s.step (.handler junk i) = .ok s' ∧ s.Ran i s' ∧ s'.Upkeep owns := by
  obtain ⟨s', hs', hran⟩ := h.exists_ran hi junk
  obtain ⟨hrt, hneighs⟩ := hran.tables
  exact ⟨s', hs', hran, h.accounts.step (step_ledger hs'), h.served.ran hran,
    h.contents.ran h.accounts hran,
    h.sources.of_keeps hrt fun addr mac hmac => by rwa [hneighs]⟩

/-- **A frame arrives**: if it can be read and its ARP packet is true, the host
takes it. -/
theorem receive (h : s.Upkeep owns) {bs : List Byte} (hreadable : Readable bs)
    (htrue : Truthful owns bs) (dev : DeviceId) :
    ∃ s', s.receive dev bs = .ok s' ∧ s.Received bs s' ∧ s'.Upkeep owns := by
  obtain ⟨s', hs', hreceived⟩ := receive_received h.accounts hreadable dev
  obtain ⟨hrt, hkeeps⟩ := hreceived.tables
  exact ⟨s', hs', hreceived, accounts_of_receive h.accounts hs', h.served.received hreceived,
    h.contents.received htrue hreceived, h.sources.of_keeps hrt hkeeps⟩

/-- A connection sends a segment. -/
theorem enqueue (h : s.Upkeep owns) {pkt : RawTcpPacket} (hpkt : pkt.IsSegment) :
    (s.tcbmEnqueue pkt).Upkeep owns where
  accounts := h.accounts.step (step_ledger (show s.step (.enqueue pkt) = .ok _ from rfl))
  served := h.served.tcbmEnqueue pkt
  contents := { h.contents with segments := forall_mem_concat h.contents.segments hpkt }
  sources := h.sources

/-- An entry that no route needs is forgotten. -/
theorem reset (h : s.Upkeep owns) {addr : Ipv4Addr}
    (haddr : ∀ dst nh, s.rt.nh dst = some nh → nh.fromAddrv4 ≠ addr) :
    Upkeep owns { s with neighs := s.neighs.reset addr } where
  accounts := h.accounts.step (step_ledger (show s.step (.reset addr) = .ok _ from rfl))
  served := h.served
  contents := { h.contents with
    cache := by
      intro addr' mac hmac
      dsimp only [NeighCache.reset] at hmac
      by_cases heq : addr' = addr
      · rw [heq, Function.update_self] at hmac
        cases hmac
      · rw [Function.update_of_ne heq] at hmac
        exact h.contents.cache addr' mac hmac }
  sources := by
    intro dst nh hnh
    dsimp only [NeighCache.reset]
    rw [Function.update_of_ne (haddr dst nh hnh)]
    exact h.sources dst nh hnh

/-- A host begins with true entries. -/
theorem create {neighs : NeighCache} {rt : RoutingTable}
    (htrue : ∀ addr mac, neighs addr = some mac → owns addr mac)
    (hsources : ∀ dst nh, rt.nh dst = some nh → neighs nh.fromAddrv4 ≠ none) :
    (Netns.create neighs rt).Upkeep owns where
  accounts := Ledger.accounts_create neighs rt
  served := fun h _ => by cases h <;> rfl
  contents :=
    { cache := htrue, cached := nofun, replies := nofun, segments := nofun, fromTcp := nofun
      fromIcmp := nofun, fromArp := nofun, datagrams := nofun, fromIpv4 := nofun, told := nofun }
  sources := hsources

end Upkeep

end Netns

end Mstack
