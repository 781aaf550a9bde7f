import Mstack.Lib.FifoStage
import Mstack.Net.Encapsulation
import Mstack.Net.Resolve

/-!
# The transmit pipeline

What the wiring of `netns::impl` is for: as long as every destination is
reachable, the queues of `tcb_manager`, `tcp`, `ipv4` and `ethernetv2` and the
posted resolve tasks behave like **one FIFO queue** between the connections and
the device.

    connections --> tcb_manager --> tcp --> resolve tasks --> ipv4 --> ethernetv2 --> device

Each of them is a stage in the sense of `Lib.FifoStage`, which conserves what
it is given up to a function:

* `segment` — what `tcp::process` makes of a segment;
* `routed` — what `ipv4::process` and address resolution make of that;
* `framed` — what `ethernetv2::process` makes of a frame;
* `wrapped` — the three of them, one after the other.

### From five queues to one

`Pipelined` is the invariant: one `Conserves` for each stage, and what the
stages need of each other.  Composition is `Conserves.comp` of the library, so
that `Pipelined.conserves` is a chain of four applications.  A step changes one
stage at its end and the next at its beginning; each handler therefore has one
lemma, and no lemma speaks of more than two queues.

### What is load-bearing

* **Handlers are anonymous.**  A handler does not know which packet it was
  posted for and takes whatever is at the front of its queue.
  `Pipelined.handlers` says that there is exactly one handler for each queued
  packet, so that it always finds one.
* **Packets are numbered.**  `ipv4::process` writes a counter into the header,
  so what a segment becomes depends on how many went before it.  A segment is
  taken together with its number (`zipIdx`), and the field `seq` of the
  invariant ties the counter to the count of submissions.
* **Every destination can be reached** (`Reaches`): a route, and cached
  addresses for its next hop and for its own end.  Then nothing is ever
  pending, and the invariant says so (`accounts` and `resolve`).  What happens
  otherwise is the subject of `Net.Resolve` and `Net.HopOrder`.
-/

namespace Mstack

open EventSystem FifoStage

namespace Netns

/-! ## What a segment becomes

A packet is taken together with its number, since `ipv4::process` writes a
counter into the header. -/

/-- A segment, after `tcp::process`. -/
def segment (seg : RawTcpPacket × ℕ) : Option (Ipv4Packet × ℕ) :=
  (Tcp.process seg.1).toOption.map (·, seg.2)

/-- A packet, after `ipv4::process` and address resolution. -/
def routed (neighs : NeighCache) (rt : RoutingTable) (pkt : Ipv4Packet × ℕ) :
    Option EthernetFrame := do
  let skb ← (Ipv4.skbOut (BitVec.ofNat 16 pkt.2) pkt.1).toOption
  let nh ← rt.nh pkt.1.dstAddrv4
  let srcMac ← neighs nh.fromAddrv4
  let dstMac ← neighs nh.viaAddrv4
  return { srcMacAddr := srcMac, dstMacAddr := dstMac, proto := Ipv4.PROTO, skb, dev := some nh.dev }

/-- A frame, after `ethernetv2::process`. -/
def framed (frame : EthernetFrame) : Option (Skbuff × DeviceId) :=
  (Ethernetv2.process frame).toOption

/-- A segment, wrapped in its IPv4 and Ethernet headers. -/
def wrapped (neighs : NeighCache) (rt : RoutingTable) (seg : RawTcpPacket × ℕ) :
    Option (Skbuff × DeviceId) :=
  ((segment seg).bind (routed neighs rt)).bind framed

/-- The frame that a resolve task is going to enqueue. -/
def taskFrame (s : Netns) (task : ℕ × MacAddr) : Option EthernetFrame :=
  (s.submissions[task.1]?).map fun sub => { sub.frame with dstMacAddr := task.2 }

end Netns

/-- The frame of a submission, with the address that was found for it. -/
def Submission.resolved (sub : Submission) : EthernetFrame :=
  { sub.frame with dstMacAddr := sub.cached.getD 0 }

namespace Netns

/-- What has been given to `tcp`'s queue. -/
def tcpIn (s : Netns) : List Ipv4Packet := s.submissions.map Submission.pkt ++ s.tcpQueue

/-- The length of the queue that a handler serves.  Resolve tasks carry their
packet with them, and `icmp` and `arp` are not part of the pipeline. -/
def backlog (s : Netns) : Handler → ℕ
  | .tcbManager => s.tcbmQueue.length
  | .tcp => s.tcpQueue.length
  | .icmp => 0
  | .arp => 0
  | .ipv4 => s.ipv4Queue.length
  | .ethernetv2 => s.ethQueue.length
  | .resolve _ _ => 0

/-- **The invariant of the transmit pipeline.**  Each layer has a queue, and
`io_ctx_` has one handler for each of its elements.  The four equations at the
end say, queue by queue, that what has gone in is what has come out followed by
what is inside, each element changed by the function of the layer. -/
structure Pipelined (neighs : NeighCache) (rt : RoutingTable) (s : Netns) : Prop where
  neighs_eq : s.neighs = neighs
  rt_eq : s.rt = rt
  accounts : s.ledger.Accounts []
  seq : s.seq = BitVec.ofNat 16 s.submissions.length
  handlers : ∀ h, h.resolve? = none → s.ioCtx.count h = s.backlog h
  wraps : ∀ seg ∈ s.emitted.zipIdx, wrapped neighs rt seg ≠ none
  tcbManager : Conserves segment (s.emitted.zipIdx.map segment) s.tcpIn.zipIdx
    (s.tcbmQueue.zipIdx s.tcpIn.length)
  tcp : Conserves (routed neighs rt) (s.tcpIn.zipIdx.map (routed neighs rt))
    (s.submissions.map Submission.resolved) (s.tcpQueue.zipIdx s.submissions.length)
  resolve : Conserves s.taskFrame ((s.submissions.map Submission.resolved).map some)
    (s.enqueued.map Prod.snd) s.tasks
  ipv4 : Conserves framed ((s.enqueued.map Prod.snd).map framed) (s.device ++ s.ethQueue)
    s.ipv4Queue

namespace Pipelined

variable {neighs : NeighCache} {rt : RoutingTable} {s : Netns}

/-- **The stages make one FIFO queue.**  The equations of the layers composed:
what has been emitted, framed by the composition of the layers' functions, is
what the device has got followed by what is in the queues, from the lowest to
the highest. -/
theorem conserves (h : Pipelined neighs rt s) :
    Conserves id (s.emitted.zipIdx.map (wrapped neighs rt)) (s.device ++ s.ethQueue)
      (s.ipv4Queue.map framed ++ (s.tasks.map (fun task => (s.taskFrame task).bind framed) ++
        ((s.tcpQueue.zipIdx s.submissions.length).map
            (fun pkt => (routed neighs rt pkt).bind framed) ++
          (s.tcbmQueue.zipIdx s.tcpIn.length).map (wrapped neighs rt)))) := by
  have hall := ((h.tcbManager.comp h.tcp).comp h.resolve).comp h.ipv4
  simp only [List.map_append, List.map_map, Function.comp_def, id_eq,
    Option.bind_fun_some] at hall
  exact hall

/-- Nothing in the pipeline fails. -/
theorem ne_none (h : Pipelined neighs rt s) {x : Option (Skbuff × DeviceId)}
    (hx : x ∈ s.ipv4Queue.map framed ++ (s.tasks.map (fun task => (s.taskFrame task).bind framed) ++
        ((s.tcpQueue.zipIdx s.submissions.length).map
            (fun pkt => (routed neighs rt pkt).bind framed) ++
          (s.tcbmQueue.zipIdx s.tcpIn.length).map (wrapped neighs rt)))) : x ≠ none := by
  obtain ⟨seg, hseg, hwrapped⟩ := List.mem_map.mp (h.conserves.mem_due hx)
  rw [id_eq] at hwrapped
  rw [← hwrapped]
  exact h.wraps seg hseg

/-- A handler finds its queue filled. -/
theorem backlog_pos (h : Pipelined neighs rt s) {handler : Handler} {rest : List Handler}
    (hio : s.ioCtx = handler :: rest) (hresolve : handler.resolve? = none) :
    0 < s.backlog handler := by
  rw [← h.handlers handler hresolve, hio, List.count_cons_self]
  exact Nat.succ_pos _

end Pipelined

/-! ## What connections emit

A segment comes out of `TcpPacket.serialize`, with the room that the layers
need; that is all the pipeline asks of it. -/

/-- There is a route to `dst`, and the cache knows its next hop and its
from-address. -/
def Reaches (neighs : NeighCache) (rt : RoutingTable) (dst : Ipv4Addr) : Prop :=
  ∃ nh srcMac dstMac, rt.nh dst = some nh ∧ neighs nh.fromAddrv4 = some srcMac ∧
    neighs nh.viaAddrv4 = some dstMac

/-- A connection enqueues a segment for a destination that can be reached, or
the oldest handler runs. -/
def Transmits (neighs : NeighCache) (rt : RoutingTable) : Event → Prop
  | .enqueue pkt => (∃ junk seg, TcpPacket.serialize junk seg = .ok pkt) ∧
      Reaches neighs rt pkt.remoteEp.addrv4
  | .handler _ i => i = 0
  | _ => False

/-- The segments that connections have emitted, oldest first. -/
def emissions (es : List Event) : List RawTcpPacket :=
  es.filterMap fun
    | .enqueue pkt => some pkt
    | _ => none

/-- A result that is there was not a fault. -/
theorem toOption_eq_some {α : Type} {x : Except NetFault α} {a : α} :
    x.toOption = some a ↔ x = .ok a := by
  cases x <;> simp [Except.toOption]

/-- When `ipv4::process` and address resolution let a packet through, and the
frame they make of it. -/
theorem routed_eq_some {neighs : NeighCache} {rt : RoutingTable} {pkt : Ipv4Packet} {n : ℕ}
    {frame : EthernetFrame} :
    routed neighs rt (pkt, n) = some frame ↔ ∃ skb nh srcMac dstMac,
      Ipv4.skbOut (BitVec.ofNat 16 n) pkt = .ok skb ∧ rt.nh pkt.dstAddrv4 = some nh ∧
      neighs nh.fromAddrv4 = some srcMac ∧ neighs nh.viaAddrv4 = some dstMac ∧
      frame = ⟨srcMac, dstMac, Ipv4.PROTO, skb, some nh.dev⟩ := by
  simp only [routed, Option.bind_eq_bind, Option.bind_eq_some_iff, toOption_eq_some,
    Option.pure_def, Option.some.injEq]
  constructor
  · rintro ⟨skb, hskb, nh, hnh, srcMac, hsrc, dstMac, hdst, rfl⟩
    exact ⟨skb, nh, srcMac, dstMac, hskb, hnh, hsrc, hdst, rfl⟩
  · rintro ⟨skb, nh, srcMac, dstMac, hskb, hnh, hsrc, hdst, rfl⟩
    exact ⟨skb, hskb, nh, hnh, srcMac, hsrc, dstMac, hdst, rfl⟩

/-- A segment of `tcb_t` leaves `tcp::process` with the room it came with. -/
theorem process_of_serialize {junk : ℕ → Byte} {seg : TcpPacket} {pkt : RawTcpPacket}
    (hser : seg.serialize junk = .ok pkt) :
    ∃ ip front payload, Tcp.process pkt = .ok ip ∧ ip.dstAddrv4 = pkt.remoteEp.addrv4 ∧
      ip.skb = ⟨front, payload, []⟩ ∧ front.length = TcpPacket.additionalRoom := by
  obtain ⟨front, hfront, hser'⟩ := seg.serialize_eq junk
  have hskb : pkt.skb
      = ⟨front, seg.skb.tcph.produceToNet ++ (seg.skb.opts ++ seg.skb.text), []⟩ := by
    rw [hser, Except.ok.injEq] at hser'
    rw [hser']
  obtain ⟨front', chsum, hfront', hip⟩ := Tcp.process_serialized hskb hfront
  exact ⟨_, front', _, hip, rfl, rfl, hfront'⟩

/-- A packet with that room, for a destination that can be reached, gets
through to the device. -/
theorem routed_framed_ne_none {neighs : NeighCache} {rt : RoutingTable} {ip : Ipv4Packet}
    {front payload : List Byte} (hskb : ip.skb = ⟨front, payload, []⟩)
    (hfront : front.length = TcpPacket.additionalRoom) (hreach : Reaches neighs rt ip.dstAddrv4)
    (n : ℕ) : (routed neighs rt (ip, n)).bind framed ≠ none := by
  obtain ⟨nh, srcMac, dstMac, hnh, hsrc, hdst⟩ := hreach
  obtain ⟨front', h, hfront', -, hout⟩ := Ipv4.skbOut_sealed (BitVec.ofNat 16 n) hskb hfront
  set frame : EthernetFrame := ⟨srcMac, dstMac, Ipv4.PROTO,
    ⟨[] ++ front', h.produceToNet ++ payload, []⟩, some nh.dev⟩
  have hrouted : routed neighs rt (ip, n) = some frame :=
    routed_eq_some.mpr ⟨_, nh, srcMac, dstMac, hout, hnh, hsrc, hdst, rfl⟩
  have hdev : frame.dev = some nh.dev := rfl
  have hbytes : frame.skb = ⟨[] ++ front', h.produceToNet ++ payload, []⟩ := rfl
  rw [hrouted, Option.bind_some, framed, Ethernetv2.process_eq hdev hbytes hfront']
  nofun

/-- A segment of `tcb_t` for a destination that can be reached gets through all
layers. -/
theorem wrapped_ne_none {neighs : NeighCache} {rt : RoutingTable} {junk : ℕ → Byte}
    {seg : TcpPacket} {pkt : RawTcpPacket} (hser : seg.serialize junk = .ok pkt)
    (hreach : Reaches neighs rt pkt.remoteEp.addrv4) (n : ℕ) :
    wrapped neighs rt (pkt, n) ≠ none := by
  obtain ⟨ip, front, payload, hip, hdst, hskb, hfront⟩ := process_of_serialize hser
  have hsegment : segment (pkt, n) = some (ip, n) := by
    rw [segment, hip]
    rfl
  rw [wrapped, hsegment, Option.bind_some]
  exact routed_framed_ne_none hskb hfront (hdst ▸ hreach) n

/-! ## One step

One lemma for each handler, and one for a segment that is emitted. -/

/-- What gets through two stages gets through the first one. -/
theorem exists_of_bind_ne_none {α β : Type} {x : Option α} {f : α → Option β}
    (h : x.bind f ≠ none) : ∃ a, x = some a :=
  Option.isSome_iff_exists.mp (Option.isSome_of_isSome_bind (Option.isSome_iff_ne_none.mpr h))

/-- One more packet, with its number. -/
theorem zipIdx_concat {α : Type} (xs : List α) (a : α) (n : ℕ) :
    (xs ++ [a]).zipIdx n = xs.zipIdx n ++ [(a, n + xs.length)] := by
  rw [List.zipIdx_append]
  rfl

namespace Pipelined

variable {neighs : NeighCache} {rt : RoutingTable} {s : Netns}

/-- A new namespace is a pipeline with nothing in it. -/
theorem create : Pipelined neighs rt (Netns.create neighs rt) where
  neighs_eq := rfl
  rt_eq := rfl
  accounts := Ledger.accounts_create neighs rt
  seq := rfl
  handlers := fun h _ => by cases h <;> rfl
  wraps := nofun
  tcbManager := .empty _
  tcp := .empty _
  resolve := .empty _
  ipv4 := .empty _

/-- What was emitted is in `tcp`'s share or still in `tcb_manager`'s queue. -/
theorem length_emitted (h : Pipelined neighs rt s) :
    s.emitted.length = s.tcpIn.length + s.tcbmQueue.length := by
  have hlen := h.tcbManager.length_eq
  rwa [List.length_map, List.length_zipIdx, List.length_zipIdx, List.length_zipIdx] at hlen

/-- What `tcp` was given is submitted or still in its queue. -/
theorem length_tcpIn (s : Netns) : s.tcpIn.length = s.submissions.length + s.tcpQueue.length := by
  rw [tcpIn, List.length_append, List.length_map]

/-- The handlers that are left when the oldest one runs. -/
theorem count_rest (h : Pipelined neighs rt s) {oldest : Handler} {rest : List Handler}
    (hio : s.ioCtx = oldest :: rest) {handler : Handler} (hresolve : handler.resolve? = none) :
    rest.count handler + (if oldest = handler then 1 else 0) = s.backlog handler := by
  rw [← h.handlers handler hresolve, hio, List.count_cons]
  simp only [beq_iff_eq]

/-- A connection emits a segment. -/
theorem enqueue (h : Pipelined neighs rt s) {pkt : RawTcpPacket}
    (hwraps : ∀ n, wrapped neighs rt (pkt, n) ≠ none) :
    Pipelined neighs rt (s.tcbmEnqueue pkt) := by
  have hnumbered : (s.emitted ++ [pkt]).zipIdx = s.emitted.zipIdx ++ [(pkt, s.emitted.length)] := by
    rw [zipIdx_concat, Nat.zero_add]
  refine
    { neighs_eq := h.neighs_eq, rt_eq := h.rt_eq, accounts := ?_, seq := h.seq, handlers := ?_
      wraps := ?_, tcbManager := ?_, tcp := h.tcp, resolve := ?_, ipv4 := h.ipv4 }
  · rw [tcbmEnqueue, ledger_post rfl]
    exact h.accounts
  · intro handler hresolve
    have hcount := h.handlers handler hresolve
    change (s.ioCtx ++ [Handler.tcbManager]).count handler = _
    rw [List.count_append, hcount]
    cases handler <;> simp [backlog, tcbmEnqueue, post]
  · intro seg hseg
    change seg ∈ (s.emitted ++ [pkt]).zipIdx at hseg
    rw [hnumbered, List.mem_append, List.mem_singleton] at hseg
    rcases hseg with hold | rfl
    · exact h.wraps seg hold
    · exact hwraps _
  · have hpush := h.tcbManager.push (pkt, s.emitted.length)
    have hqueue : s.tcbmQueue.zipIdx s.tcpIn.length ++ [(pkt, s.emitted.length)]
        = (s.tcbmQueue ++ [pkt]).zipIdx s.tcpIn.length := by
      rw [zipIdx_concat, h.length_emitted]
    rw [hqueue] at hpush
    change Conserves segment ((s.emitted ++ [pkt]).zipIdx.map segment) s.tcpIn.zipIdx _
    rw [hnumbered, List.map_append]
    exact hpush
  · rw [tcbmEnqueue, tasks_post]
    exact (List.append_nil s.tasks).symm ▸ h.resolve

/-- Taking the oldest handler out of the `io_context`. -/
theorem step_handler {oldest : Handler} {rest : List Handler} (hio : s.ioCtx = oldest :: rest)
    (junk : ℕ → Byte) :
    step s (.handler junk 0) = { s with ioCtx := rest }.runHandler junk oldest := by
  simp only [step, hio, List.getElem?_cons_zero, List.eraseIdx_cons_zero]

/-- A handler that is no resolve task leaves the tasks as they are. -/
theorem tasks_of_ioCtx {oldest : Handler} {rest : List Handler} (hio : s.ioCtx = oldest :: rest)
    (hresolve : oldest.resolve? = none) : rest.filterMap Handler.resolve? = s.tasks := by
  rw [tasks, hio, List.filterMap_cons, hresolve]

/-- `tcb_manager`'s handler: a segment gets its checksum and goes to `tcp`. -/
theorem runTcbManager (h : Pipelined neighs rt s) {rest : List Handler}
    (hio : s.ioCtx = .tcbManager :: rest) (junk : ℕ → Byte) :
    ∃ s', step s (.handler junk 0) = .ok s' ∧ s'.emitted = s.emitted ∧ Pipelined neighs rt s' := by
  obtain ⟨pkt, queue, hqueue⟩ := List.exists_cons_of_length_pos (h.backlog_pos hio rfl)
  have htcb := h.tcbManager
  rw [hqueue, List.zipIdx_cons] at htcb
  have hwrapped : wrapped neighs rt (pkt, s.tcpIn.length) ≠ none := by
    apply h.ne_none
    rw [hqueue, List.zipIdx_cons]
    simp
  obtain ⟨_, hrouted⟩ := exists_of_bind_ne_none hwrapped
  obtain ⟨ip, hip, -⟩ := Option.bind_eq_some_iff.mp hrouted
  obtain ⟨ip, hprocess, rfl⟩ := Option.map_eq_some_iff.mp hip
  rw [toOption_eq_some] at hprocess
  -- A segment leaves one queue for the next, and its number goes with it.
  have hstep : step s (.handler junk 0)
      = .ok ({ s with ioCtx := rest, tcbmQueue := queue }.tcpEnqueue ip) := by
    rw [step_handler hio]
    simp only [runHandler, hqueue, popQueue]
    rw [ok_bind, hprocess, ok_bind]
    rfl
  have hin : s.submissions.map Submission.pkt ++ (s.tcpQueue ++ [ip]) = s.tcpIn ++ [ip] :=
    (List.append_assoc _ _ _).symm
  have hnumbered : (s.tcpIn ++ [ip]).zipIdx = s.tcpIn.zipIdx ++ [(ip, s.tcpIn.length)] := by
    rw [zipIdx_concat, Nat.zero_add]
  refine ⟨_, hstep, rfl,
    { neighs_eq := h.neighs_eq, rt_eq := h.rt_eq
      accounts := h.accounts.step (step_ledger hstep), seq := h.seq, handlers := ?_
      wraps := h.wraps, tcbManager := ?_, tcp := ?_, resolve := ?_, ipv4 := h.ipv4 }⟩
  · intro handler hresolve
    have hcount := h.count_rest hio hresolve
    change (rest ++ [Handler.tcp]).count handler = _
    rw [List.count_append]
    cases handler <;> simp [backlog, hqueue, tcpEnqueue, post] at hcount ⊢ <;> omega
  · have hpop := htcb.pop hip
    change Conserves segment _ (s.submissions.map Submission.pkt ++ (s.tcpQueue ++ [ip])).zipIdx
      (queue.zipIdx (s.submissions.map Submission.pkt ++ (s.tcpQueue ++ [ip])).length)
    rw [hin, hnumbered, List.length_append]
    exact hpop
  · have hpush := h.tcp.push (ip, s.tcpIn.length)
    change Conserves (routed neighs rt)
      ((s.submissions.map Submission.pkt ++ (s.tcpQueue ++ [ip])).zipIdx.map (routed neighs rt)) _
      ((s.tcpQueue ++ [ip]).zipIdx s.submissions.length)
    rw [hin, hnumbered, List.map_append, zipIdx_concat, ← length_tcpIn]
    exact hpush
  · rw [tcpEnqueue, tasks_post]
    change Conserves s.taskFrame _ _ (rest.filterMap Handler.resolve? ++ [])
    rw [List.append_nil, tasks_of_ioCtx hio rfl]
    exact h.resolve

/-- A submission whose next hop is cached: its task is behind the others, and
it does not change what they have to do. -/
theorem resolve_submitted (h : Pipelined neighs rt s) {s' : Netns} {sub : Submission}
    {mac : MacAddr} (hsubs : s'.submissions = s.submissions ++ [sub])
    (henqueued : s'.enqueued = s.enqueued)
    (htasks : s'.tasks = s.tasks ++ [(s.wrappers.length, mac)])
    (hmac : ({ sub.frame with dstMacAddr := mac } : EthernetFrame) = sub.resolved) :
    Conserves s'.taskFrame ((s'.submissions.map Submission.resolved).map some)
      (s'.enqueued.map Prod.snd) s'.tasks := by
  have hwrapper : s.wrappers.length = s.submissions.length := h.accounts.length
  have hold : ∀ task ∈ s.tasks, s'.taskFrame task = s.taskFrame task := by
    intro task htask
    have hlt : task.1 < s.submissions.length :=
      h.accounts.known task.1 (List.mem_append_left _ (List.mem_map_of_mem htask))
    rw [taskFrame, hsubs, List.getElem?_append_left hlt]
    rfl
  have hnew : s'.taskFrame (s.wrappers.length, mac) = some sub.resolved := by
    rw [taskFrame, hsubs, hwrapper, List.getElem?_concat_length, Option.map_some, hmac]
  have hpush := (h.resolve.congr hold).push (s.wrappers.length, mac)
  rw [hnew] at hpush
  rw [hsubs, henqueued, htasks, List.map_append, List.map_append]
  exact hpush

/-- `tcp`'s handler: a packet gets its IPv4 header and, since its next hop is
cached, becomes a resolve task. -/
theorem runTcp (h : Pipelined neighs rt s) {rest : List Handler} (hio : s.ioCtx = .tcp :: rest)
    (junk : ℕ → Byte) :
    ∃ s', step s (.handler junk 0) = .ok s' ∧ s'.emitted = s.emitted ∧ Pipelined neighs rt s' := by
  obtain ⟨ip, queue, hqueue⟩ := List.exists_cons_of_length_pos (h.backlog_pos hio rfl)
  have htcp := h.tcp
  rw [hqueue, List.zipIdx_cons] at htcp
  -- The queue is in step with what will come out, so this packet has a route.
  have hsent : (routed neighs rt (ip, s.submissions.length)).bind framed ≠ none := by
    apply h.ne_none
    rw [hqueue, List.zipIdx_cons]
    simp
  obtain ⟨frame, hrouted⟩ := exists_of_bind_ne_none hsent
  obtain ⟨skb, nh, srcMac, dstMac, hskb, hnh, hsrc, hdst, rfl⟩ := routed_eq_some.mp hrouted
  set sub : Submission := ⟨ip, s.seq, ⟨srcMac, 0, Ipv4.PROTO, skb, some nh.dev⟩, nh.viaAddrv4,
    some dstMac⟩ with hsub
  have hstep : step s (.handler junk 0) = .ok ({ s with
      ioCtx := rest, tcpQueue := queue, seq := s.seq + 1, wrappers := s.wrappers ++ [sub.frame]
      submissions := s.submissions ++ [sub] }.post (.resolve s.wrappers.length dstMac)) := by
    rw [step_handler hio]
    simp only [runHandler, hqueue, popQueue]
    rw [ok_bind, ipv4Process, h.seq, hskb, ok_bind]
    simp only [h.rt_eq, hnh, h.neighs_eq, NeighCache.query, hsrc, asyncResolve, hdst, hsub, h.seq]
  have hin : (s.submissions ++ [sub]).map Submission.pkt ++ queue = s.tcpIn := by
    rw [List.map_append, List.append_assoc, tcpIn, hqueue]
    rfl
  refine ⟨_, hstep, rfl,
    { neighs_eq := h.neighs_eq, rt_eq := h.rt_eq
      accounts := h.accounts.step (step_ledger hstep), seq := ?_, handlers := ?_
      wraps := h.wraps, tcbManager := ?_, tcp := ?_, resolve := ?_, ipv4 := h.ipv4 }⟩
  · -- `ip_id` counts the packets that got a header.
    change s.seq + 1 = BitVec.ofNat 16 (s.submissions ++ [sub]).length
    rw [h.seq, List.length_append, BitVec.ofNat_add]
    rfl
  · intro handler hresolve
    have hcount := h.count_rest hio hresolve
    change (rest ++ [Handler.resolve s.wrappers.length dstMac]).count handler = _
    rw [List.count_append]
    cases handler <;> simp [backlog, hqueue, post, Handler.resolve?] at hcount hresolve ⊢ <;> omega
  · change Conserves segment _ ((s.submissions ++ [sub]).map Submission.pkt ++ queue).zipIdx
      (s.tcbmQueue.zipIdx ((s.submissions ++ [sub]).map Submission.pkt ++ queue).length)
    rw [hin]
    exact h.tcbManager
  · -- The packet leaves `tcp`'s queue as the newest submission.
    have hpop := htcp.pop hrouted
    change Conserves (routed neighs rt)
      (((s.submissions ++ [sub]).map Submission.pkt ++ queue).zipIdx.map (routed neighs rt))
      ((s.submissions ++ [sub]).map Submission.resolved)
      (queue.zipIdx (s.submissions ++ [sub]).length)
    rw [hin, List.map_append, List.length_append]
    exact hpop
  · -- Its resolve task is posted behind the others.
    refine h.resolve_submitted rfl rfl ?_ rfl
    rw [tasks_post, ← tasks_of_ioCtx hio rfl]
    rfl

/-- A resolve task: the frame in its wrapper goes to `ipv4`'s queue. -/
theorem runResolve (h : Pipelined neighs rt s) {rest : List Handler} {w : ℕ} {mac : MacAddr}
    (hio : s.ioCtx = .resolve w mac :: rest) (junk : ℕ → Byte) :
    ∃ s', step s (.handler junk 0) = .ok s' ∧ s'.emitted = s.emitted ∧ Pipelined neighs rt s' := by
  have htasks : s.tasks = (w, mac) :: rest.filterMap Handler.resolve? := by
    rw [tasks, hio]
    rfl
  have hfirst : s.ledger.tasks = [] ++ (w, mac) :: rest.filterMap Handler.resolve? := htasks
  -- The accounts say which packet is in the wrapper, and that it is unchanged.
  obtain ⟨l, sub, hrelease, -, -, -, -, -, hsub, houts⟩ := h.accounts.task hfirst
  obtain ⟨frame, hframe, rfl⟩ := Option.map_eq_some_iff.mp hrelease
  obtain hsame : ({ frame with dstMacAddr := mac } : EthernetFrame)
      = { sub.frame with dstMacAddr := mac } := by
    have hlast := List.append_cancel_left houts
    simpa using hlast
  have hstep : step s (.handler junk 0) = .ok ({ s with
      ioCtx := rest, wrappers := s.wrappers.set w frame.movedFrom }.ipv4Enqueue w
        { sub.frame with dstMacAddr := mac }) := by
    rw [step_handler hio, ← hsame]
    change onResolved _ w mac = _
    simp only [onResolved, show s.wrappers[w]? = some frame from hframe]
  refine ⟨_, hstep, rfl,
    { neighs_eq := h.neighs_eq, rt_eq := h.rt_eq
      accounts := h.accounts.step (step_ledger hstep), seq := h.seq, handlers := ?_
      wraps := h.wraps, tcbManager := h.tcbManager, tcp := h.tcp, resolve := ?_, ipv4 := ?_ }⟩
  · intro handler hresolve
    have hcount := h.count_rest hio hresolve
    change (rest ++ [Handler.ipv4]).count handler = _
    rw [List.count_append]
    cases handler <;> simp [backlog, ipv4Enqueue, post, Handler.resolve?] at hcount hresolve ⊢ <;>
      omega
  · -- The frame leaves the tasks and, below, enters `ipv4`'s queue.
    have hresolve := h.resolve
    rw [htasks] at hresolve
    have hpop := hresolve.pop (show s.taskFrame (w, mac) = some _ by
      rw [taskFrame, show s.submissions[w]? = some sub from hsub]
      rfl)
    rw [ipv4Enqueue, tasks_post]
    change Conserves s.taskFrame _
      ((s.enqueued ++ [(w, { sub.frame with dstMacAddr := mac })]).map Prod.snd)
      (rest.filterMap Handler.resolve? ++ [])
    rw [List.append_nil, List.map_append]
    exact hpop
  · have hpush := h.ipv4.push { sub.frame with dstMacAddr := mac }
    change Conserves framed
      (((s.enqueued ++ [(w, { sub.frame with dstMacAddr := mac })]).map Prod.snd).map framed) _ _
    rw [List.map_append, List.map_append]
    exact hpush

/-- `ipv4`'s handler: a frame gets its Ethernet header. -/
theorem runIpv4 (h : Pipelined neighs rt s) {rest : List Handler} (hio : s.ioCtx = .ipv4 :: rest)
    (junk : ℕ → Byte) :
    ∃ s', step s (.handler junk 0) = .ok s' ∧ s'.emitted = s.emitted ∧ Pipelined neighs rt s' := by
  obtain ⟨frame, queue, hqueue⟩ := List.exists_cons_of_length_pos (h.backlog_pos hio rfl)
  obtain ⟨out, hframed⟩ : ∃ out, framed frame = some out := by
    rw [← Option.ne_none_iff_exists']
    apply h.ne_none
    rw [hqueue]
    simp
  have hstep : step s (.handler junk 0)
      = .ok ({ s with ioCtx := rest, ipv4Queue := queue }.ethEnqueue out) := by
    rw [step_handler hio]
    simp only [runHandler, hqueue, popQueue]
    rw [ok_bind, toOption_eq_some.mp hframed, ok_bind]
    rfl
  refine ⟨_, hstep, rfl,
    { neighs_eq := h.neighs_eq, rt_eq := h.rt_eq
      accounts := h.accounts.step (step_ledger hstep), seq := h.seq, handlers := ?_
      wraps := h.wraps, tcbManager := h.tcbManager, tcp := h.tcp, resolve := ?_, ipv4 := ?_ }⟩
  · intro handler hresolve
    have hcount := h.count_rest hio hresolve
    change (rest ++ [Handler.ethernetv2]).count handler = _
    rw [List.count_append]
    cases handler <;> simp [backlog, hqueue, ethEnqueue, post] at hcount ⊢ <;> omega
  · rw [ethEnqueue, tasks_post]
    change Conserves s.taskFrame _ _ (rest.filterMap Handler.resolve? ++ [])
    rw [List.append_nil, tasks_of_ioCtx hio rfl]
    exact h.resolve
  · have hipv4 := h.ipv4
    rw [hqueue] at hipv4
    have hpop := hipv4.pop hframed
    rw [List.append_assoc] at hpop
    exact hpop

/-- `ethernetv2`'s handler: a buffer is given to the device. -/
theorem runEthernetv2 (h : Pipelined neighs rt s) {rest : List Handler}
    (hio : s.ioCtx = .ethernetv2 :: rest) (junk : ℕ → Byte) :
    ∃ s', step s (.handler junk 0) = .ok s' ∧ s'.emitted = s.emitted ∧ Pipelined neighs rt s' := by
  obtain ⟨out, queue, hqueue⟩ := List.exists_cons_of_length_pos (h.backlog_pos hio rfl)
  have hstep : step s (.handler junk 0) = .ok { s with
      ioCtx := rest, ethQueue := queue, device := s.device ++ [out] } := by
    rw [step_handler hio]
    simp only [runHandler, hqueue, popQueue]
    rfl
  refine ⟨_, hstep, rfl,
    { neighs_eq := h.neighs_eq, rt_eq := h.rt_eq
      accounts := h.accounts.step (step_ledger hstep), seq := h.seq, handlers := ?_
      wraps := h.wraps, tcbManager := h.tcbManager, tcp := h.tcp, resolve := ?_, ipv4 := ?_ }⟩
  · intro handler hresolve
    have hcount := h.count_rest hio hresolve
    change rest.count handler = _
    cases handler <;> simp [backlog, hqueue] at hcount ⊢ <;> omega
  · change Conserves s.taskFrame _ _ (rest.filterMap Handler.resolve?)
    rw [tasks_of_ioCtx hio rfl]
    exact h.resolve
  · have hipv4 := h.ipv4
    rw [hqueue, List.append_cons] at hipv4
    exact hipv4

/-- **One step of the pipeline** succeeds, keeps the invariant and emits what
it is given.  An enqueue adds at one end; a handler takes the oldest element of
a queue and adds it to the next one. -/
theorem step (h : Pipelined neighs rt s) {e : Event} (he : Transmits neighs rt e) :
    ∃ s', Netns.step s e = .ok s' ∧ s'.emitted = s.emitted ++ emissions [e] ∧
      Pipelined neighs rt s' := by
  cases e with
  | enqueue pkt =>
      obtain ⟨⟨junk, seg, hser⟩, hreach⟩ := he
      exact ⟨_, rfl, rfl, h.enqueue (wrapped_ne_none hser hreach)⟩
  | handler junk i =>
      obtain rfl : i = 0 := he
      have hemissions : s.emitted ++ emissions [.handler junk 0] = s.emitted := List.append_nil _
      rw [hemissions]
      cases hio : s.ioCtx with
      | nil =>
          refine ⟨s, ?_, rfl, h⟩
          simp only [Netns.step, hio, List.getElem?_nil]
      | cons oldest rest =>
          cases oldest with
          | tcbManager => exact h.runTcbManager hio junk
          | tcp => exact h.runTcp hio junk
          | ipv4 => exact h.runIpv4 hio junk
          | ethernetv2 => exact h.runEthernetv2 hio junk
          | resolve w mac => exact h.runResolve hio junk
          -- Nobody posts for a queue that stays empty.
          | icmp => exact absurd (h.backlog_pos hio rfl) (lt_irrefl 0)
          | arp => exact absurd (h.backlog_pos hio rfl) (lt_irrefl 0)
  | _ => exact absurd he id

/-- No handler is left: neither is a packet. -/
theorem drained (h : Pipelined neighs rt s) (hio : s.ioCtx = []) :
    s.device.map some = s.emitted.zipIdx.map (wrapped neighs rt) := by
  have hempty (handler : Handler) (hresolve : handler.resolve? = none) : s.backlog handler = 0 := by
    rw [← h.handlers handler hresolve, hio, List.count_nil]
  have htcbm : s.tcbmQueue = [] := List.length_eq_zero_iff.mp (hempty .tcbManager rfl)
  have htcp : s.tcpQueue = [] := List.length_eq_zero_iff.mp (hempty .tcp rfl)
  have hipv4 : s.ipv4Queue = [] := List.length_eq_zero_iff.mp (hempty .ipv4 rfl)
  have heth : s.ethQueue = [] := List.length_eq_zero_iff.mp (hempty .ethernetv2 rfl)
  have htasks : s.tasks = [] := by rw [tasks, hio, List.filterMap_nil]
  have hall := h.conserves
  rw [htcbm, htcp, hipv4, heth, htasks, List.append_nil] at hall
  exact hall.drained.symm

end Pipelined

/-- **Every run of the pipeline.**  Handlers may be run in any order, also
those of different layers: only the order within a layer matters, and each
queue keeps it. -/
theorem Pipelined.run {neighs : NeighCache} {rt : RoutingTable} {s : Netns} {es : List Event}
    (h : Pipelined neighs rt s) (hes : ∀ e ∈ es, Transmits neighs rt e) :
    ∃ s', EventSystem.run Netns.step s es = .ok s' ∧ s'.emitted = s.emitted ++ emissions es ∧
      Pipelined neighs rt s' := by
  induction es generalizing s with
  | nil => exact ⟨s, rfl, (List.append_nil _).symm, h⟩
  | cons e es ih =>
      obtain ⟨t, ht, hemitted, hpipe⟩ := h.step (hes e List.mem_cons_self)
      obtain ⟨s', hs', hemitted', hpipe'⟩ :=
        ih hpipe (fun e' he' => hes e' (List.mem_cons_of_mem e he'))
      refine ⟨s', by rw [run_cons, ht]; exact hs', ?_, hpipe'⟩
      have hsplit : emissions (e :: es) = emissions [e] ++ emissions es :=
        List.filterMap_append (l := [e])
      rw [hemitted', hemitted, hsplit, List.append_assoc]

/-- A list without failures is a list of results. -/
theorem exists_map_some {α : Type} {l : List (Option α)} (h : ∀ x ∈ l, x ≠ none) :
    ∃ ys : List α, ys.map some = l := by
  induction l with
  | nil => exact ⟨[], rfl⟩
  | cons x l ih =>
      obtain ⟨y, rfl⟩ := Option.ne_none_iff_exists'.mp (h x List.mem_cons_self)
      obtain ⟨ys, rfl⟩ := ih fun x' hx' => h x' (List.mem_cons_of_mem _ hx')
      exact ⟨y :: ys, rfl⟩

/-- And what stands in front of it is the first part. -/
theorem prefix_of_map_some {α : Type} {xs ys : List α} {rest : List (Option α)}
    (h : ys.map some = xs.map some ++ rest) : xs <+: ys := by
  obtain ⟨xs', zs, hys, hxs, -⟩ := List.map_eq_append_iff.mp h
  obtain rfl := List.map_injective_iff.mpr (Option.some_injective α) hxs
  exact ⟨zs, hys.symm⟩

/-- **The transmit pipeline is one FIFO queue, and lossless.**  For any
interleaving of segments emitted by any number of connections and handlers run
oldest first, while every destination can be reached: nothing fails; the
emitted segments, each wrapped in its IPv4 and Ethernet headers, are the
buffers given to `device::process`, followed by the contents of `ethernetv2`'s
queue, `ipv4`'s queue, the resolve tasks, `tcp`'s queue and `tcb_manager`'s
queue, oldest first; and once no handler is left, all of them have been given
to the device. -/
theorem transmit_fifo {neighs : NeighCache} {rt : RoutingTable} {es : List Event}
    (hes : ∀ e ∈ es, Transmits neighs rt e) :
    ∃ s frames, run step (create neighs rt) es = .ok s ∧
      (emissions es).zipIdx.map (wrapped neighs rt) = frames.map some ∧
      s.device <+: frames ∧
      frames.map some = s.device.map some ++ (s.ethQueue.map some ++ (s.ipv4Queue.map framed ++
        (s.tasks.map (fun task => (s.taskFrame task).bind framed) ++
          ((s.tcpQueue.zipIdx s.submissions.length).map
              (fun pkt => (routed neighs rt pkt).bind framed) ++
            (s.tcbmQueue.zipIdx (s.submissions.length + s.tcpQueue.length)).map
              (wrapped neighs rt))))) ∧
      (s.ioCtx = [] → s.device = frames) := by
  obtain ⟨s, hrun, hemitted, hpipe⟩ := Pipelined.create.run hes
  have hemissions : s.emitted = emissions es := hemitted
  have hwraps : ∀ x ∈ (emissions es).zipIdx.map (wrapped neighs rt), x ≠ none := by
    intro x hx
    obtain ⟨seg, hseg, rfl⟩ := List.mem_map.mp hx
    exact hpipe.wraps seg (hemissions ▸ hseg)
  obtain ⟨frames, hframes⟩ := exists_map_some hwraps
  have hall := hpipe.conserves
  rw [Conserves, hemissions, ← hframes, List.map_id, List.map_append, List.append_assoc,
    Pipelined.length_tcpIn] at hall
  refine ⟨s, frames, hrun, hframes.symm, prefix_of_map_some hall, hall, ?_⟩
  intro hio
  have hdrained := hpipe.drained hio
  rw [hemissions, ← hframes] at hdrained
  exact List.map_injective_iff.mpr (Option.some_injective _) hdrained

/-- The neighbours of a host with address 2, whose gateway is cached. -/
def resolvedGateway (addr : Ipv4Addr) : Option MacAddr :=
  if addr = 2 then some 0x0A else if addr = 9 then some 0x0B else none

/-- A SYN of host 2 for host 7. -/
def synToHost7 : TcpPacket where
  proto := 0x06
  remoteEp := ⟨7, 80⟩
  localEp := ⟨2, 1024⟩
  skb := { tcph := { TcpHeader.bare with srcPort := 1024, dstPort := 80, SYN := true }
           opts := [], text := [] }

/-- Two segments and ten handlers: both have been given to the device, each
wrapped in its headers. -/
theorem two_segments_transmitted :
    ∃ pkt s frames, synToHost7.serialize (fun _ => 0) = .ok pkt ∧
      run step (create resolvedGateway ⟨fun _ => none, some ⟨9, 2, 0⟩⟩)
        (.enqueue pkt :: .enqueue pkt :: List.replicate 10 (.handler (fun _ => 0) 0)) = .ok s ∧
      [(pkt, 0), (pkt, 1)].map (wrapped resolvedGateway ⟨fun _ => none, some ⟨9, 2, 0⟩⟩)
        = frames.map some ∧ s.device = frames := by
  obtain ⟨pkt, hpkt⟩ : ∃ pkt, synToHost7.serialize (fun _ => 0) = .ok pkt := ⟨_, rfl⟩
  have hdst : pkt.remoteEp.addrv4 = 7 := by cases hpkt; rfl
  have hreach : Reaches resolvedGateway ⟨fun _ => none, some ⟨9, 2, 0⟩⟩ pkt.remoteEp.addrv4 := by
    rw [hdst]
    exact ⟨⟨9, 2, 0⟩, 0x0A, 0x0B, rfl, rfl, rfl⟩
  set es : List Event :=
    .enqueue pkt :: .enqueue pkt :: List.replicate 10 (.handler (fun _ => 0) 0)
  have hes : ∀ e ∈ es, Transmits resolvedGateway ⟨fun _ => none, some ⟨9, 2, 0⟩⟩ e := by
    intro e he
    rcases List.mem_cons.mp he with rfl | he
    · exact ⟨⟨_, _, hpkt⟩, hreach⟩
    · rcases List.mem_cons.mp he with rfl | he
      · exact ⟨⟨_, _, hpkt⟩, hreach⟩
      · obtain rfl := List.eq_of_mem_replicate he
        rfl
  obtain ⟨s, frames, hrun, hframes, -, -, hdone⟩ := transmit_fifo hes
  refine ⟨pkt, s, frames, hpkt, hrun, hframes, hdone ?_⟩
  cases hpkt
  cases hrun
  rfl

end Netns

end Mstack
