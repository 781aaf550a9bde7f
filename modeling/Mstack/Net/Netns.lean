import Mstack.Net.Layers

/-!
# The network namespace

`netns::impl`: the layers below the connections, wired to each other, with one
`io_context`.  A layer hands a packet down by pushing it into its
`packet_queue_` and posting a handler; the handler gives the front of that
queue to the layer below (`base_protocol::enqueue`).  Between `ipv4` and its
queue stands address resolution: `ipv4::process` wraps the frame into a
`std::shared_ptr` and passes a callback to `arp::async_resolve`, which posts it
at once when the neighbour is cached and otherwise connects it to the signal of
the next hop.

    tcb_manager --> tcp --> ipv4 --> (resolve) --> [ipv4 queue] --> ethernetv2 --> device
                    icmp ----^          |                              ^
                                        +--- arp ----------------------+

Everything that the objects of a namespace share is one record.  A shared
wrapper is an index into `wrappers`; calling its callback moves the frame out
of it, so that a callback that is called twice enqueues a frame whose device is
gone and whose buffer is another's.

### Events

`Handler` is what can stand in the `io_context`; `Event` is what can happen to
a namespace: a connection emits a segment, a frame or a packet arrives, the
application resets an entry of the cache, a handler runs.  The order in which
handlers run is left to the event: a single-threaded `io_context` runs index
`0` only, and a result that needs this says so.

### History

`submissions` records what `ipv4::process` has passed to `arp::async_resolve`,
`enqueued` what the callbacks have enqueued towards Ethernet, `replies` the
senders of ARP replies, `emitted` what the connections have handed to
`tcb_manager`.  No function reads them.

### What is load-bearing

Two containers keep the *first* value for a key where their names suggest
otherwise: `cache_.insert` in `neigh_cache::update` and `table_.emplace` in
`routing_table::update`.  A third, `default_.emplace`, replaces.
`Net.Neighbours` says what follows.

A handler does not know which packet it was posted for.  It takes the front of
its queue, and a queue that is empty is an access to `front()` of an empty
`std::queue` (`NetFault.emptyQueue`); that this never happens is an invariant
(`Net.Pipeline`).
-/

namespace Mstack

open BigEndian EventSystem

/-- `neigh_cache::cache_`.  A function and not a map with an order: nothing
iterates over it. -/
abbrev NeighCache := Ipv4Addr → Option MacAddr

namespace NeighCache

/-- `neigh_cache::query`. -/
def query (cache : NeighCache) (addr : Ipv4Addr) : Option MacAddr := cache addr

/-- `neigh_cache::update`: `cache_.insert(kv)`, which keeps an entry that
exists. -/
def update (cache : NeighCache) (addr : Ipv4Addr) (mac : MacAddr) : NeighCache :=
  match cache addr with
  | some _ => cache
  | none => Function.update cache addr (some mac)

/-- An update fills the entry for its address if that is missing, and touches
no other. -/
theorem update_apply (cache : NeighCache) (addr : Ipv4Addr) (mac : MacAddr) (a : Ipv4Addr) :
    cache.update addr mac a = if a = addr ∧ cache a = none then some mac else cache a := by
  by_cases ha : a = addr
  · subst ha
    cases hentry : cache a with
    | some old => rw [if_neg (by simp), update, hentry]; exact hentry
    | none => rw [if_pos ⟨rfl, rfl⟩, update, hentry]; exact Function.update_self _ _ _
  · rw [if_neg fun h => ha h.1, update]
    cases cache addr with
    | some old => rfl
    | none => exact Function.update_of_ne ha _ _

/-- `neigh_cache::reset`. -/
def reset (cache : NeighCache) (addr : Ipv4Addr) : NeighCache :=
  Function.update cache addr none

end NeighCache

/-- `routing_table::record`. -/
structure RouteRecord where
  viaAddrv4 : Ipv4Addr
  fromAddrv4 : Ipv4Addr
  dev : DeviceId
  deriving DecidableEq, Repr

/-- `routing_table`. -/
structure RoutingTable where
  table : Ipv4Addr → Option RouteRecord
  default : Option RouteRecord

namespace RoutingTable

/-- `routing_table::query`. -/
def query (rt : RoutingTable) (addr : Ipv4Addr) : Option RouteRecord := rt.table addr

/-- `routing_table::update`: `table_.emplace(hop, record)`, which keeps an
entry that exists. -/
def update (rt : RoutingTable) (hop : Ipv4Addr) (record : RouteRecord) : RoutingTable :=
  match rt.table hop with
  | some _ => rt
  | none => { rt with table := Function.update rt.table hop (some record) }

/-- `routing_table::update_default`: `default_.emplace(record)`, which replaces
a record that exists. -/
def updateDefault (rt : RoutingTable) (record : RouteRecord) : RoutingTable :=
  { rt with default := some record }

/-- `routing_table::reset`. -/
def reset (rt : RoutingTable) (addr : Ipv4Addr) : RoutingTable :=
  { rt with table := Function.update rt.table addr none }

/-- `routing_table::query_default`. -/
def queryDefault (rt : RoutingTable) : Option RouteRecord := rt.default

/-- The next hop `ipv4::process` chooses: the record of the destination, if it
has one of its own, or else the default. -/
def nh (rt : RoutingTable) (dst : Ipv4Addr) : Option RouteRecord :=
  match rt.query dst with
  | some record => some record
  | none => rt.queryDefault

end RoutingTable

/-- What `std::move` leaves behind: addresses and protocol are copied, the
buffer is moved from, and the reference to the device is gone. -/
def EthernetFrame.movedFrom (frame : EthernetFrame) : EthernetFrame :=
  { frame with skb := frame.skb.movedFrom, dev := none }

/-- The handlers posted to the `io_context` of a namespace.  Those of the
layers take the front of the layer's queue when they run; a resolve task
carries its own data. -/
inductive Handler where
  /-- `base_protocol::enqueue`, in the layer named. -/
  | tcbManager
  | tcp
  | icmp
  | arp
  | ipv4
  | ethernetv2
  /-- `arp::async_resolve` on a cache hit: `cb(mac)`. -/
  | resolve (wrapper : ℕ) (mac : MacAddr)
  deriving DecidableEq, Repr

/-- A packet that `ipv4::process` has given to `arp::async_resolve`: the packet
and the value of `seq_` its header got, the frame put into the wrapper, the
next hop, and the cache entry found for it. -/
structure Submission where
  pkt : Ipv4Packet
  seq : BitVec 16
  frame : EthernetFrame
  via : Ipv4Addr
  cached : Option MacAddr
  deriving DecidableEq, Repr

/-- `netns::impl`, its `io_context`, and history variables.  `onReplies` are
the slots of `on_replies_`, as positions in `wrappers`, the `std::shared_ptr`s
that the callbacks of `async_resolve` have captured. -/
structure Netns where
  ioCtx : List Handler
  neighs : NeighCache
  rt : RoutingTable
  onReplies : Ipv4Addr → List ℕ
  wrappers : List EthernetFrame
  seq : BitVec 16
  tcbmQueue : List RawTcpPacket
  tcpQueue : List Ipv4Packet
  icmpQueue : List Ipv4Packet
  arpQueue : List EthernetFrame
  ipv4Queue : List EthernetFrame
  ethQueue : List (Skbuff × DeviceId)
  device : List (Skbuff × DeviceId)
  submissions : List Submission
  enqueued : List (ℕ × EthernetFrame)
  replies : List (Ipv4Addr × MacAddr)
  emitted : List RawTcpPacket

namespace Netns

/-- The constructor, with the tables the application configures afterwards. -/
def create (neighs : NeighCache) (rt : RoutingTable) : Netns where
  ioCtx := []
  neighs := neighs
  rt := rt
  onReplies := fun _ => []
  wrappers := []
  seq := 0
  tcbmQueue := []
  tcpQueue := []
  icmpQueue := []
  arpQueue := []
  ipv4Queue := []
  ethQueue := []
  device := []
  submissions := []
  enqueued := []
  replies := []
  emitted := []

/-- `io_ctx_.post(h)`. -/
def post (s : Netns) (h : Handler) : Netns := { s with ioCtx := s.ioCtx ++ [h] }

/-! ## `arp`

A request fills the cache with its sender and is answered from the cache; a
reply fills the cache too, and calls what waits for its sender. -/

/-- `arp::update`: an address that is broadcast or zero is not learnt. -/
def arpUpdate (s : Netns) (mac : MacAddr) (addr : Ipv4Addr) : Netns :=
  if mac.isBroadcast || mac.isZero then s
  else { s with neighs := s.neighs.update addr mac }

/-- `enqueue`, in `arp`. -/
def arpEnqueue (s : Netns) (frame : EthernetFrame) : Netns :=
  { s with arpQueue := s.arpQueue ++ [frame] }.post .arp

/-- `arp::PROTO`. -/
def arpPROTO : BitVec 16 := 0x0806

/-- `arp::async_request`. -/
def asyncRequest (s : Netns) (junk : ℕ → Byte) (fromMac : MacAddr) (fromAddr toAddr : Ipv4Addr)
    (dev : DeviceId) : Except NetFault Netns := do
  let outArp : ArpHeader :=
    { htype := 0x0001, ptype := 0x0800, hlen := 0x06, plen := 0x04, oper := 0x0001
      sha := fromMac, spa := fromAddr, tha := 0, tpa := toAddr }
  let room := EthernetHeader.size + ArpHeader.size
  let skb ← (Skbuff.alloc junk room EthernetHeader.size).write 0 outArp.produceToNet
  return s.arpEnqueue
    { srcMacAddr := outArp.sha, dstMacAddr := BitVec.allOnes 48, proto := arpPROTO, skb
      dev := some dev }

/-- `arp::async_resolve`; `cb` is the wrapper of the callback.  An address that
is in the cache posts a task, and one that is not adds a slot and sends a
request.  There is no timer: a request that nobody answers is not repeated,
except by the next packet to the same address. -/
def asyncResolve (s : Netns) (junk : ℕ → Byte) (fromMac : MacAddr) (fromIpv4 toIpv4 : Ipv4Addr)
    (dev : DeviceId) (cb : ℕ) : Except NetFault Netns :=
  match s.neighs.query toIpv4 with
  | some mac => .ok (s.post (.resolve cb mac))
  | none =>
      { s with onReplies := Function.update s.onReplies toIpv4 (s.onReplies toIpv4 ++ [cb]) }
        |>.asyncRequest junk fromMac fromIpv4 toIpv4 dev

/-- `arp::async_reply`: the request's own buffer becomes the reply, and its own
device sends it. -/
def asyncReply (s : Netns) (fromMac : MacAddr) (fromAddr : Ipv4Addr) (toMac : MacAddr)
    (toAddr : Ipv4Addr) (frame : EthernetFrame) : Except NetFault Netns := do
  let outArp : ArpHeader :=
    { htype := 0x0001, ptype := 0x0800, hlen := 0x06, plen := 0x04, oper := 0x0002
      sha := fromMac, spa := fromAddr, tha := toMac, tpa := toAddr }
  let skb ← frame.skb.pushFront ArpHeader.size
  let skb ← skb.write 0 outArp.produceToNet
  return s.arpEnqueue
    { srcMacAddr := outArp.sha, dstMacAddr := outArp.tha, proto := arpPROTO, skb
      dev := frame.dev }

/-- `arp::process_request`: the cache is asked for the target *after* it has
learnt the sender. -/
def processRequest (s : Netns) (inArp : ArpHeader) (frame : EthernetFrame) :
    Except NetFault Netns :=
  let s := s.arpUpdate inArp.sha inArp.spa
  match s.neighs.query inArp.tpa with
  | some tha => s.asyncReply tha inArp.tpa inArp.sha inArp.spa frame
  | none => .ok s

/-! ## `ipv4`

The header is written before the address is known, so that packets are numbered
in the order of submission and leave in another. -/

/-- `enqueue`, in `ipv4`, for the frame that came out of wrapper `w`. -/
def ipv4Enqueue (s : Netns) (w : ℕ) (frame : EthernetFrame) : Netns :=
  { s with
    ipv4Queue := s.ipv4Queue ++ [frame]
    enqueued := s.enqueued ++ [(w, frame)] }.post .ipv4

/-- The callback that `ipv4::process` passes to `arp::async_resolve`: the frame
is moved out of its wrapper, gets its destination, and goes to the queue. -/
def onResolved (s : Netns) (w : ℕ) (nhAddr : MacAddr) : Except NetFault Netns :=
  match s.wrappers[w]? with
  | none => .error .outOfBounds
  | some frame =>
      .ok ({ s with wrappers := s.wrappers.set w frame.movedFrom }.ipv4Enqueue w
        { frame with dstMacAddr := nhAddr })

/-- `on_reply(mac)`: every slot is called, in connection order.  The calls are
made at once and not posted. -/
def onReply (s : Netns) (mac : MacAddr) : List ℕ → Except NetFault Netns
  | [] => .ok s
  | w :: slots => do (← s.onResolved w mac).onReply mac slots

/-- `arp::process_reply`.  The slots are taken out before they are called, and
they are called with the address from the reply, whatever the cache says. -/
def processReply (s : Netns) (inArp : ArpHeader) : Except NetFault Netns :=
  let s := s.arpUpdate inArp.sha inArp.spa
  let slots := s.onReplies inArp.spa
  { s with
    onReplies := Function.update s.onReplies inArp.spa []
    replies := s.replies ++ [(inArp.spa, inArp.sha)] }.onReply inArp.sha slots

/-- `arp::process`: two fields are compared, and the operation decides.
Anything else is dropped without a fault. -/
def arpProcess (s : Netns) (frame : EthernetFrame) : Except NetFault Netns := do
  let inArp ← consume ArpHeader.consumeFromNet frame.skb
  let skb ← frame.skb.popFront ArpHeader.size
  if 0x0001 = inArp.htype ∧ 0x0800 = inArp.ptype then
    if inArp.oper = 0x0001 then s.processRequest inArp { frame with skb }
    else if inArp.oper = 0x0002 then s.processReply inArp
    else return s
  else return s

/-- `ipv4::process`: a packet without a route is dropped; without a cached
address of its own the program stops. -/
def ipv4Process (s : Netns) (junk : ℕ → Byte) (pkt : Ipv4Packet) : Except NetFault Netns := do
  let skb ← Ipv4.skbOut s.seq pkt
  match s.rt.nh pkt.dstAddrv4 with
  | none => return { s with seq := s.seq + 1 }
  | some nh =>
      match s.neighs.query nh.fromAddrv4 with
      | none => .error .noSourceMac
      | some srcMac =>
          let outFrame : EthernetFrame :=
            { srcMacAddr := srcMac, dstMacAddr := 0, proto := Ipv4.PROTO, skb, dev := some nh.dev }
          let sub : Submission :=
            { pkt, seq := s.seq, frame := outFrame, via := nh.viaAddrv4
              cached := s.neighs.query nh.viaAddrv4 }
          { s with
            seq := s.seq + 1
            wrappers := s.wrappers ++ [outFrame]
            submissions := s.submissions ++ [sub] }.asyncResolve junk srcMac nh.fromAddrv4
              nh.viaAddrv4 nh.dev s.wrappers.length

/-! ## Handlers and events

`enqueue` of each layer, and the handler that it posts. -/

/-- `enqueue`, in `tcb_manager`. -/
def tcbmEnqueue (s : Netns) (pkt : RawTcpPacket) : Netns :=
  { s with tcbmQueue := s.tcbmQueue ++ [pkt], emitted := s.emitted ++ [pkt] }.post .tcbManager

/-- `enqueue`, in `tcp`. -/
def tcpEnqueue (s : Netns) (pkt : Ipv4Packet) : Netns :=
  { s with tcpQueue := s.tcpQueue ++ [pkt] }.post .tcp

/-- `enqueue`, in `icmp`. -/
def icmpEnqueue (s : Netns) (pkt : Ipv4Packet) : Netns :=
  { s with icmpQueue := s.icmpQueue ++ [pkt] }.post .icmp

/-- `enqueue`, in `ethernetv2`. -/
def ethEnqueue (s : Netns) (out : Skbuff × DeviceId) : Netns :=
  { s with ethQueue := s.ethQueue ++ [out] }.post .ethernetv2

/-- The element at the front of a queue, and the queue without it.  The source
reads `front()` of a `std::queue`, which is undefined if there is none. -/
def popQueue {α : Type} : List α → Except NetFault (α × List α)
  | [] => .error .emptyQueue
  | a :: rest => .ok (a, rest)

/-- Run a handler, as `netns::impl::impl` has wired the layers: each of the
five queues belongs to a layer, and its element goes to the `process` of the
layer below. -/
def runHandler (s : Netns) (junk : ℕ → Byte) : Handler → Except NetFault Netns
  | .tcbManager => do
      let (pkt, rest) ← popQueue s.tcbmQueue
      return { s with tcbmQueue := rest }.tcpEnqueue (← Tcp.process pkt)
  | .tcp => do
      let (pkt, rest) ← popQueue s.tcpQueue
      { s with tcpQueue := rest }.ipv4Process junk pkt
  | .icmp => do
      let (pkt, rest) ← popQueue s.icmpQueue
      { s with icmpQueue := rest }.ipv4Process junk pkt
  | .arp => do
      let (frame, rest) ← popQueue s.arpQueue
      return { s with arpQueue := rest }.ethEnqueue (← Ethernetv2.process frame)
  | .ipv4 => do
      let (frame, rest) ← popQueue s.ipv4Queue
      return { s with ipv4Queue := rest }.ethEnqueue (← Ethernetv2.process frame)
  | .ethernetv2 => do
      let (out, rest) ← popQueue s.ethQueue
      return { s with ethQueue := rest, device := s.device ++ [out] }
  | .resolve w mac => s.onResolved w mac

/-- What can happen to a namespace.  `junk` is what a fresh allocation holds. -/
inductive Event where
  /-- `tcb_t::enqueue`, by any connection. -/
  | enqueue (pkt : RawTcpPacket)
  /-- `ipv4::receive(ipv4_packet&&)`. -/
  | ipv4Process (junk : ℕ → Byte) (pkt : Ipv4Packet)
  /-- A frame that `ethernetv2` dispatches to `arp`. -/
  | arpProcess (frame : EthernetFrame)
  /-- A packet that `ipv4` dispatches to `icmp`. -/
  | icmpProcess (pkt : Ipv4Packet)
  /-- `neigh_cache::reset`. -/
  | reset (addr : Ipv4Addr)
  /-- The handler at position `i` of the `io_context` runs, if there is one. -/
  | handler (junk : ℕ → Byte) (i : ℕ)

/-- Handle one event.  Packets come from above and frames from below; the
application may erase a cache entry; and the loop runs a handler, at any
position. -/
def step (s : Netns) : Event → Except NetFault Netns
  | .enqueue pkt => .ok (s.tcbmEnqueue pkt)
  | .ipv4Process junk pkt => s.ipv4Process junk pkt
  | .arpProcess frame => s.arpProcess frame
  | .icmpProcess pkt => do
      match ← Icmp.process pkt with
      | some reply => return s.icmpEnqueue reply
      | none => return s
  | .reset addr => .ok { s with neighs := s.neighs.reset addr }
  | .handler junk i =>
      match s.ioCtx[i]? with
      | none => .ok s
      | some h => { s with ioCtx := s.ioCtx.eraseIdx i }.runHandler junk h

end Netns

end Mstack
