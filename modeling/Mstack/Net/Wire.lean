import Mstack.Lib.Simulation
import Mstack.Net.Station

/-!
# Two hosts on a wire

The connection of `Tcp.Duplex` once more, with everything that was left out
there: every packet is put into a buffer, travels through the queues of
`tcb_manager`, `tcp`, `ipv4` and `ethernetv2` one handler at a time, gets a
checksum and three headers, is written as a frame, read as bytes at the other
end, and taken apart again.  The frames of a device are read in the order in
which they were written.

### Two levels

`Duplex` says what all of this is for, and `wire_simulates` that it is: a
handler of the layers does nothing that the two blocks could notice, and
reading a frame is the delivery of the oldest packet of the channel.  So what
is proved of two blocks with two lossless channels (`duplex_stream_integrity`)
holds of two stacks that exchange bytes.

* `Abstracts` — **the simulation relation**: each host carries its block, and
  the two blocks are in a phase of `Duplex`.
* `wire_refines_duplex` — every admissible run of the hosts is a run of the
  blocks.
* `wire_stream_integrity` — and so the streams are intact, in bytes on the
  wire.

### What the results assume

* **At the start** (`Connecting`): the client has called `start_connecting`
  with a send MSS of at most 1446, each host has a route to the other and knows
  the next hop.  The constructor of `tcb_t` does not initialise the MSS, and
  the SYN-ACK of this program carries no options that would set it on an active
  open, which is why it has to be assumed; the other members that are not
  initialised may hold anything.
* **At every event** (`EventOk`): the application reads and writes once it
  holds the block, one read at a time, and its writes fit the send queue; and
  no sequence number in use plus the receive window reaches `2 ^ 32`.  A write
  that does not fit is an assertion of the program (`Tcp.SendQueue`), and
  behind the wrap the window test is wrong (`Tcp.WrapSafety`).

Nothing is assumed of the order of events: handlers of either host, frames and
calls interleave as they like.

### What is load-bearing

That the frames are read in order, each once.  A medium that loses or reorders
them is beyond this file, and beyond the program: it neither retransmits nor
sorts (`Tcp.InOrder`).
-/

namespace Mstack

open EventSystem

/-- A client and a server, each with its stack. -/
structure Wire where
  client : Station
  server : Station

namespace Wire

/-- What can happen: an event at a block, the oldest handler of the layers
under it, or the reading of the next frame.  `junk` is what the allocator
leaves in fresh buffers, `dev` the device on which the frame is read. -/
inductive Event where
  | client (junk : ℕ → ℕ → Byte) (e : Mstack.Event)
  | server (junk : ℕ → ℕ → Byte) (e : Mstack.Event)
  | clientHandler (junk : ℕ → Byte)
  | serverHandler (junk : ℕ → Byte)
  | toServer (junk : ℕ → ℕ → Byte) (dev : DeviceId)
  | toClient (junk : ℕ → ℕ → Byte) (dev : DeviceId)

/-- One event; `isn` is the number the server draws. -/
def step (isn : BitVec 32) (w : Wire) : Event → Except StationFault Wire
  | .client junk e => do return { w with client := ← w.client.event isn junk e }
  | .server junk e => do return { w with server := ← w.server.event isn junk e }
  | .clientHandler junk => do return { w with client := ← w.client.handler junk }
  | .serverHandler junk => do return { w with server := ← w.server.handler junk }
  | .toServer junk dev =>
      match w.client.frame with
      | none => .ok w
      | some bs => do
          let server ← w.server.receive isn junk dev bs
          return { client := { w.client with read := w.client.read + 1 }, server }
  | .toClient junk dev =>
      match w.server.frame with
      | none => .ok w
      | some bs => do
          let client ← w.client.receive isn junk dev bs
          return { client, server := { w.server with read := w.server.read + 1 } }

/-- A run of the two hosts. -/
def run (isn : BitVec 32) (w : Wire) (es : List Event) : Except StationFault Wire :=
  EventSystem.run (step isn) w es

/-- What may happen: any handler, any frame, and at either block what
`Tcb.LocalOk` admits, while no sequence number in use plus the receive window
reaches `2 ^ 32`. -/
def EventOk (w : Wire) (e : Event) : Prop :=
  Tcb.Bounded w.client.tcb ∧ Tcb.Bounded w.server.tcb ∧
    match e with
    | .client _ e => Tcb.LocalOk w.client.tcb e
    | .server _ e => Tcb.LocalOk w.server.tcb e
    | _ => True

instance (w : Wire) (e : Event) : Decidable (EventOk w e) :=
  match e with
  | .client _ e => inferInstanceAs (Decidable (_ ∧ _ ∧ Tcb.LocalOk w.client.tcb e))
  | .server _ e => inferInstanceAs (Decidable (_ ∧ _ ∧ Tcb.LocalOk w.server.tcb e))
  | .clientHandler _ | .serverHandler _ | .toServer _ _ | .toClient _ _ =>
      inferInstanceAs (Decidable (_ ∧ _ ∧ True))

/-- What the two hosts are configured with: a neighbour cache and a routing
table each, and the endpoints of the connection. -/
structure Config where
  neighs : NeighCache
  rt : RoutingTable
  neighs' : NeighCache
  rt' : RoutingTable
  clientEp : Endpoint
  serverEp : Endpoint

/-- **The two hosts at the start.**  The client has called `start_connecting`,
and its SYN is in the queue of `tcb_manager`.  Each host has a route to the
other, and knows the next hop.  Nothing is assumed of the members the
constructor leaves alone, except that the client's send MSS leaves room for the
headers in the 1500 bytes that a host reads. -/
inductive Connecting (cfg : Config) (isnA : BitVec 32) : Wire → Prop where
  | mk (junkSend junkSend' : SendState) (junkRcv junkRcv' : ReceiveState)
      (hmss : junkSend.mss.toNat ≤ 1446)
      (hreach : Netns.Reaches cfg.neighs cfg.rt cfg.serverEp.addrv4)
      (hreach' : Netns.Reaches cfg.neighs' cfg.rt' cfg.clientEp.addrv4)
      (junk : ℕ → ℕ → Byte) {tcb : Tcb} {stack : Netns}
      (hconnect : (Tcb.create cfg.serverEp cfg.clientEp .connecting .connecting junkSend
        junkRcv).startConnecting isnA = .ok tcb)
      (hstack : Station.enqueueAll junk 0 tcb.mngr (Netns.create cfg.neighs cfg.rt) = .ok stack) :
      Connecting cfg isnA
        ⟨⟨{ tcb with mngr := [] }, stack, 0⟩,
          ⟨Tcb.create cfg.clientEp cfg.serverEp .listen .listen junkSend' junkRcv',
            Netns.create cfg.neighs' cfg.rt', 0⟩⟩

/-- **What two blocks have to do with two hosts.**  Each host carries its
block; the phase of the two blocks is part of it, because what the hosts may
assume of a segment (that a SYN offers the MSS of this program) is a fact about
the blocks. -/
structure Abstracts (cfg : Config) (isnA isnB : BitVec 32) (w : Wire) (d : Duplex) : Prop where
  client : w.client.Carries cfg.neighs cfg.rt cfg.serverEp cfg.clientEp d.client
  server : w.server.Carries cfg.neighs' cfg.rt' cfg.clientEp cfg.serverEp d.server
  phase : Duplex.Phase isnA isnB d

end Wire

namespace Wire

variable {cfg : Config} {isnA isnB : BitVec 32} {w : Wire} {d : Duplex}

/-- A local event sends the block no segment. -/
theorem offersMss_of_localOk {t : Tcb} {e : Mstack.Event} (hok : Tcb.LocalOk t e) :
    Tcb.EventOk Tcb.OffersMss (fun _ _ => True) t e :=
  Tcb.EventOk.mono (fun _ _ hfalse => hfalse.elim) (fun _ _ _ => trivial) hok

/-- **The two hosts are simulated by the two blocks**: an event of a host is an
event of its block, a delivery, or nothing.  Reading a frame is a delivery; a
handler of the layers is nothing. -/
theorem wire_simulates (cfg : Config) (isnA isnB : BitVec 32) :
    Simulates (step isnB) EventOk (Duplex.step isnB) Duplex.EventOk (Abstracts cfg isnA isnB) := by
  rintro w d e ⟨hclient, hserver, hphase⟩ ⟨hboundA, hboundB, hlocal⟩
  have hA : Tcb.Bounded d.client := by rw [hclient.block] at hboundA; exact hboundA
  have hB : Tcb.Bounded d.server := by rw [hserver.block] at hboundB; exact hboundB
  cases e with
  | client junk e =>
      have hok := hclient.localOk hlocal
      obtain ⟨d', hstep, hphase'⟩ := hphase.step (e := .client e) ⟨hA, hB, hok⟩
      obtain ⟨t', ht', hd'⟩ := bind_eq_ok.mp hstep
      cases hd'
      -- What the block sends in the event waits at `tcb_manager` from now on.
      obtain ⟨s', hs', hcarries⟩ := hclient.event junk (offersMss_of_localOk hok) ht'
      refine ⟨{ w with client := s' }, [.client e], _, ?_, .single ⟨hA, hB, hok⟩ hstep,
        hcarries, hserver, hphase'⟩
      simp only [step, hs', ok_bind]
      rfl
  | server junk e =>
      have hok := hserver.localOk hlocal
      obtain ⟨d', hstep, hphase'⟩ := hphase.step (e := .server e) ⟨hA, hB, hok⟩
      obtain ⟨t', ht', hd'⟩ := bind_eq_ok.mp hstep
      cases hd'
      obtain ⟨s', hs', hcarries⟩ := hserver.event junk (offersMss_of_localOk hok) ht'
      refine ⟨{ w with server := s' }, [.server e], _, ?_, .single ⟨hA, hB, hok⟩ hstep,
        hclient, hcarries, hphase'⟩
      simp only [step, hs', ok_bind]
      rfl
  -- A handler moves packets down the layers; the block does not see it.
  | clientHandler junk =>
      obtain ⟨s', hs', hcarries⟩ := hclient.handler junk
      refine ⟨{ w with client := s' }, [], d, ?_, .stutter d, hcarries, hserver, hphase⟩
      simp only [step, hs', ok_bind]
      rfl
  | serverHandler junk =>
      obtain ⟨s', hs', hcarries⟩ := hserver.handler junk
      refine ⟨{ w with server := s' }, [], d, ?_, .stutter d, hclient, hcarries, hphase⟩
      simp only [step, hs', ok_bind]
      rfl
  -- Reading a frame is delivering the oldest packet of the channel.
  | toServer junk dev =>
      cases hframe : w.client.frame with
      | none =>
          -- No frame is written yet, though a packet may be inside the layers.
          refine ⟨w, [], d, ?_, .stutter d, hclient, hserver, hphase⟩
          simp only [step, hframe]
      | some bs =>
          obtain ⟨pkt, rest, hmngr, hclient', hup⟩ := hclient.frame hframe
          obtain ⟨chsum, hup⟩ := hup dev
          obtain ⟨d', hstep, hphase'⟩ := hphase.step (e := .toServer) ⟨hA, hB, trivial⟩
          have hstep' := hstep
          simp only [Duplex.step, hmngr] at hstep'
          obtain ⟨t', ht', hd'⟩ := bind_eq_ok.mp hstep'
          cases hd'
          obtain ⟨s', hs', hcarries⟩ :=
            hserver.receive junk hup (hphase.offers_toServer hmngr) ht'
          refine ⟨⟨{ w.client with read := w.client.read + 1 }, s'⟩, [.toServer], _, ?_,
            .single ⟨hA, hB, trivial⟩ hstep, hclient', hcarries, hphase'⟩
          simp only [step, hframe, hs', ok_bind]
          rfl
  | toClient junk dev =>
      cases hframe : w.server.frame with
      | none =>
          refine ⟨w, [], d, ?_, .stutter d, hclient, hserver, hphase⟩
          simp only [step, hframe]
      | some bs =>
          obtain ⟨pkt, rest, hmngr, hserver', hup⟩ := hserver.frame hframe
          obtain ⟨chsum, hup⟩ := hup dev
          obtain ⟨d', hstep, hphase'⟩ := hphase.step (e := .toClient) ⟨hA, hB, trivial⟩
          have hstep' := hstep
          simp only [Duplex.step, hmngr] at hstep'
          obtain ⟨t', ht', hd'⟩ := bind_eq_ok.mp hstep'
          cases hd'
          obtain ⟨s', hs', hcarries⟩ :=
            hclient.receive junk hup (hphase.offers_toClient hmngr) ht'
          refine ⟨⟨s', { w.server with read := w.server.read + 1 }⟩, [.toClient], _, ?_,
            .single ⟨hA, hB, trivial⟩ hstep, hcarries, hserver', hphase'⟩
          simp only [step, hframe, hs', ok_bind]
          rfl

/-- **The start** of the hosts is a start of the blocks: the client's SYN is on
its way.  In the hosts it is in the queue of `tcb_manager`. -/
theorem Connecting.abstracts (h : Connecting cfg isnA w) (isnB : BitVec 32) :
    ∃ d, Duplex.Connecting isnA d ∧ Abstracts cfg isnA isnB w d := by
  obtain ⟨junkSend, junkSend', junkRcv, junkRcv', hmss, hreach, hreach', junk, hconnect, hstack⟩ := h
  have hstart : Duplex.Connecting isnA ⟨_, Tcb.create cfg.clientEp cfg.serverEp .listen .listen
    junkSend' junkRcv'⟩ := .mk _ _ _ _ junkSend _ junkRcv _ hconnect
  refine ⟨_, hstart, ?_, ?_, hstart.phase isnB⟩
  · rw [Tcb.startConnecting_eq] at hconnect
    cases hconnect
    have hpkts : ∀ pkt ∈ [(Tcb.create cfg.serverEp cfg.clientEp .connecting .connecting junkSend
        junkRcv).synOut isnA], Portable cfg.serverEp cfg.clientEp pkt := by
      intro pkt hpkt
      rw [List.mem_singleton.mp hpkt]
      exact Tcb.portable_synOut (t := Tcb.create cfg.serverEp cfg.clientEp .connecting .connecting
        junkSend junkRcv) rfl rfl isnA
    obtain ⟨stack', raws, hrun, hpipe, hemitted, hholds, -⟩ :=
      Station.enqueueAll_eq hreach junk hpkts 0 Netns.Pipelined.create
    obtain rfl := Except.ok.inj (hstack.symm.trans hrun)
    refine ⟨rfl, ⟨rfl, rfl, .inl hmss, hpkts⟩, hreach, hpipe, [], rfl, ?_⟩
    rw [hemitted]
    exact hholds
  · exact ⟨rfl, ⟨rfl, rfl, .inr ⟨rfl, rfl⟩, nofun⟩, hreach', Netns.Pipelined.create, [], rfl, .nil⟩

/-! ## A run

The smallest exchange that shows both directions of the machinery. -/

/-- Host 2 connects to port 80 of host 7, through a gateway that both of them
know. -/
def hosts : Config where
  neighs := Netns.resolvedGateway
  rt := ⟨fun _ => none, some ⟨9, 2, 0⟩⟩
  neighs' := fun addr => if addr = 7 then some 0x0C else if addr = 9 then some 0x0B else none
  rt' := ⟨fun _ => none, some ⟨9, 7, 0⟩⟩
  clientEp := ⟨2, 1024⟩
  serverEp := ⟨7, 80⟩

/-- `n` packets of the client go down its five layers. -/
def down (n : ℕ) : List Event := List.replicate (5 * n) (.clientHandler fun _ => 0)

/-- The handshake, and two bytes: the client writes in its connection callback,
and the server reads in its own.  The acknowledgement of the SYN and the two
bytes go down side by side. -/
def exchange : List Event :=
  down 1 ++ [.toServer (fun _ _ => 0) 0] ++ List.replicate 5 (.serverHandler fun _ => 0) ++
    [.toClient (fun _ _ => 0) 0, .client (fun _ _ => 0) (.task 0 [.write [0x61, 0x62] 1]),
      .client (fun _ _ => 0) (.task 0 [])] ++ down 2 ++
    [.toServer (fun _ _ => 0) 0, .server (fun _ _ => 0) (.task 0 [.read 16 2]),
      .toServer (fun _ _ => 0) 0]

/-- The client of `hosts`, with the number 7 and a send MSS of 4, has
connected; the server listens. -/
def opening : Wire :=
  let client := (Tcb.create hosts.serverEp hosts.clientEp .connecting .connecting
    { (default : SendState) with mss := 4 } default).afterConnect 7
  let stack := Netns.create hosts.neighs hosts.rt
  ⟨⟨{ client with mngr := [] },
      (Station.enqueueAll (fun _ _ => 0) 0 client.mngr stack).toOption.getD stack, 0⟩,
    ⟨Tcb.create hosts.clientEp hosts.serverEp .listen .listen default default,
      Netns.create hosts.neighs' hosts.rt', 0⟩⟩

theorem connecting_opening : Connecting hosts 7 opening :=
  .mk { (default : SendState) with mss := 4 } default default default (by decide)
    ⟨⟨9, 2, 0⟩, 0x0A, 0x0B, rfl, rfl, rfl⟩ ⟨⟨9, 7, 0⟩, 0x0C, 0x0B, rfl, rfl, rfl⟩ (fun _ _ => 0)
    (Tcb.startConnecting_eq _ 7) rfl

/-- Every event of the exchange is admissible where it happens. -/
theorem exchange_admitted : Admitted (step 9) EventOk opening exchange := by decide +kernel

/-! ## Two levels

What the simulation gives, first as a refinement and then for the streams. -/

/-- **Two stacks refine two blocks.**  For every run of two hosts from a client
that connects with a send MSS of at most 1446 and a server that listens, of
admissible events in any interleaving of calls, handlers and frames: nothing
aborts, in any layer; and there is a run of the two blocks alone, of admissible
events, in which each block is what it is in its host, and whose channels hold
the packets whose frames have not been read. -/
theorem wire_refines_duplex {w₀ : Wire} {es : List Event} (hstart : Connecting cfg isnA w₀)
    (hok : Admitted (step isnB) EventOk w₀ es) :
    ∃ w d₀ fs d, run isnB w₀ es = .ok w ∧ Duplex.Connecting isnA d₀ ∧
      Admitted (Duplex.step isnB) Duplex.EventOk d₀ fs ∧ Duplex.run isnB d₀ fs = .ok d ∧
      w.client.Carries cfg.neighs cfg.rt cfg.serverEp cfg.clientEp d.client ∧
      w.server.Carries cfg.neighs' cfg.rt' cfg.clientEp cfg.serverEp d.server := by
  obtain ⟨d₀, hstart', habstracts⟩ := hstart.abstracts isnB
  obtain ⟨w, fs, d, hrun, ⟨hadm, hrun'⟩, habstracts'⟩ :=
    (wire_simulates cfg isnA isnB).run habstracts hok
  exact ⟨w, d₀, fs, d, hrun, hstart', hadm, hrun', habstracts'.client, habstracts'.server⟩

/-- The two bytes have been read, by the host and by its block alone. -/
theorem exchange_refines : ∃ w d₀ fs d, run 9 opening exchange = .ok w ∧
    Duplex.Connecting 7 d₀ ∧ Duplex.run 9 d₀ fs = .ok d ∧ w.server.tcb.handed = [0x61, 0x62] ∧
    d.server.handed = [0x61, 0x62] := by
  obtain ⟨w, d₀, fs, d, hrun, hstart', -, hrun', -, hserver⟩ :=
    wire_refines_duplex connecting_opening exchange_admitted
  have hhanded : w.server.tcb.handed = [0x61, 0x62] := by
    cases hrun
    rfl
  refine ⟨w, d₀, fs, d, hrun, hstart', hrun', hhanded, ?_⟩
  rw [hserver.block] at hhanded
  exact hhanded

/-- Between the writer at `s` and the reader at `r`: what has been received is
a prefix of what was written, and once the layers are idle and no frame is left
to be read, nothing is missing but what is still in the send queue. -/
def Delivers (s r : Station) : Prop :=
  r.tcb.handed ++ r.tcb.rcv.pq.data <+: s.tcb.written ∧
    (s.stack.ioCtx = [] → s.frame = none →
      r.tcb.handed ++ r.tcb.rcv.pq.data ++ s.tcb.unsent = s.tcb.written)

theorem delivers_of_carries {neighs neighs' : NeighCache} {rt rt' : RoutingTable}
    {peer own peer' own' : Endpoint} {s r : Station} {t u : Tcb}
    (hs : s.Carries neighs rt peer own t) (hr : r.Carries neighs' rt' peer' own' u)
    (h : Tcb.Intact t u) : Delivers s r := by
  rw [Tcb.Intact] at h
  constructor
  · rw [hs.block, hr.block]
    exact ⟨_, (List.append_assoc _ _ _).symm.trans h⟩
  · intro hidle hframe
    rw [hs.mngr_eq_nil hidle hframe] at h
    rw [hs.block, hr.block]
    exact (congrArg (· ++ t.unsent) (List.append_nil _).symm).trans h

/-- **End-to-end stream integrity, in bytes on the wire.**  For every run of
admissible events of two hosts, from a client that connects with a send MSS of
at most 1446 and a server that listens: nothing aborts, in any layer, and in
both directions what the reader has got and what the receiver buffers is a
prefix of what was written, without loss, duplicate or change; once the layers
of the sender are idle and its frames have been read, only what its send queue
still holds is missing. -/
theorem wire_stream_integrity {w₀ : Wire} {es : List Event} (hstart : Connecting cfg isnA w₀)
    (hok : Admitted (step isnB) EventOk w₀ es) :
    ∃ w, run isnB w₀ es = .ok w ∧ Delivers w.client w.server ∧ Delivers w.server w.client := by
  obtain ⟨d₀, -, habstracts⟩ := hstart.abstracts isnB
  obtain ⟨w, -, d, hrun, -, hclient, hserver, hphase⟩ :=
    (wire_simulates cfg isnA isnB).run habstracts hok
  obtain ⟨hout, hback⟩ := hphase.intact
  exact ⟨w, hrun, delivers_of_carries hclient hserver hout, delivers_of_carries hserver hclient hback⟩

/-- Both bytes have arrived, and nothing is on its way. -/
theorem exchange_delivers : ∃ w, run 9 opening exchange = .ok w ∧
    Delivers w.client w.server ∧ w.client.stack.ioCtx = [] ∧ w.client.frame = none ∧
    w.client.tcb.written = [0x61, 0x62] ∧ w.server.tcb.handed = [0x61, 0x62] := by
  obtain ⟨w, hrun, hout, -⟩ := wire_stream_integrity connecting_opening exchange_admitted
  refine ⟨w, hrun, hout, ?_⟩
  cases hrun
  exact ⟨rfl, rfl, rfl, rfl⟩

end Wire

end Mstack
