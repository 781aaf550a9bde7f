import Mstack.Lib.Medium
import Mstack.Net.Upkeep

/-!
# Hosts on a local network

Any number of hosts with their own addresses and routes, on one Ethernet.
`arp` believes everybody: it enters the sender of every request and every
reply, and it answers for every address that it knows.  What then keeps the
caches right is the network as a whole.

`owns` says which addresses have which MAC addresses.  `bindings_hold`: if the
hosts are configured so, and whatever comes from other stations is true, no
host ever learns, uses or tells anything else, whatever the medium loses,
repeats, delays or reorders, and nothing that is on the wire makes a host
abort.

### The medium

A network is hosts that hear each other, with no promise about what arrives:
`Lib.Medium` has it, and `run_truthful` is its rule.  What one host keeps,
given that what it hears is credible, and what it tells is credible, given that
it keeps it, close the circle for all of them.  The induction is over the run
of the whole network; the hosts enter it with two lemmas, `Upkeep.hostStep` and
`Upkeep.credible`.

### What is load-bearing

A frame may be heard if some host has told it, at any time before and to
whomever, or if it is credible (`Heard`).  So the hosts' own frames are *not*
assumed to be true.  That they are is what the proof shows, and it needs the
circle: a host answers for its neighbours from what it has learned from them.

Resets are restricted (`Acts`): a host that forgets the MAC of an address its
own routes start at aborts with its next packet.
-/

namespace Mstack

open EventSystem

namespace Netns

/-- What can happen to a host: an event of its own, or its device reads a
frame. -/
inductive HostEvent where
  | own (e : Event)
  | receive (dev : DeviceId) (bs : List Byte)

/-- Handle one event. -/
def hostStep (s : Netns) : HostEvent → Except NetFault Netns
  | .own e => s.step e
  | .receive dev bs => s.receive dev bs

/-- The frames that have been given to the devices. -/
def wire (s : Netns) : List (List Byte) := s.device.map fun out => out.1.payload

/-- The frame that is read. -/
def HostEvent.hears : HostEvent → Option (List Byte)
  | .own _ => none
  | .receive _ bs => some bs

/-- What a host does by itself: a connection sends a segment, a handler runs,
or an entry is forgotten that no route needs. -/
def Acts (s : Netns) : HostEvent → Prop
  | .own (.enqueue pkt) => pkt.IsSegment
  | .own (.handler _ _) => True
  | .own (.reset addr) => ∀ dst nh, s.rt.nh dst = some nh → nh.fromAddrv4 ≠ addr
  | .own _ => False
  | .receive _ _ => True

/-- A frame that a host can take: it can be read, and its ARP packet is true. -/
structure Credible (owns : Ipv4Addr → MacAddr → Prop) (bs : List Byte) : Prop where
  readable : Readable bs
  truthful : Truthful owns bs

variable {owns : Ipv4Addr → MacAddr → Prop}

/-- What a host tells is credible. -/
theorem Told.credible {subs : List Submission} {bs : List Byte} (h : Told owns subs bs)
    (hholds : ∀ sub ∈ subs, sub.frame.HoldsDatagram) : Credible owns bs := by
  have haccounts := Ledger.accounts_create (fun _ => none) ⟨fun _ => none, none⟩
  cases h with
  | @arp inArp harp hkind htrue =>
      refine ⟨?_, fun h' harp' _ => ?_⟩
      · obtain ⟨eth, padding, hread, hproto⟩ := exists_of_arpOf harp
        refine ⟨eth, _, hread, fun _ => ?_, fun hip => ?_⟩
        · rw [List.length_append, inArp.length_produceToNet]
          exact Nat.le_add_right _ _
        · rw [hproto] at hip
          exact absurd hip (by decide)
      · obtain rfl : inArp = h' := Option.some.inj (harp.symm.trans harp')
        exact htrue
  | @datagram sub mac hsub hmac hbytes =>
      have hsubHolds := hholds sub hsub
      have hframe : ({ sub.frame with dstMacAddr := mac } : EthernetFrame).HoldsDatagram :=
        ⟨hsubHolds.proto, hsubHolds.dev, hsubHolds.room, hsubHolds.bytes⟩
      obtain ⟨hnone, hreceive⟩ := receive_datagram hframe
      rw [hbytes]
      refine ⟨(receive_total_iff haccounts 0 _).mp ⟨_, hreceive _ 0⟩, fun h harp _ => ?_⟩
      rw [hnone] at harp
      cases harp

/-- What is on the wire is credible. -/
theorem Upkeep.credible {s : Netns} (h : s.Upkeep owns) {bs : List Byte} (hbs : bs ∈ s.wire) :
    Credible owns bs := by
  obtain ⟨out, hout, rfl⟩ := List.mem_map.mp hbs
  exact (h.contents.told out (List.mem_append_right _ hout)).credible h.contents.datagrams

/-- **What a host does.**  It never aborts and keeps what it has to keep, if
what it hears can be read and is true. -/
theorem Upkeep.hostStep {s : Netns} {e : HostEvent} (h : s.Upkeep owns) (hacts : s.Acts e)
    (hheard : ∀ bs, e.hears = some bs → Credible owns bs) :
    ∃ s', s.hostStep e = .ok s' ∧ s'.Upkeep owns := by
  cases e with
  | receive dev bs =>
      obtain ⟨hreadable, htruthful⟩ := hheard bs rfl
      obtain ⟨s', hs', -, hupkeep⟩ := h.receive hreadable htruthful dev
      exact ⟨s', hs', hupkeep⟩
  | own e =>
      cases e with
      | enqueue pkt => exact ⟨_, rfl, h.enqueue hacts⟩
      | reset addr => exact ⟨_, rfl, h.reset hacts⟩
      | handler junk i =>
          cases hi : s.ioCtx[i]? with
          | none => exact ⟨s, by simp only [Netns.hostStep, step, hi], h⟩
          | some handler =>
              obtain ⟨s', hs', -, hupkeep⟩ := h.handler hi junk
              exact ⟨s', hs', hupkeep⟩
      | ipv4Process | arpProcess | icmpProcess => exact hacts.elim

/-- **Nobody is misled.**  Take hosts whose own entries are true, each with a
source address in its cache for every route.  Let their connections send
segments, their handlers run in any order, learned entries be forgotten, and
frames arrive in any order, any number of times or never, from each other and
from stations that tell the truth.  No host aborts; every entry of every cache
is true; and every frame on the wire is a true ARP packet, or a datagram for a
MAC address that its next hop has. -/
theorem bindings_hold {ι : Type} [DecidableEq ι] {own : ι → NeighCache} {rt : ι → RoutingTable}
    (hown : ∀ i addr mac, own i addr = some mac → owns addr mac)
    (hsources : ∀ i dst nh, (rt i).nh dst = some nh → own i nh.fromAddrv4 ≠ none)
    {es : List (ι × HostEvent)}
    (hes : Admitted (stepAt hostStep)
      (fun s e => (s e.1).Acts e.2 ∧ Heard wire HostEvent.hears (Credible owns) s e)
      (fun i => create (own i) (rt i)) es) :
    ∃ s, run (stepAt hostStep) (fun i => create (own i) (rt i)) es = .ok s ∧ ∀ i,
      (∀ addr mac, (s i).neighs addr = some mac → owns addr mac) ∧
      ∀ bs ∈ (s i).wire, Told owns (s i).submissions bs := by
  have hkeep (i : ι) (s : Netns) (e : HostEvent) (h : s.Upkeep owns) (hacts : s.Acts e)
      (hheard : ∀ bs, e.hears = some bs → Credible owns bs) := h.hostStep hacts hheard
  obtain ⟨s, hs, hall⟩ := run_truthful hkeep (fun i s h bs hbs => h.credible hbs)
    (fun bs hbs => hbs) (fun i => Upkeep.create (hown i) (hsources i)) hes
  refine ⟨s, hs, fun i => ⟨(hall i).contents.cache, fun bs hbs => ?_⟩⟩
  obtain ⟨out, hout, rfl⟩ := List.mem_map.mp hbs
  exact (hall i).contents.told out (List.mem_append_right _ hout)

/-! ## Two hosts

Host 2 sends a segment to host 9, and asks for its address first. -/

/-- Host 2 and host 9, each with its own MAC address. -/
def ownEntry (i : Bool) : NeighCache :=
  fun addr => if addr = bif i then 9 else 2 then some (bif i then 0x0B else 0x0A) else none

/-- Each sends everything to the other one. -/
def toTheOther (i : Bool) : RoutingTable :=
  ⟨fun _ => none, some (bif i then ⟨2, 9, 0⟩ else ⟨9, 2, 0⟩)⟩

/-- The bindings of the two. -/
def twoOwners (addr : Ipv4Addr) (mac : MacAddr) : Prop :=
  (addr = 2 ∧ mac = 0x0A) ∨ (addr = 9 ∧ mac = 0x0B)

/-- Their configuration is true. -/
theorem ownEntry_true (i : Bool) (addr : Ipv4Addr) (mac : MacAddr)
    (h : ownEntry i addr = some mac) : twoOwners addr mac := by
  unfold ownEntry at h
  cases i <;> split at h <;> simp_all [twoOwners]

/-- And each knows its own end of the route. -/
theorem toTheOther_sources (i : Bool) (dst : Ipv4Addr) (nh : RouteRecord)
    (h : (toTheOther i).nh dst = some nh) : ownEntry i nh.fromAddrv4 ≠ none := by
  cases i <;> cases h <;> decide

/-- The request of host 2. -/
def whoHas9 : List Byte :=
  EthernetHeader.produceToNet ⟨BitVec.allOnes 48, 0x0A, arpPROTO⟩ ++
    (ArpHeader.request 0x0A 2 9).produceToNet

/-- The reply of host 9. -/
def host9Is : List Byte :=
  EthernetHeader.produceToNet ⟨0x0A, 0x0B, arpPROTO⟩ ++ (ArpHeader.reply 0x0B 9 0x0A 2).produceToNet

/-- A handler runs at one of the hosts. -/
def runsAt (i : Bool) : Bool × HostEvent := (i, .own (.handler (fun _ => 0) 0))

/-- Host 2 sends a SYN; it asks for host 9, which answers, and then the SYN is
sent. -/
def synIsSent (pkt : RawTcpPacket) : List (Bool × HostEvent) :=
  [(false, .own (.enqueue pkt)), runsAt false, runsAt false, runsAt false, runsAt false,
    (true, .receive 0 whoHas9), runsAt true, runsAt true,
    (false, .receive 0 host9Is), runsAt false, runsAt false]

/-- The SYN is sent, to the right MAC address, and both hosts have learned the
truth. -/
theorem two_hosts_not_misled :
    ∃ pkt s, synToHost7.serialize (fun _ => 0) = .ok pkt ∧
      run (stepAt hostStep) (fun i => create (ownEntry i) (toTheOther i)) (synIsSent pkt) = .ok s ∧
      (s false).neighs 9 = some 0x0B ∧ (s true).neighs 2 = some 0x0A ∧
      (s false).wire.length = 2 ∧
      ∀ i, (∀ addr mac, (s i).neighs addr = some mac → twoOwners addr mac) ∧
        ∀ bs ∈ (s i).wire, Told twoOwners (s i).submissions bs := by
  obtain ⟨pkt, hpkt⟩ : ∃ pkt, synToHost7.serialize (fun _ => 0) = .ok pkt := ⟨_, rfl⟩
  have hsegment : pkt.IsSegment := ⟨_, _, hpkt, rfl⟩
  have hadm : Admitted (stepAt hostStep)
      (fun s e => (s e.1).Acts e.2 ∧ Heard wire HostEvent.hears (Credible twoOwners) s e)
      (fun i => create (ownEntry i) (toTheOther i)) (synIsSent pkt) := by
    cases hpkt
    refine .cons ⟨hsegment, nofun⟩ rfl ?_
    refine .cons ⟨trivial, nofun⟩ rfl ?_
    refine .cons ⟨trivial, nofun⟩ rfl ?_
    refine .cons ⟨trivial, nofun⟩ rfl ?_
    refine .cons ⟨trivial, nofun⟩ rfl ?_
    refine .cons ⟨trivial, fun m hm => .inr ⟨false, ?_⟩⟩ rfl ?_
    · cases hm
      exact List.mem_of_getElem? (i := 0) rfl
    refine .cons ⟨trivial, nofun⟩ rfl ?_
    refine .cons ⟨trivial, nofun⟩ rfl ?_
    refine .cons ⟨trivial, fun m hm => .inr ⟨true, ?_⟩⟩ rfl ?_
    · cases hm
      exact List.mem_of_getElem? (i := 0) rfl
    refine .cons ⟨trivial, nofun⟩ rfl ?_
    exact .single ⟨trivial, nofun⟩
  obtain ⟨s, hs, hall⟩ := bindings_hold ownEntry_true toTheOther_sources hadm
  refine ⟨pkt, s, hpkt, hs, ?_, ?_, ?_, hall⟩
  all_goals
    cases hpkt
    cases hs
    rfl

end Netns

end Mstack
