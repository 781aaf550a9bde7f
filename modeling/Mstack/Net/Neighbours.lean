import Mstack.Lib.LatestTable
import Mstack.Net.Resolve

/-!
# What the tables remember, and who is answered for

`neigh_cache` and `routing_table` are filled with `insert` and `emplace`, which
leave an entry alone that exists.  So they remember the first update of an
address, not the latest; only the default route, an `std::optional`, is
replaced.

Local addresses and learned neighbours share the cache, and
`arp::process_request` answers for whatever it finds there.  That an entry is
never replaced protects the local addresses; that the two kinds of entry are
not told apart makes the stack answer for its neighbours.

* `ReflectsLatest`, `AllFresh` — after every operation a query answers with the
  latest update; no update changes an entry.  `Lib.LatestTable` shows for any
  table that keeps its first value that the two are the same.
* `Resolves` — what a frame for a host gets as destination.
* `AnswersOwn`, `OwnTarget` — every queued ARP reply is in the name of a
  configured address; a request asks for one, or for an address that nobody has
  told the stack of.
* `tables_reflect_latest_iff`, `answers_own_iff` — **the two results.**

### From the cache to the wire

An ARP frame is read, and what it does is decided by two fields.
`arpProcess_request`, `arpProcess_reply` and `arpProcess_other` are the three
cases, and behind them no proof reads a frame again.  Everything that is not an
ARP frame is `Quiet`: the cache is as it was, and no reply is queued.

### What is load-bearing

`process_request` enters the sender *before* it looks up the target.  A host
that asks for its own address (as some do, to see whether it is taken) is
therefore entered and answered in its own name, and `OwnTarget` has a clause
for it.  The condition is on the cache before the request and on the request
alone; what the stack answers does not occur in it.

Nobody resets the cache while the second result holds: a reset takes a
configured address away, and the next request that names it as its sender takes
its place.
-/

namespace Mstack

open BigEndian EventSystem

/-! ## Histories of the tables

An operation of either table is one of `LatestTable`, and the table is the fold
of its operations. -/

namespace NeighCache

/-- An entry stays. -/
theorem update_of_some {cache : NeighCache} {addr' : Ipv4Addr} {old : MacAddr}
    (h : cache addr' = some old) (addr : Ipv4Addr) (mac : MacAddr) :
    cache.update addr mac addr' = some old := by
  rw [update_apply, if_neg]
  · exact h
  · rintro ⟨-, hmiss⟩
    rw [h] at hmiss
    cases hmiss

/-- One operation of a `neigh_cache`. -/
def apply (cache : NeighCache) : LatestTable.Op Ipv4Addr MacAddr → NeighCache
  | .reset addr => cache.reset addr
  | .update addr mac => cache.update addr mac

/-- The cache keeps its first value, in the terms of the library. -/
theorem apply_eq_keep (cache : NeighCache) (op : LatestTable.Op Ipv4Addr MacAddr) :
    cache.apply op = LatestTable.keepEvent some cache op := by
  cases op with
  | reset addr => rfl
  | update addr mac =>
      simp only [apply, NeighCache.update, LatestTable.keepEvent, LatestTable.keep]
      cases cache addr <;> rfl

/-- After every operation, `query` answers with the latest update. -/
def ReflectsLatest (cache : NeighCache) (ops : List (LatestTable.Op Ipv4Addr MacAddr)) : Prop :=
  ∀ past rest, ops = past ++ rest → ∀ addr,
    (past.foldl apply cache).query addr = LatestTable.latest cache past addr

/-- Every update meets no entry, or one with the same address. -/
def AllFresh (cache : NeighCache) (ops : List (LatestTable.Op Ipv4Addr MacAddr)) : Prop :=
  ∀ past addr mac rest, ops = past ++ .update addr mac :: rest →
    ∀ old, (past.foldl apply cache).query addr = some old → old = mac

/-- **The neighbour cache reflects the latest update exactly if no update
changes an entry.** -/
theorem reflectsLatest_iff (cache : NeighCache)
    (ops : List (LatestTable.Op Ipv4Addr MacAddr)) :
    cache.ReflectsLatest ops ↔ cache.AllFresh ops := by
  have hfold : ∀ past : List (LatestTable.Op Ipv4Addr MacAddr),
      past.foldl apply cache = past.foldl (LatestTable.keepEvent some) cache := by
    intro past
    congr 1
    funext c op
    exact c.apply_eq_keep op
  have hlaw := LatestTable.keep_latest_iff some cache ops
  simp only [List.filterMap_some, ← hfold] at hlaw
  constructor
  · intro h past addr mac rest hops
    have hfresh := hlaw.mp (fun past rest hops => funext (h past rest hops)) past _ rest _ hops rfl
    rwa [← hfold] at hfresh
  · intro h past rest hops addr
    refine congrFun (hlaw.mpr ?_ past rest hops) addr
    intro past e rest op hops hop
    cases hop
    cases e with
    | reset addr => trivial
    | update addr mac =>
        rw [← hfold]
        exact h past addr mac rest hops

end NeighCache

namespace RoutingTable

/-- An operation of a `routing_table`. -/
inductive Op where
  | reset (addr : Ipv4Addr)
  | update (hop : Ipv4Addr) (record : RouteRecord)
  | updateDefault (record : RouteRecord)
  deriving DecidableEq, Repr

/-- What an operation is to `table_`. -/
def Op.tableOp? : Op → Option (LatestTable.Op Ipv4Addr RouteRecord)
  | .reset addr => some (.reset addr)
  | .update hop record => some (.update hop record)
  | .updateDefault _ => none

/-- What an operation is to `default_`. -/
def Op.default? : Op → Option RouteRecord
  | .updateDefault record => some record
  | _ => none

/-- One operation of a `routing_table`. -/
def apply (rt : RoutingTable) : Op → RoutingTable
  | .reset addr => rt.reset addr
  | .update hop record => rt.update hop record
  | .updateDefault record => rt.updateDefault record

/-- So does the routing table. -/
theorem apply_table (rt : RoutingTable) (op : Op) :
    (rt.apply op).table = LatestTable.keepEvent Op.tableOp? rt.table op := by
  cases op with
  | reset addr => rfl
  | updateDefault record => rfl
  | update hop record =>
      simp only [apply, RoutingTable.update, LatestTable.keepEvent, Op.tableOp?, LatestTable.keep]
      cases rt.table hop <;> rfl

/-- The table after a history of operations, of which it sees those that are
its own. -/
theorem foldl_apply_table (rt : RoutingTable) (ops : List Op) :
    (ops.foldl apply rt).table = ops.foldl (LatestTable.keepEvent Op.tableOp?) rt.table := by
  induction ops generalizing rt with
  | nil => rfl
  | cons op ops ih => rw [List.foldl_cons, ih, apply_table, List.foldl_cons]

/-- The default route is the latest one. -/
theorem foldl_apply_default (rt : RoutingTable) (ops : List Op) :
    (ops.foldl apply rt).queryDefault = (ops.filterMap Op.default?).getLast?.or rt.default := by
  induction ops using List.reverseRecOn with
  | nil => rfl
  | append_singleton ops op ih =>
      rw [List.foldl_concat, List.filterMap_append]
      cases op with
      | updateDefault record => simp [apply, updateDefault, queryDefault, Op.default?]
      | reset addr => simpa [apply, reset, queryDefault, Op.default?] using ih
      | update hop record =>
          rw [← List.append_nil (ops.filterMap Op.default?)] at ih
          refine Eq.trans ?_ ih
          simp only [apply, RoutingTable.update, queryDefault]
          split <;> rfl

/-- After every operation, `query` answers with the latest update and
`query_default` with the latest default. -/
def ReflectsLatest (rt : RoutingTable) (ops : List Op) : Prop :=
  ∀ past rest, ops = past ++ rest →
    (∀ addr, (past.foldl apply rt).query addr
      = LatestTable.latest rt.table (past.filterMap Op.tableOp?) addr) ∧
    (past.foldl apply rt).queryDefault = (past.filterMap Op.default?).getLast?.or rt.default

/-- Every update meets no entry, or one with the same record. -/
def AllFresh (rt : RoutingTable) (ops : List Op) : Prop :=
  ∀ past hop record rest, ops = past ++ .update hop record :: rest →
    ∀ old, (past.foldl apply rt).query hop = some old → old = record

/-- **The routing table reflects the latest update exactly if no update changes
an entry.** -/
theorem reflectsLatest_iff (rt : RoutingTable) (ops : List Op) :
    rt.ReflectsLatest ops ↔ rt.AllFresh ops := by
  have hlaw := LatestTable.keep_latest_iff Op.tableOp? rt.table ops
  simp only [← foldl_apply_table] at hlaw
  constructor
  · intro h past hop record rest hops
    have hfresh := hlaw.mp (fun past rest hops => funext (h past rest hops).1) past _ rest _ hops rfl
    rwa [← foldl_apply_table] at hfresh
  · intro h past rest hops
    refine ⟨fun addr => congrFun (hlaw.mpr ?_ past rest hops) addr, foldl_apply_default rt past⟩
    intro past e rest op hops hop
    rw [← foldl_apply_table]
    cases e with
    | reset addr => cases hop; trivial
    | update addr record => cases hop; exact h past addr record rest hops
    | updateDefault record => cases hop

end RoutingTable

/-! ## What ARP does with the cache

The same, for an entry that an ARP packet has made or has not. -/

namespace ArpHeader

/-- A request for the address of an IPv4 host. -/
def IsRequest (h : ArpHeader) : Prop := h.htype = 0x0001 ∧ h.ptype = 0x0800 ∧ h.oper = 0x0001

/-- The answer to such a request. -/
def IsReply (h : ArpHeader) : Prop := h.htype = 0x0001 ∧ h.ptype = 0x0800 ∧ h.oper = 0x0002

end ArpHeader

namespace Netns

/-- The frame carries an ARP packet. -/
def Carries (frame : EthernetFrame) (h : ArpHeader) : Prop :=
  ∃ rest, ArpHeader.consumeFromNet frame.skb.payload = some (h, rest)

/-- A frame carries one packet. -/
theorem Carries.unique {frame : EthernetFrame} {h h' : ArpHeader} (hcarries : Carries frame h)
    (hcarries' : Carries frame h') : h = h' := by
  obtain ⟨rest, hread⟩ := hcarries
  obtain ⟨rest', hread'⟩ := hcarries'
  rw [hread] at hread'
  exact (Prod.mk.inj (Option.some.inj hread')).1

/-- A header written to the head of a buffer is carried. -/
theorem carries_of_write {frame : EthernetFrame} {skb : Skbuff} {h : ArpHeader}
    (hwrite : skb.write 0 h.produceToNet = .ok frame.skb) : Carries frame h := by
  unfold Skbuff.write at hwrite
  split at hwrite
  · rw [Carries, ← Except.ok.inj hwrite]
    exact ⟨_, h.consume_produce _⟩
  · cases hwrite

/-- A frame that holds a request is processed as one. -/
theorem arpProcess_request {frame : EthernetFrame} {inArp : ArpHeader} {rest : List Byte}
    (s : Netns) (hread : ArpHeader.consumeFromNet frame.skb.payload = some (inArp, rest))
    (hrequest : inArp.IsRequest) :
    ∃ skb, s.arpProcess frame = s.processRequest inArp { frame with skb } := by
  have hpop := Skbuff.popFront_of_le (ArpHeader.fixed_consumeFromNet.of_eq_some hread).1
  refine ⟨⟨frame.skb.front ++ frame.skb.payload.take ArpHeader.size,
    frame.skb.payload.drop ArpHeader.size, frame.skb.back⟩, ?_⟩
  simp only [arpProcess]
  rw [consume_eq hread, ok_bind, hpop, ok_bind,
    if_pos ⟨hrequest.1.symm, hrequest.2.1.symm⟩, if_pos hrequest.2.2]

/-- Any other frame is ignored. -/
theorem arpProcess_other {frame : EthernetFrame} {inArp : ArpHeader} {rest : List Byte}
    (s : Netns) (hread : ArpHeader.consumeFromNet frame.skb.payload = some (inArp, rest))
    (hrequest : ¬ inArp.IsRequest) (hreply : ¬ inArp.IsReply) : s.arpProcess frame = .ok s := by
  have hpop := Skbuff.popFront_of_le (ArpHeader.fixed_consumeFromNet.of_eq_some hread).1
  simp only [arpProcess]
  rw [consume_eq hread, ok_bind, hpop, ok_bind]
  split
  · rename_i htypes
    rw [if_neg fun hoper => hrequest ⟨htypes.1.symm, htypes.2.symm, hoper⟩,
      if_neg fun hoper => hreply ⟨htypes.1.symm, htypes.2.symm, hoper⟩]
    rfl
  · rfl

/-- Calling the slots of a signal touches neither the cache nor the queue of
ARP. -/
theorem onReply_arp {s s' : Netns} {mac : MacAddr} {slots : List ℕ}
    (h : s.onReply mac slots = .ok s') : s'.neighs = s.neighs ∧ s'.arpQueue = s.arpQueue := by
  induction slots generalizing s with
  | nil => cases h; exact ⟨rfl, rfl⟩
  | cons w slots ih =>
      obtain ⟨t, ht, hrest⟩ := bind_eq_ok.mp h
      unfold onResolved at ht
      split at ht
      · cases ht
      · cases ht
        obtain ⟨hneighs, hqueue⟩ := ih hrest
        exact ⟨hneighs, hqueue⟩

/-- Learning queues nothing. -/
theorem arpUpdate_arpQueue (s : Netns) (mac : MacAddr) (addr : Ipv4Addr) :
    (s.arpUpdate mac addr).arpQueue = s.arpQueue := by
  unfold arpUpdate
  split <;> rfl

/-- An update of ARP keeps every entry that exists. -/
theorem arpUpdate_keeps {s : Netns} {addr' : Ipv4Addr} {old : MacAddr}
    (h : s.neighs addr' = some old) (mac : MacAddr) (addr : Ipv4Addr) :
    (s.arpUpdate mac addr).neighs addr' = some old := by
  unfold arpUpdate
  split
  · exact h
  · exact NeighCache.update_of_some h addr mac

/-- **A request**: the sender is entered, and the target is answered for if it
is in the cache. -/
theorem processRequest_arp {s s' : Netns} {inArp : ArpHeader} {frame : EthernetFrame}
    (h : s.processRequest inArp frame = .ok s') :
    s'.neighs = (s.arpUpdate inArp.sha inArp.spa).neighs ∧
      match (s.arpUpdate inArp.sha inArp.spa).neighs.query inArp.tpa with
      | none => s'.arpQueue = s.arpQueue
      | some mac => ∃ out, s'.arpQueue = s.arpQueue ++ [out] ∧
          Carries out ⟨0x0001, 0x0800, 0x06, 0x04, 0x0002, mac, inArp.tpa, inArp.sha, inArp.spa⟩ := by
  have hqueue := s.arpUpdate_arpQueue inArp.sha inArp.spa
  simp only [processRequest] at h
  cases hquery : (s.arpUpdate inArp.sha inArp.spa).neighs.query inArp.tpa with
  | none =>
      rw [hquery] at h
      cases h
      exact ⟨rfl, hqueue⟩
  | some mac =>
      rw [hquery] at h
      obtain ⟨skb, -, h⟩ := bind_eq_ok.mp h
      obtain ⟨skb', hwrite, h⟩ := bind_eq_ok.mp h
      cases h
      have hout : Carries ⟨mac, inArp.sha, arpPROTO, skb', frame.dev⟩ _ := carries_of_write hwrite
      refine ⟨rfl, _, ?_, hout⟩
      rw [← hqueue]
      rfl

/-- **A reply**: the sender is entered. -/
theorem processReply_arp {s s' : Netns} {inArp : ArpHeader} (h : s.processReply inArp = .ok s') :
    s'.neighs = (s.arpUpdate inArp.sha inArp.spa).neighs ∧ s'.arpQueue = s.arpQueue := by
  obtain ⟨hneighs, hqueue⟩ := onReply_arp h
  exact ⟨hneighs, hqueue.trans (s.arpUpdate_arpQueue _ _)⟩

/-- Frames for `host` get `mac` as destination. -/
def Resolves (s : Netns) (host : Ipv4Addr) (mac : MacAddr) : Prop :=
  ∀ junk fromMac fromIpv4 dev cb,
    s.asyncResolve junk fromMac fromIpv4 host dev cb = .ok (s.post (.resolve cb mac))

/-- A cached host is reached by the address in the cache. -/
theorem resolves_of_query {s : Netns} {host : Ipv4Addr} {mac mac' : MacAddr}
    (h : s.neighs.query host = some mac) : s.Resolves host mac' ↔ mac = mac' := by
  constructor
  · intro hresolves
    have hpost := hresolves (fun _ => 0) 0 0 0 0
    rw [asyncResolve, h] at hpost
    have hioCtx := congrArg ioCtx (Except.ok.inj hpost)
    have hlast := List.append_cancel_left hioCtx
    simpa using hlast
  · rintro rfl junk fromMac fromIpv4 dev cb
    rw [asyncResolve, h]

/-- **A host that is heard of is known by its new address exactly if it was not
known by another one.**  Requests and replies enter their sender the same way,
with an `insert` that keeps what is there. -/
theorem arp_resolves_iff {s s' : Netns} {frame : EthernetFrame} {inArp : ArpHeader}
    (hcarries : Carries frame inArp) (hkind : inArp.IsRequest ∨ inArp.IsReply)
    (hvalid : inArp.sha.isBroadcast = false ∧ inArp.sha.isZero = false)
    (h : s.arpProcess frame = .ok s') :
    s'.Resolves inArp.spa inArp.sha ↔
      ∀ old, s.neighs.query inArp.spa = some old → old = inArp.sha := by
  obtain ⟨rest, hread⟩ := hcarries
  have hneighs : s'.neighs = (s.arpUpdate inArp.sha inArp.spa).neighs := by
    rcases hkind with hrequest | ⟨htype, hptype, hoper⟩
    · obtain ⟨skb, hprocess⟩ := s.arpProcess_request hread hrequest
      exact (processRequest_arp (hprocess ▸ h)).1
    · rw [s.arpProcess_reply hread htype hptype hoper] at h
      exact (processReply_arp h).1
  have hupdate : (s.arpUpdate inArp.sha inArp.spa).neighs
      = s.neighs.update inArp.spa inArp.sha := by
    rw [arpUpdate, hvalid.1, hvalid.2]
    rfl
  rw [hupdate] at hneighs
  cases hold : s.neighs.query inArp.spa with
  | none =>
      have hnew : s'.neighs.query inArp.spa = some inArp.sha := by
        rw [hneighs, NeighCache.query, NeighCache.update, show s.neighs inArp.spa = none from hold]
        exact Function.update_self _ _ _
      exact iff_of_true ((resolves_of_query hnew).mpr rfl) (by simp)
  | some old =>
      have hkept : s'.neighs.query inArp.spa = some old := by
        rw [hneighs]
        exact NeighCache.update_of_some hold _ _
      rw [resolves_of_query hkept]
      exact ⟨fun heq old' hold' => (Option.some.inj hold') ▸ heq, fun hall => hall old rfl⟩

/-! ## Who is answered for

Replies are counted where they are queued, since none of them is ever taken
back. -/

/-- The cache has the configured entries. -/
def Configured (own : NeighCache) (s : Netns) : Prop :=
  ∀ addr mac, own addr = some mac → s.neighs addr = some mac

/-- Every reply that waits for `ethernetv2` is in the name of a configured
address, with the MAC configured for it. -/
def AnswersOwn (own : NeighCache) (s : Netns) : Prop :=
  ∀ out ∈ s.arpQueue, ∀ h, Carries out h → h.IsReply → own h.spa = some h.sha

/-- A request asks for a configured address, or for one that nobody has told
the stack of: it is not in the cache, and it is not the sender's own, unless
the sender is not entered because its MAC is the broadcast address or zero. -/
def OwnTarget (own : NeighCache) (s : Netns) : Event → Prop
  | .arpProcess frame => ∀ inArp, Carries frame inArp → inArp.IsRequest →
      own inArp.tpa ≠ none ∨ (s.neighs inArp.tpa = none ∧
        (inArp.tpa = inArp.spa → inArp.sha.isBroadcast = true ∨ inArp.sha.isZero = true))
  | _ => True

/-- What `process_request` finds for the target is what was there, or the
sender it has just entered. -/
theorem arpUpdate_query_eq_none_iff (s : Netns) (sha : MacAddr) (spa tpa : Ipv4Addr) :
    (s.arpUpdate sha spa).neighs.query tpa = none ↔
      s.neighs tpa = none ∧ (tpa = spa → sha.isBroadcast = true ∨ sha.isZero = true) := by
  unfold arpUpdate
  by_cases hmac : (sha.isBroadcast || sha.isZero) = true
  · rw [if_pos hmac]
    exact (and_iff_left fun _ => Bool.or_eq_true_iff.mp hmac).symm
  · rw [if_neg hmac]
    show s.neighs.update spa sha tpa = none ↔ _
    rw [NeighCache.update_apply]
    rw [Bool.or_eq_true_iff] at hmac
    by_cases htpa : tpa = spa
    · cases hold : s.neighs spa <;> simp [htpa, hmac, hold]
    · simp [htpa]

/-- What is left of the cache and the queue by anything but an ARP frame: no
new entry, and no new reply. -/
structure Quiet (s s' : Netns) : Prop where
  neighs_eq : s'.neighs = s.neighs
  no_reply : ∀ out ∈ s'.arpQueue, out ∈ s.arpQueue ∨ ∃ h, Carries out h ∧ ¬ h.IsReply

/-- Nothing has happened. -/
theorem Quiet.of_eq {s s' : Netns} (hneighs : s'.neighs = s.neighs)
    (hqueue : s'.arpQueue = s.arpQueue) : Quiet s s' where
  neighs_eq := hneighs
  no_reply _ hout := .inl (hqueue ▸ hout)

/-- A request of our own is not a reply. -/
theorem asyncResolve_quiet {s s' : Netns} {junk : ℕ → Byte} {fromMac : MacAddr}
    {fromIpv4 toIpv4 : Ipv4Addr} {dev : DeviceId} {cb : ℕ}
    (h : s.asyncResolve junk fromMac fromIpv4 toIpv4 dev cb = .ok s') : Quiet s s' := by
  unfold asyncResolve at h
  split at h
  · cases h
    exact .of_eq rfl rfl
  · obtain ⟨skb, hwrite, h⟩ := bind_eq_ok.mp h
    cases h
    refine ⟨rfl, fun out hout => ?_⟩
    rcases List.mem_append.mp hout with hold | hnew
    · exact .inl hold
    · obtain rfl := List.mem_singleton.mp hnew
      refine .inr ⟨_, carries_of_write hwrite, fun hreply => ?_⟩
      have hoper : (0x0001 : BitVec 16) = 0x0002 := hreply.2.2
      revert hoper
      decide

/-- Sending a packet teaches nothing. -/
theorem ipv4Process_quiet {s s' : Netns} {junk : ℕ → Byte} {pkt : Ipv4Packet}
    (h : s.ipv4Process junk pkt = .ok s') : Quiet s s' := by
  obtain ⟨skb, -, h⟩ := bind_eq_ok.mp h
  dsimp only at h
  split at h
  · cases h
    exact .of_eq rfl rfl
  · split at h
    · cases h
    · obtain ⟨hneighs, hqueue⟩ := asyncResolve_quiet h
      exact ⟨hneighs, hqueue⟩

/-- Nor does a handler. -/
theorem runHandler_quiet {s s' : Netns} {junk : ℕ → Byte} {h : Handler}
    (hrun : s.runHandler junk h = .ok s') : Quiet s s' := by
  cases h with
  | tcp | icmp =>
      obtain ⟨⟨pkt, rest⟩, -, hrun⟩ := bind_eq_ok.mp hrun
      obtain ⟨hneighs, hqueue⟩ := ipv4Process_quiet hrun
      exact ⟨hneighs, hqueue⟩
  | arp =>
      obtain ⟨⟨frame, rest⟩, hpop, hrun⟩ := bind_eq_ok.mp hrun
      obtain ⟨out, -, hrun⟩ := bind_eq_ok.mp hrun
      cases hrun
      refine ⟨rfl, fun out hout => .inl ?_⟩
      cases hqueue : s.arpQueue with
      | nil => rw [hqueue] at hpop; cases hpop
      | cons front queue =>
          rw [hqueue] at hpop
          cases hpop
          exact List.mem_cons_of_mem _ hout
  | ethernetv2 =>
      obtain ⟨⟨out, rest⟩, -, hrun⟩ := bind_eq_ok.mp hrun
      cases hrun
      exact .of_eq rfl rfl
  | tcbManager | ipv4 =>
      obtain ⟨⟨pkt, rest⟩, -, hrun⟩ := bind_eq_ok.mp hrun
      obtain ⟨out, -, hrun⟩ := bind_eq_ok.mp hrun
      cases hrun
      exact .of_eq rfl rfl
  | resolve w mac =>
      change s.onResolved w mac = .ok s' at hrun
      unfold onResolved at hrun
      split at hrun
      · cases hrun
      · cases hrun
        exact .of_eq rfl rfl

/-- The configured entries are still there. -/
theorem Quiet.configured {own : NeighCache} {s s' : Netns} (h : Quiet s s')
    (hown : s.Configured own) : s'.Configured own := by
  rw [Configured, h.neighs_eq]
  exact hown

/-- And there is no new reply to be in anybody's name. -/
theorem Quiet.answersOwn {own : NeighCache} {s s' : Netns} (h : Quiet s s')
    (hanswers : s.AnswersOwn own) : s'.AnswersOwn own := by
  intro out hout h' hcarries hreply
  rcases h.no_reply out hout with hold | ⟨h'', hcarries', hno⟩
  · exact hanswers out hold h' hcarries hreply
  · exact absurd (hcarries.unique hcarries' ▸ hreply) hno

/-- What is queued decides. -/
theorem AnswersOwn.of_queue {own : NeighCache} {s s' : Netns} (h : s.AnswersOwn own)
    (hqueue : s'.arpQueue = s.arpQueue) : s'.AnswersOwn own := by
  rw [AnswersOwn, hqueue]
  exact h

/-- One more reply. -/
theorem AnswersOwn.concat_iff {own : NeighCache} {s s' : Netns} {out : EthernetFrame}
    {reply : ArpHeader} (h : s.AnswersOwn own) (hqueue : s'.arpQueue = s.arpQueue ++ [out])
    (hcarries : Carries out reply) (hreply : reply.IsReply) :
    s'.AnswersOwn own ↔ own reply.spa = some reply.sha := by
  rw [AnswersOwn, hqueue]
  constructor
  · intro hall
    exact hall out (List.mem_append_right _ List.mem_cons_self) reply hcarries hreply
  · intro hlocal out' hout' reply' hcarries' hreply'
    rcases List.mem_append.mp hout' with hold | hnew
    · exact h out' hold reply' hcarries' hreply'
    · obtain rfl := List.mem_singleton.mp hnew
      rw [← hcarries.unique hcarries']
      exact hlocal

/-- Everything but ARP frames and resets is quiet. -/
theorem step_quiet {s s' : Netns} {e : Event} (hframe : ∀ frame, e ≠ .arpProcess frame)
    (hreset : ∀ addr, e ≠ .reset addr) (h : step s e = .ok s') : Quiet s s' := by
  cases e with
  | enqueue pkt => cases h; exact .of_eq rfl rfl
  | ipv4Process junk pkt => exact ipv4Process_quiet h
  | arpProcess frame => exact absurd rfl (hframe frame)
  | reset addr => exact absurd rfl (hreset addr)
  | icmpProcess pkt =>
      obtain ⟨reply, -, h⟩ := bind_eq_ok.mp h
      cases reply <;> cases h <;> exact .of_eq rfl rfl
  | handler junk i =>
      simp only [step] at h
      split at h
      · cases h
        exact .of_eq rfl rfl
      · obtain ⟨hneighs, hqueue⟩ := runHandler_quiet h
        exact ⟨hneighs, hqueue⟩

/-- A frame that ARP processes carries an ARP packet. -/
theorem carries_of_arpProcess {s s' : Netns} {frame : EthernetFrame}
    (h : s.arpProcess frame = .ok s') : ∃ inArp, Carries frame inArp := by
  obtain ⟨inArp, hconsume, -⟩ := bind_eq_ok.mp h
  unfold consume at hconsume
  split at hconsume
  · cases hconsume
  · rename_i h' rest hread
    exact ⟨_, rest, hread⟩

/-- **One ARP frame**: the configured entries stay, and the queue stays free of
replies for others if and only if the frame asks for a configured address or
goes unanswered. -/
theorem arpProcess_answersOwn {own : NeighCache} {s s' : Netns} {frame : EthernetFrame}
    (hown : s.Configured own) (h : s.arpProcess frame = .ok s') :
    s'.Configured own ∧ (s.AnswersOwn own →
      (s'.AnswersOwn own ↔ OwnTarget own s (.arpProcess frame))) := by
  obtain ⟨inArp, rest, hread⟩ := carries_of_arpProcess h
  have hcarries : Carries frame inArp := ⟨rest, hread⟩
  have hkeeps : (s.arpUpdate inArp.sha inArp.spa).Configured own :=
    fun addr mac haddr => arpUpdate_keeps (hown addr mac haddr) _ _
  by_cases hrequest : inArp.IsRequest
  · obtain ⟨skb, hprocess⟩ := s.arpProcess_request hread hrequest
    obtain ⟨hneighs, hqueue⟩ := processRequest_arp (hprocess ▸ h)
    refine ⟨by rw [Configured, hneighs]; exact hkeeps, fun hanswers => ?_⟩
    have htarget : OwnTarget own s (.arpProcess frame) ↔
        ((s.arpUpdate inArp.sha inArp.spa).neighs.query inArp.tpa ≠ none →
          own inArp.tpa ≠ none) := by
      have hquery := s.arpUpdate_query_eq_none_iff inArp.sha inArp.spa inArp.tpa
      rw [not_imp_not, hquery, imp_iff_not_or]
      exact ⟨fun htarget => htarget inArp hcarries hrequest,
        fun htarget inArp' hcarries' _ => hcarries.unique hcarries' ▸ htarget⟩
    rw [htarget]
    cases hquery : (s.arpUpdate inArp.sha inArp.spa).neighs.query inArp.tpa with
    | none =>
        rw [hquery] at hqueue
        exact iff_of_true (hanswers.of_queue hqueue) nofun
    | some mac =>
        rw [hquery] at hqueue
        obtain ⟨out, hqueue, hout⟩ := hqueue
        rw [hanswers.concat_iff hqueue hout ⟨rfl, rfl, rfl⟩]
        -- The cache still has the configured MAC for a configured target.
        constructor
        · intro hlocal _ hnone
          rw [hlocal] at hnone
          cases hnone
        · intro htarget
          obtain ⟨mac', hmac'⟩ := Option.ne_none_iff_exists'.mp (htarget nofun)
          rw [hmac', ← hkeeps _ _ hmac']
          exact hquery
  · refine (?_ : s'.Configured own ∧ s'.arpQueue = s.arpQueue).imp_right fun hqueue hanswers => ?_
    · by_cases hreply : inArp.IsReply
      · rw [s.arpProcess_reply hread hreply.1 hreply.2.1 hreply.2.2] at h
        obtain ⟨hneighs, hqueue⟩ := processReply_arp h
        exact ⟨by rw [Configured, hneighs]; exact hkeeps, hqueue⟩
      · rw [s.arpProcess_other hread hrequest hreply] at h
        cases h
        exact ⟨hown, rfl⟩
    · refine iff_of_true (hanswers.of_queue hqueue) fun inArp' hcarries' hrequest' => ?_
      exact absurd (hcarries.unique hcarries' ▸ hrequest') hrequest

/-- **The stack answers ARP only for its own addresses exactly if nobody asks
it for another one it has learned.**  Start from a cache that holds the
configured entries.  Whatever ARP frames arrive, packets go out and handlers
run, every reply that is ever queued is in the name of a configured address
with its MAC, if and only if every request that is processed asks for a
configured address, or for one that is neither in the cache nor the sender's
own. -/
theorem answers_own_iff {own : NeighCache} {rt : RoutingTable} {es : List Event} {s : Netns}
    (hreset : ∀ addr, .reset addr ∉ es) (hrun : run step (create own rt) es = .ok s) :
    (∀ past rest t, es = past ++ rest → run step (create own rt) past = .ok t →
      t.AnswersOwn own) ↔ Admitted step (OwnTarget own) (create own rt) es := by
  have hadm : Admitted step (fun _ e => ∀ addr, e ≠ .reset addr) (create own rt) es := by
    refine admitted_of_mem ?_ _
    rintro e he _ addr rfl
    exact hreset addr he
  refine run_always_iff (J := Configured own) ?_ ?_ (fun _ _ h => h) nofun hadm hrun
  · intro s e s' hown hreset hstep
    by_cases hframe : ∃ frame, e = .arpProcess frame
    · obtain ⟨frame, rfl⟩ := hframe
      exact (arpProcess_answersOwn hown hstep).1
    · exact (step_quiet (fun frame h => hframe ⟨frame, h⟩) hreset hstep).configured hown
  · intro s e s' hown hanswers hreset hstep
    by_cases hframe : ∃ frame, e = .arpProcess frame
    · obtain ⟨frame, rfl⟩ := hframe
      exact (arpProcess_answersOwn hown hstep).2 hanswers
    · have hquiet := step_quiet (fun frame h => hframe ⟨frame, h⟩) hreset hstep
      refine iff_of_true (hquiet.answersOwn hanswers) ?_
      cases e with
      | arpProcess frame => exact absurd ⟨frame, rfl⟩ hframe
      | _ => trivial

/-- An ARP frame from host `spa` with MAC `sha`. -/
def arpFrom (oper : BitVec 16) (sha : MacAddr) (spa tpa : Ipv4Addr) : EthernetFrame where
  srcMacAddr := sha
  dstMacAddr := BitVec.allOnes 48
  proto := arpPROTO
  skb := ⟨List.replicate 14 0, ArpHeader.produceToNet
    { htype := 0x0001, ptype := 0x0800, hlen := 0x06, plen := 0x04, oper
      sha, spa, tha := 0, tpa }, []⟩
  dev := some 0

/-- The frame carries the packet it is made from. -/
theorem arpFrom_carries (oper : BitVec 16) (sha : MacAddr) (spa tpa : Ipv4Addr) :
    Carries (arpFrom oper sha spa tpa) ⟨0x0001, 0x0800, 0x06, 0x04, oper, sha, spa, 0, tpa⟩ :=
  ⟨[], (congrArg ArpHeader.consumeFromNet (List.append_nil _).symm).trans
    (ArpHeader.consume_produce _ [])⟩

/-- Host 7 asks for address 2, which is configured, and host 8 for address 9,
which nobody has. -/
theorem own_answered :
    ∃ s, run step gateway [.arpProcess (arpFrom 1 0x0B 7 2), .arpProcess (arpFrom 1 0x0C 8 9)]
      = .ok s ∧ s.arpQueue.length = 1 ∧
        s.AnswersOwn (fun addr => if addr = 2 then some 0x0A else none) := by
  obtain ⟨s, hrun⟩ : ∃ s, run step gateway
      [.arpProcess (arpFrom 1 0x0B 7 2), .arpProcess (arpFrom 1 0x0C 8 9)] = .ok s := ⟨_, rfl⟩
  refine ⟨s, hrun, by cases hrun; rfl, ?_⟩
  refine (answers_own_iff (by simp) hrun).mpr ?_ _ [] s (List.append_nil _).symm hrun
  refine .cons (fun inArp hcarries _ => .inl ?_) rfl ?_
  · rw [← (arpFrom_carries 1 0x0B 7 2).unique hcarries]
    decide
  · refine .single fun inArp hcarries _ => .inr ?_
    rw [← (arpFrom_carries 1 0x0C 8 9).unique hcarries]
    exact ⟨rfl, by decide⟩

/-- Host 7 asks for our address and is learned; then host 8 asks for host 7,
and is answered in its name. -/
theorem neighbour_answered_for :
    ∃ s, run step gateway [.arpProcess (arpFrom 1 0x0B 7 2), .arpProcess (arpFrom 1 0x0C 8 7)]
      = .ok s ∧ ¬ s.AnswersOwn (fun addr => if addr = 2 then some 0x0A else none) := by
  refine ⟨_, rfl, fun h => ?_⟩
  have hown := h _ (List.mem_append_right _ List.mem_cons_self)
    ⟨0x0001, 0x0800, 0x06, 0x04, 0x0002, 0x0B, 7, 0x0C, 8⟩ ⟨[], rfl⟩ ⟨rfl, rfl, rfl⟩
  revert hown
  decide

/-! ## The latest update

Both tables and the frames, in one statement. -/

/-- **The tables reflect the latest update exactly if no update changes an
entry.**  For every history of a neighbour cache and of a routing table, every
query after every operation answers with the latest update if and only if each
update meets no entry or its own value; and after an ARP packet from a host
with a valid MAC, frames to that host use this MAC under the same condition. -/
theorem tables_reflect_latest_iff (cache : NeighCache)
    (ops : List (LatestTable.Op Ipv4Addr MacAddr))
    (rt : RoutingTable) (rtOps : List RoutingTable.Op) (s s' : Netns) (frame : EthernetFrame)
    (inArp : ArpHeader) :
    (NeighCache.ReflectsLatest cache ops ↔ cache.AllFresh ops) ∧
    (RoutingTable.ReflectsLatest rt rtOps ↔ rt.AllFresh rtOps) ∧
    (Carries frame inArp → inArp.IsRequest ∨ inArp.IsReply →
      inArp.sha.isBroadcast = false ∧ inArp.sha.isZero = false →
      s.arpProcess frame = .ok s' → (s'.Resolves inArp.spa inArp.sha ↔
        ∀ old, s.neighs.query inArp.spa = some old → old = inArp.sha)) :=
  ⟨NeighCache.reflectsLatest_iff cache ops, RoutingTable.reflectsLatest_iff rt rtOps,
    fun hcarries hkind hvalid h => arp_resolves_iff hcarries hkind hvalid h⟩

/-- A new host, and a host that is heard of again with the MAC it had. -/
theorem unchanged_hosts_reflected :
    NeighCache.ReflectsLatest (fun _ => none) [.update 9 0x0B, .update 9 0x0B] ∧
      RoutingTable.ReflectsLatest ⟨fun _ => none, none⟩ [.update 9 ⟨9, 2, 0⟩] ∧
      ∃ s, gateway.arpProcess (arpFrom 2 0x0B 9 2) = .ok s ∧ s.Resolves 9 0x0B := by
  obtain ⟨s, hs⟩ : ∃ s, gateway.arpProcess (arpFrom 2 0x0B 9 2) = .ok s := ⟨_, rfl⟩
  obtain ⟨hcache, hrt, harp⟩ := tables_reflect_latest_iff (fun _ => none)
    [.update 9 0x0B, .update 9 0x0B] ⟨fun _ => none, none⟩ [.update 9 ⟨9, 2, 0⟩] gateway s
    (arpFrom 2 0x0B 9 2) ⟨0x0001, 0x0800, 0x06, 0x04, 0x0002, 0x0B, 9, 0, 2⟩
  have hnone : gateway.neighs.query 9 = none := rfl
  refine ⟨hcache.mpr ?_, hrt.mpr ?_, s, hs, ?_⟩
  · rintro (_ | ⟨op, _ | ⟨op', past⟩⟩) addr mac rest hops old hold
    · cases hold
    · cases hops
      exact (Option.some.inj hold).symm
    · simp at hops
  · rintro (_ | ⟨op, past⟩) hop record rest hops old hold
    · cases hold
    · simp at hops
  · refine (harp (arpFrom_carries 2 0x0B 9 2) (.inr ⟨rfl, rfl, rfl⟩) ⟨rfl, rfl⟩ hs).mpr ?_
    intro old hold
    rw [hnone] at hold
    cases hold

/-- Host 9 comes with a new MAC: cache, routes and frames keep the old one. -/
theorem changed_host_missed :
    ¬ NeighCache.ReflectsLatest (fun _ => none) [.update 9 0x0B, .update 9 0x0C] ∧
      ¬ RoutingTable.ReflectsLatest ⟨fun _ => none, none⟩
        [.update 9 ⟨9, 2, 0⟩, .update 9 ⟨8, 2, 0⟩] ∧
      ∃ s, run step gateway [.arpProcess (arpFrom 2 0x0B 9 2), .arpProcess (arpFrom 2 0x0C 9 2)]
        = .ok s ∧ s.Resolves 9 0x0B ∧ ¬ s.Resolves 9 0x0C := by
  refine ⟨fun h => ?_, fun h => ?_, _, rfl, (resolves_of_query rfl).mpr rfl, fun h => ?_⟩
  · have hquery := h _ [] (List.append_nil _).symm 9
    revert hquery
    decide
  · have hquery := (h _ [] (List.append_nil _).symm).1 9
    revert hquery
    decide
  · have hmac : (0x0B : MacAddr) = 0x0C := (resolves_of_query rfl).mp h
    revert hmac
    decide

end Netns

end Mstack
