import Mstack.Net.Neighbours

/-!
# The MAC addresses IPv4 frames are sent to

`arp::update` keeps the broadcast address and the zero address out of the
cache.  But a MAC reaches an IPv4 frame in two ways: from the cache, with a
posted `resolve` task, and from an ARP reply, which `arp::process_reply` hands
to the waiting callbacks as it came.  The second way has no filter.

* `MacAddr.Usable` — an address that the filter lets through.
* `Filtered` — the invariant of the first way, over the cache and the tasks.
* `ReplyUsable` — a reply that finds packets waiting for its sender comes from
  a usable address.
* `usable_destinations_iff` — no frame goes to an unusable address exactly if
  every reply is `ReplyUsable`.

### What is load-bearing

A reply from an unusable address does no harm while nobody waits for its
sender: the cache refuses it, and the signal is empty.  So the condition is
about the reply *and* the packets that are pending when it is processed, and
`usable_iff_of_leaves` is where the two meet: packets that leave together have
one destination, which shows only if there is a packet.

The configured entries must be usable themselves.  That is a hypothesis, and
the only one.
-/

namespace Mstack

open EventSystem

/-- An address that the filter of `arp::update` lets through. -/
def MacAddr.Usable (mac : MacAddr) : Prop := mac.isBroadcast = false ∧ mac.isZero = false

instance (mac : MacAddr) : Decidable mac.Usable :=
  inferInstanceAs (Decidable (mac.isBroadcast = false ∧ mac.isZero = false))

/-- An entry after an update was there before, or is the update. -/
theorem NeighCache.update_cases {cache : NeighCache} {addr a : Ipv4Addr} {mac m : MacAddr}
    (h : cache.update addr mac a = some m) : cache a = some m ∨ (a = addr ∧ m = mac) := by
  rw [NeighCache.update_apply] at h
  split at h
  · rename_i hfills
    exact .inr ⟨hfills.1, (Option.some.inj h).symm⟩
  · exact .inl h

namespace Ledger

/-- What the cache and the tasks hold has passed the filter. -/
structure Filtered (l : Ledger) : Prop where
  cache : ∀ addr mac, l.neighs addr = some mac → mac.Usable
  tasks : ∀ task ∈ l.tasks, task.2.Usable

/-- Every frame that was enqueued has a destination that passes the filter. -/
def SentUsable (l : Ledger) : Prop := ∀ out ∈ l.enqueued, out.2.dstMacAddr.Usable

/-- Releasing a packet changes what was enqueued, and nothing else that matters
here. -/
theorem release_cases {l l' : Ledger} {mac : MacAddr} {w : ℕ} (h : l.release mac w = some l') :
    l'.neighs = l.neighs ∧ l'.tasks = l.tasks ∧
      ∃ frame : EthernetFrame,
        l'.enqueued = l.enqueued ++ [(w, { frame with dstMacAddr := mac })] := by
  obtain ⟨frame, -, rfl⟩ := Option.map_eq_some_iff.mp h
  exact ⟨rfl, rfl, frame, rfl⟩

/-- **The way through the cache**: what is not an ARP frame takes its MAC
addresses from the cache and from the tasks, both of which have passed the
filter. -/
theorem Filtered.local {l l' : Ledger} {e : Netns.Event} {ran : Option (ℕ × MacAddr)}
    (h : l.Filtered) (hlocal : Local e ran l l') :
    l'.Filtered ∧ (l.SentUsable → l'.SentUsable) := by
  cases hlocal with
  | idle => exact ⟨h, id⟩
  | forget _ addr he =>
      refine ⟨⟨fun addr' mac hmac => ?_, h.tasks⟩, id⟩
      dsimp only [NeighCache.reset] at hmac
      by_cases haddr : addr' = addr
      · rw [haddr, Function.update_self] at hmac
        cases hmac
      · rw [Function.update_of_ne haddr] at hmac
        exact h.cache addr' mac hmac
  | submit _ sub hcached hframe =>
      refine ⟨⟨h.cache, fun task htask => ?_⟩, id⟩
      rcases List.mem_append.mp htask with hold | hnew
      · exact h.tasks task hold
      · -- The MAC of the new task is the cache entry.
        obtain ⟨mac, hmac, rfl⟩ := Option.map_eq_some_iff.mp (Option.mem_toList.mp hnew)
        exact h.cache sub.via mac (hcached ▸ hmac)
  | task _ before after w mac hfifo htasks hrelease =>
      obtain ⟨hneighs, htasks', frame, hout⟩ := release_cases hrelease
      have hmac : mac.Usable := h.tasks (w, mac) (by simp [htasks])
      refine ⟨⟨by rw [hneighs]; exact h.cache, fun task htask => h.tasks task ?_⟩,
        fun hsent out hmem => ?_⟩
      · rw [htasks'] at htask
        rw [htasks]
        simp only [List.mem_append, List.mem_cons] at htask ⊢
        tauto
      · rw [hout] at hmem
        rcases List.mem_append.mp hmem with hold | hnew
        · exact hsent out hold
        · obtain rfl := List.mem_singleton.mp hnew
          exact hmac

/-- Packets that leave together have one destination. -/
theorem usable_iff_of_leaves {l : Ledger} {mac : MacAddr} {ws : List ℕ}
    {outs : List (ℕ × EthernetFrame)} (h : List.Forall₂ (l.Leaves mac) ws outs) :
    (∀ out ∈ outs, out.2.dstMacAddr.Usable) ↔ (ws ≠ [] → mac.Usable) := by
  induction h with
  | nil => simp
  | cons hout hrest ih =>
      obtain ⟨sub, -, rfl⟩ := hout
      rw [List.forall_mem_cons, ih]
      constructor
      · exact fun hall _ => hall.1
      · exact fun hmac => ⟨hmac (List.cons_ne_nil _ _), fun _ => hmac (List.cons_ne_nil _ _)⟩

end Ledger

namespace Netns

/-- A reply that finds packets waiting for its sender comes from a usable
address. -/
def ReplyUsable (s : Netns) : Event → Prop
  | .arpProcess frame => ∀ inArp, Carries frame inArp → inArp.IsReply →
      s.onReplies inArp.spa ≠ [] → inArp.sha.Usable
  | _ => True

/-- The filter: an update enters usable addresses only. -/
theorem arpUpdate_usable {s : Netns} (h : ∀ addr mac, s.neighs addr = some mac → mac.Usable)
    (sha : MacAddr) (spa : Ipv4Addr) :
    ∀ addr mac, (s.arpUpdate sha spa).neighs addr = some mac → mac.Usable := by
  intro addr mac hmac
  unfold arpUpdate at hmac
  split at hmac
  · exact h addr mac hmac
  · rename_i hfilter
    rw [Bool.or_eq_true, not_or, Bool.not_eq_true, Bool.not_eq_true] at hfilter
    rcases NeighCache.update_cases hmac with hold | ⟨-, rfl⟩
    · exact h addr mac hold
    · exact hfilter

/-- **The way through a reply.**  What is pending leaves with the address from
the reply, filtered or not. -/
theorem arpProcess_usable {s s' : Netns} {frame : EthernetFrame}
    (haccounts : s.ledger.Accounts []) (hfiltered : s.ledger.Filtered)
    (h : s.arpProcess frame = .ok s') :
    s'.ledger.Filtered ∧ (s.ledger.SentUsable →
      (s'.ledger.SentUsable ↔ s.ReplyUsable (.arpProcess frame))) := by
  obtain ⟨inArp, rest, hread⟩ := carries_of_arpProcess h
  have hcarries : Carries frame inArp := ⟨rest, hread⟩
  have hcache := arpUpdate_usable hfiltered.cache inArp.sha inArp.spa
  by_cases hreply : inArp.IsReply
  · rw [s.arpProcess_reply hread hreply.1 hreply.2.1 hreply.2.2] at h
    obtain ⟨t, outs, ht, -, htasks, hout, hleaves⟩ := processReply_releases haccounts inArp
    obtain rfl : t = s' := Except.ok.inj (ht.symm.trans h)
    have husable : s.ReplyUsable (.arpProcess frame) ↔
        (s.onReplies inArp.spa ≠ [] → inArp.sha.Usable) :=
      ⟨fun hall => hall inArp hcarries hreply,
        fun hmac inArp' hcarries' _ => hcarries.unique hcarries' ▸ hmac⟩
    refine ⟨⟨?_, ?_⟩, fun hsent => ?_⟩
    · show ∀ addr mac, t.neighs addr = some mac → mac.Usable
      rw [(processReply_arp h).1]
      exact hcache
    · show ∀ task ∈ t.tasks, task.2.Usable
      rw [htasks]
      exact hfiltered.tasks
    · rw [husable, ← Ledger.usable_iff_of_leaves hleaves]
      show (∀ out ∈ t.enqueued, out.2.dstMacAddr.Usable) ↔ _
      rw [hout, List.forall_mem_append]
      exact and_iff_right hsent
  · have hno : s.ReplyUsable (.arpProcess frame) :=
      fun inArp' hcarries' hreply' => absurd (hcarries.unique hcarries' ▸ hreply') hreply
    by_cases hrequest : inArp.IsRequest
    · obtain ⟨skb, hprocess⟩ := s.arpProcess_request hread hrequest
      rw [hprocess] at h
      have hneighs : s'.ledger.neighs = _ := (processRequest_arp h).1
      -- Up to the cache the ledger is what it was.
      have hsame : s'.ledger.tasks = s.ledger.tasks ∧ s'.ledger.enqueued = s.ledger.enqueued := by
        rcases processRequest_ledger h with hledger | hledger <;> rw [hledger] <;> exact ⟨rfl, rfl⟩
      refine ⟨⟨by rw [hneighs]; exact hcache, by rw [hsame.1]; exact hfiltered.tasks⟩,
        fun hsent => iff_of_true ?_ hno⟩
      rw [Ledger.SentUsable, hsame.2]
      exact hsent
    · rw [s.arpProcess_other hread hrequest hreply] at h
      cases h
      exact ⟨hfiltered, fun hsent => iff_of_true hsent hno⟩

/-- **When no IPv4 frame goes to the broadcast or the zero address.**  Start
from a cache without such entries.  Whatever packets are sent, whatever ARP
frames arrive and whatever handlers run: in every state of the run all frames
enqueued towards Ethernet have usable destinations, if and only if every ARP
reply that is processed while packets wait for its sender comes from a usable
address. -/
theorem usable_destinations_iff {own : NeighCache} {rt : RoutingTable} {es : List Event}
    {s : Netns} (hown : ∀ addr mac, own addr = some mac → mac.Usable)
    (hrun : run step (create own rt) es = .ok s) :
    (∀ past rest t, es = past ++ rest → run step (create own rt) past = .ok t →
      ∀ out ∈ t.enqueued, out.2.dstMacAddr.Usable) ↔
    Admitted step ReplyUsable (create own rt) es := by
  have hadm : Admitted step (fun _ _ => True) (create own rt) es :=
    admitted_of_forall (fun _ _ => trivial) _ es
  refine run_always_iff (J := fun s => s.ledger.Accounts [] ∧ s.ledger.Filtered)
    (P := fun s => s.ledger.SentUsable) ?_ ?_
    ⟨Ledger.accounts_create own rt, hown, nofun⟩ nofun hadm hrun
  · rintro s e s' ⟨haccounts, hfiltered⟩ - hstep
    refine ⟨haccounts.step (step_ledger hstep), ?_⟩
    cases e with
    | arpProcess frame => exact (arpProcess_usable haccounts hfiltered hstep).1
    | _ => exact (hfiltered.local (step_local (by rintro frame ⟨⟩) hstep)).1
  · rintro s e s' ⟨haccounts, hfiltered⟩ hsent - hstep
    cases e with
    | arpProcess frame => exact (arpProcess_usable haccounts hfiltered hstep).2 hsent
    | _ =>
        have hlocal := step_local (by rintro frame ⟨⟩) hstep
        exact iff_of_true ((hfiltered.local hlocal).2 hsent) trivial

/-- The configured address of `gateway` is usable. -/
theorem gateway_usable (addr : Ipv4Addr) (mac : MacAddr)
    (h : (if addr = 2 then some 0x0A else none) = some mac) : mac.Usable := by
  split at h
  · cases h
    decide
  · cases h

/-- A packet waits for the gateway, a stranger calls itself the zero address,
and the gateway answers with its MAC. -/
theorem gateway_reply_usable :
    ∃ s, run step gateway [.ipv4Process (fun _ => 0) toHost7, .arpProcess (arpFrom 2 0 8 2),
        .arpProcess (arpFrom 2 0x0B 9 2)] = .ok s ∧ s.enqueued.length = 1 ∧
      ∀ out ∈ s.enqueued, out.2.dstMacAddr.Usable := by
  obtain ⟨s, hrun⟩ : ∃ s, run step gateway [.ipv4Process (fun _ => 0) toHost7,
    .arpProcess (arpFrom 2 0 8 2), .arpProcess (arpFrom 2 0x0B 9 2)] = .ok s := ⟨_, rfl⟩
  refine ⟨s, hrun, by cases hrun; rfl, ?_⟩
  refine (usable_destinations_iff gateway_usable hrun).mpr ?_ _ [] s (List.append_nil _).symm hrun
  refine .cons trivial rfl ?_
  refine .cons (fun inArp hcarries _ hwaits => ?_) rfl ?_
  · rw [← (arpFrom_carries 2 0 8 2).unique hcarries] at hwaits
    exact absurd rfl hwaits
  · refine .single fun inArp hcarries _ _ => ?_
    rw [← (arpFrom_carries 2 0x0B 9 2).unique hcarries]
    decide

/-- A packet waits for the gateway, and somebody answers for it with the
broadcast address. -/
theorem broadcast_destination :
    (∀ addr mac, gateway.neighs addr = some mac → mac.Usable) ∧
    ∃ s, run step gateway [.ipv4Process (fun _ => 0) toHost7,
        .arpProcess (arpFrom 2 (BitVec.allOnes 48) 9 2)] = .ok s ∧
      ¬ ∀ out ∈ s.enqueued, out.2.dstMacAddr.Usable := by
  obtain ⟨s, hrun⟩ : ∃ s, run step gateway [.ipv4Process (fun _ => 0) toHost7,
    .arpProcess (arpFrom 2 (BitVec.allOnes 48) 9 2)] = .ok s := ⟨_, rfl⟩
  refine ⟨gateway_usable, s, hrun, fun h => ?_⟩
  have hdst : s.enqueued.map (·.2.dstMacAddr) = [BitVec.allOnes 48] := by cases hrun; rfl
  obtain ⟨out, hout, hmac⟩ : ∃ out ∈ s.enqueued, out.2.dstMacAddr = BitVec.allOnes 48 :=
    List.mem_map.mp (hdst ▸ List.mem_singleton.mpr rfl)
  have husable := h out hout
  rw [hmac] at husable
  revert husable
  decide

end Netns

end Mstack
