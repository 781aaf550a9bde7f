import Mstack.Net.Netns

/-!
# Packets that wait for an address

What address resolution is for: a packet that `ipv4::process` submits leaves
exactly once, with the address of its next hop.  A `Ledger` is the part of a
namespace that this is about: the cache, the packets pending under each next
hop, the posted resolve tasks, the wrappers, and the history.

* `Ledger.Step` — once and for all, what an event can do to a ledger.
* `step_ledger` — **the simulation**: a step of the namespace is a step of its
  ledger.
* `Ledger.Accounts` — the invariant: a submitted packet is in one place only,
  its wrapper holds its frame until it has left, and it leaves unchanged up to
  the destination address.
* `submitted_packets_accounted` — what this says of every reachable namespace.

### Why a ledger

Many functions of the namespace touch the cache, the signals or the
`io_context`, and each invariant would have to go through all of them.
`Ledger.Step` has six cases.  The invariants of this module and of
`Net.HopOrder` are about ledgers only, and the functions of `netns` are opened
once, in the section on the simulation.  `Local` is the part of it that has no
ARP frame in it, for a host whose cache is not touched from outside
(`Net.Station`).

### Transit

Releasing a packet takes it out of a slot or a task, then out of its wrapper,
then into the queue.  `Accounts transit l` speaks of the moments in between:
`transit` lists the packets that have left their slot or task and are not in
the queue yet.  A reply puts everything pending under its sender into transit
(`Accounts.reply_transit`), a task its one packet (`Accounts.task_transit`),
and `Accounts.releaseAll` empties it, in order.

### What is load-bearing

A wrapper is shared between the callback and whoever holds it, and calling the
callback twice would enqueue an empty frame.  That each is called once is the
field `once`, a count over the three places where a packet can be; and it is a
*count*, because membership alone would not exclude a packet that is pending
twice.
-/

namespace Mstack

open EventSystem

/-- The part of a namespace that address resolution reads and writes. -/
@[ext] structure Ledger where
  neighs : NeighCache
  pending : Ipv4Addr → List ℕ
  wrappers : List EthernetFrame
  tasks : List (ℕ × MacAddr)
  submissions : List Submission
  enqueued : List (ℕ × EthernetFrame)
  replies : List (Ipv4Addr × MacAddr)

/-- The callback and its argument, for a resolve task. -/
def Handler.resolve? : Handler → Option (ℕ × MacAddr)
  | .resolve w mac => some (w, mac)
  | .tcbManager | .tcp | .icmp | .arp | .ipv4 | .ethernetv2 => none

/-- The posted resolve tasks, oldest first. -/
def Netns.tasks (s : Netns) : List (ℕ × MacAddr) := s.ioCtx.filterMap Handler.resolve?

/-- The ledger of a namespace. -/
def Netns.ledger (s : Netns) : Ledger where
  neighs := s.neighs
  pending := s.onReplies
  wrappers := s.wrappers
  tasks := s.tasks
  submissions := s.submissions
  enqueued := s.enqueued
  replies := s.replies

namespace Ledger

/-- A packet is submitted: it becomes a task if its next hop is cached, and
waits otherwise. -/
def submit (l : Ledger) (sub : Submission) : Ledger :=
  { l with
    wrappers := l.wrappers ++ [sub.frame]
    submissions := l.submissions ++ [sub]
    tasks := l.tasks ++ (sub.cached.map fun mac => (l.wrappers.length, mac)).toList
    pending :=
      match sub.cached with
      | some _ => l.pending
      | none => Function.update l.pending sub.via (l.pending sub.via ++ [l.wrappers.length]) }

/-- The frame is moved out of wrapper `w` and enqueued with destination `mac`. -/
def release (l : Ledger) (mac : MacAddr) (w : ℕ) : Option Ledger :=
  (l.wrappers[w]?).map fun frame =>
    { l with
      wrappers := l.wrappers.set w frame.movedFrom
      enqueued := l.enqueued ++ [(w, { frame with dstMacAddr := mac })] }

/-- A reply from `addr`: whatever is pending under it is released, in order. -/
def reply (l : Ledger) (addr : Ipv4Addr) (mac : MacAddr) : Option Ledger :=
  (l.pending addr).foldlM (fun l w => l.release mac w)
    { l with
      pending := Function.update l.pending addr []
      replies := l.replies ++ [(addr, mac)] }

/-- **Everything an event can do to a ledger.**  The second index is the
resolve task that runs, if one does.  The constructors are the operations of an
abstract resolver; that the functions of the source do nothing else is
`step_ledger`. -/
inductive Step (e : Netns.Event) : Option (ℕ × MacAddr) → Ledger → Ledger → Prop
  | idle (l : Ledger) : Step e none l l
  /-- A sender is entered into the cache, if it is not there already. -/
  | learn (l : Ledger) (addr : Ipv4Addr) (mac : MacAddr) :
      Step e none l { l with neighs := l.neighs.update addr mac }
  | forget (l : Ledger) (addr : Ipv4Addr) (he : e = .reset addr) :
      Step e none l { l with neighs := l.neighs.reset addr }
  | submit (l : Ledger) (sub : Submission) (hcached : sub.cached = l.neighs sub.via)
      (hframe : Ipv4.skbOut sub.seq sub.pkt = .ok sub.frame.skb) : Step e none l (l.submit sub)
  | reply (l : Ledger) (addr : Ipv4Addr) (mac : MacAddr) (neighs : NeighCache)
      (hneighs : neighs = l.neighs ∨ neighs = l.neighs.update addr mac) {l' : Ledger}
      (h : ({ l with neighs } : Ledger).reply addr mac = some l') : Step e none l l'
  /-- The oldest handler is the oldest resolve task. -/
  | task (l : Ledger) (before after : List (ℕ × MacAddr)) (w : ℕ) (mac : MacAddr)
      (hfifo : (∃ junk, e = .handler junk 0) → before = [])
      (htasks : l.tasks = before ++ (w, mac) :: after) {l' : Ledger}
      (h : ({ l with tasks := before ++ after } : Ledger).release mac w = some l') :
      Step e (some (w, mac)) l l'

/-- What anything but an ARP frame can do to a ledger. -/
inductive Local (e : Netns.Event) : Option (ℕ × MacAddr) → Ledger → Ledger → Prop
  | idle (l : Ledger) : Local e none l l
  | forget (l : Ledger) (addr : Ipv4Addr) (he : e = .reset addr) :
      Local e none l { l with neighs := l.neighs.reset addr }
  | submit (l : Ledger) (sub : Submission) (hcached : sub.cached = l.neighs sub.via)
      (hframe : Ipv4.skbOut sub.seq sub.pkt = .ok sub.frame.skb) : Local e none l (l.submit sub)
  | task (l : Ledger) (before after : List (ℕ × MacAddr)) (w : ℕ) (mac : MacAddr)
      (hfifo : (∃ junk, e = .handler junk 0) → before = [])
      (htasks : l.tasks = before ++ (w, mac) :: after) {l' : Ledger}
      (h : ({ l with tasks := before ++ after } : Ledger).release mac w = some l') :
      Local e (some (w, mac)) l l'

/-- What needs no ARP frame is among what an event can do. -/
theorem Local.step {e : Netns.Event} {ran : Option (ℕ × MacAddr)} {l l' : Ledger}
    (h : Local e ran l l') : Step e ran l l' := by
  cases h with
  | idle => exact .idle _
  | forget _ addr he => exact .forget _ addr he
  | submit _ sub hcached hframe => exact .submit _ sub hcached hframe
  | task _ before after w mac hfifo htasks h => exact .task _ before after w mac hfifo htasks h

end Ledger

/-! ## The simulation

One lemma for each function that touches the ledger.  Most leave it alone, up
to the cache. -/

namespace Netns

/-- A posted handler is the last task, if it is one. -/
theorem tasks_post (s : Netns) (h : Handler) :
    (s.post h).tasks = s.tasks ++ h.resolve?.toList := by
  cases h <;> simp [tasks, post, Handler.resolve?]

/-- A handler that is no task does not show in the ledger. -/
theorem ledger_post {h : Handler} (hh : h.resolve? = none) (s : Netns) :
    (s.post h).ledger = s.ledger := by
  have htasks : (s.post h).tasks = s.tasks := by
    rw [tasks_post, hh]
    exact List.append_nil _
  exact Ledger.ext rfl rfl rfl htasks rfl rfl rfl

/-- The callback of a resolution releases its packet. -/
theorem onResolved_ledger {s s' : Netns} {w : ℕ} {mac : MacAddr}
    (h : s.onResolved w mac = .ok s') : s.ledger.release mac w = some s'.ledger := by
  unfold onResolved at h
  split at h
  · cases h
  · rename_i frame hframe
    cases h
    rw [ipv4Enqueue, ledger_post rfl, Ledger.release]
    change Option.map _ s.wrappers[w]? = _
    rw [hframe]
    rfl

/-- A signal releases what is connected to it, in the order of connection. -/
theorem onReply_ledger {s s' : Netns} {mac : MacAddr} {slots : List ℕ}
    (h : s.onReply mac slots = .ok s') :
    slots.foldlM (fun l w => l.release mac w) s.ledger = some s'.ledger := by
  induction slots generalizing s with
  | nil => cases h; rfl
  | cons w slots ih =>
      obtain ⟨t, ht, hrest⟩ := bind_eq_ok.mp h
      rw [List.foldlM_cons, onResolved_ledger ht]
      exact ih hrest

/-- ARP's own queue is not in the ledger. -/
theorem arpEnqueue_ledger (s : Netns) (frame : EthernetFrame) :
    (s.arpEnqueue frame).ledger = s.ledger :=
  ledger_post rfl _

/-- `arp::update` learns the sender, or does nothing. -/
theorem arpUpdate_ledger (s : Netns) (mac : MacAddr) (addr : Ipv4Addr) :
    (s.arpUpdate mac addr).ledger = s.ledger ∨
      (s.arpUpdate mac addr).ledger
        = { s.ledger with neighs := s.ledger.neighs.update addr mac } := by
  unfold arpUpdate
  split
  · exact .inl rfl
  · exact .inr rfl

/-- `arp::async_resolve`: a task if the address is cached, a slot if it is
not. -/
theorem asyncResolve_ledger {s s' : Netns} {junk : ℕ → Byte} {fromMac : MacAddr}
    {fromIpv4 toIpv4 : Ipv4Addr} {dev : DeviceId} {cb : ℕ}
    (h : s.asyncResolve junk fromMac fromIpv4 toIpv4 dev cb = .ok s') :
    s'.ledger = { s.ledger with
      tasks := s.ledger.tasks ++ ((s.neighs toIpv4).map fun mac => (cb, mac)).toList
      pending :=
        match s.neighs toIpv4 with
        | some _ => s.ledger.pending
        | none => Function.update s.ledger.pending toIpv4 (s.ledger.pending toIpv4 ++ [cb]) } := by
  unfold asyncResolve at h
  cases hquery : s.neighs toIpv4 with
  | some mac =>
      rw [NeighCache.query, hquery] at h
      cases h
      exact Ledger.ext rfl rfl rfl (tasks_post s (.resolve cb mac)) rfl rfl rfl
  | none =>
      rw [NeighCache.query, hquery] at h
      obtain ⟨skb, -, hrest⟩ := bind_eq_ok.mp h
      cases hrest
      rw [arpEnqueue_ledger]
      exact Ledger.ext rfl rfl rfl (List.append_nil _).symm rfl rfl rfl

/-- `ipv4::process` submits a packet, or drops one that has no route. -/
theorem ipv4Process_ledger {s s' : Netns} {junk : ℕ → Byte} {pkt : Ipv4Packet}
    (h : s.ipv4Process junk pkt = .ok s') :
    s'.ledger = s.ledger ∨ ∃ sub, sub.cached = s.ledger.neighs sub.via ∧
      Ipv4.skbOut sub.seq sub.pkt = .ok sub.frame.skb ∧ s'.ledger = s.ledger.submit sub := by
  obtain ⟨skb, hskb, h⟩ := bind_eq_ok.mp h
  dsimp only at h
  split at h
  · cases h
    exact .inl rfl
  · rename_i nh hnh
    split at h
    · cases h
    · rename_i srcMac hsrc
      refine .inr ⟨⟨pkt, s.seq, ⟨srcMac, 0, Ipv4.PROTO, skb, some nh.dev⟩, nh.viaAddrv4,
        s.neighs.query nh.viaAddrv4⟩, rfl, hskb, ?_⟩
      exact asyncResolve_ledger h

/-- The resolve task an event runs, if it runs one. -/
def ran (s : Netns) : Event → Option (ℕ × MacAddr)
  | .handler _ i => (s.ioCtx[i]?).bind Handler.resolve?
  | _ => none

/-- A request teaches the cache at most. -/
theorem processRequest_ledger {s s' : Netns} {inArp : ArpHeader} {frame : EthernetFrame}
    (h : s.processRequest inArp frame = .ok s') :
    s'.ledger = s.ledger ∨
      s'.ledger = { s.ledger with neighs := s.ledger.neighs.update inArp.spa inArp.sha } := by
  have hupdate : s'.ledger = (s.arpUpdate inArp.sha inArp.spa).ledger := by
    simp only [processRequest] at h
    split at h
    · obtain ⟨skb, -, h⟩ := bind_eq_ok.mp h
      obtain ⟨skb', -, h⟩ := bind_eq_ok.mp h
      cases h
      exact arpEnqueue_ledger _ _
    · cases h
      rfl
  rw [hupdate]
  exact arpUpdate_ledger s inArp.sha inArp.spa

/-- A reply teaches the cache at most, and releases what waits for its sender. -/
theorem processReply_ledger {s s' : Netns} {inArp : ArpHeader} (h : s.processReply inArp = .ok s') :
    ∃ neighs, (neighs = s.ledger.neighs ∨ neighs = s.ledger.neighs.update inArp.spa inArp.sha) ∧
      ({ s.ledger with neighs } : Ledger).reply inArp.spa inArp.sha = some s'.ledger := by
  have hrelease := onReply_ledger h
  rcases arpUpdate_ledger s inArp.sha inArp.spa with hupdate | hupdate
  · refine ⟨s.ledger.neighs, .inl rfl, ?_⟩
    have hsame : ({ s.ledger with neighs := s.ledger.neighs } : Ledger) = s.ledger := rfl
    rw [hsame, ← hupdate]
    exact hrelease
  · refine ⟨_, .inr rfl, ?_⟩
    rw [← hupdate]
    exact hrelease

/-- A handler of a queue submits a packet or leaves the ledger alone. -/
theorem runHandler_ledger {s s' : Netns} {junk : ℕ → Byte} {h : Handler}
    (hresolve : h.resolve? = none) (hrun : s.runHandler junk h = .ok s') :
    s'.ledger = s.ledger ∨ ∃ sub, sub.cached = s.ledger.neighs sub.via ∧
      Ipv4.skbOut sub.seq sub.pkt = .ok sub.frame.skb ∧ s'.ledger = s.ledger.submit sub := by
  cases h with
  | tcp =>
      obtain ⟨⟨pkt, rest⟩, -, hrun⟩ := bind_eq_ok.mp hrun
      exact ipv4Process_ledger (s := { s with tcpQueue := rest }) hrun
  | icmp =>
      obtain ⟨⟨pkt, rest⟩, -, hrun⟩ := bind_eq_ok.mp hrun
      exact ipv4Process_ledger (s := { s with icmpQueue := rest }) hrun
  | ethernetv2 =>
      obtain ⟨⟨out, rest⟩, -, hrun⟩ := bind_eq_ok.mp hrun
      cases hrun
      exact .inl rfl
  | resolve w mac => cases hresolve
  | _ =>
      obtain ⟨⟨x, rest⟩, -, hrun⟩ := bind_eq_ok.mp hrun
      obtain ⟨y, -, hrun⟩ := bind_eq_ok.mp hrun
      cases hrun
      exact .inl (ledger_post rfl _)

/-- Taking a handler out of the `io_context` takes its task out of the ledger,
if it is one. -/
theorem tasks_eraseIdx {s : Netns} {i : ℕ} {h : Handler} (hi : s.ioCtx[i]? = some h) :
    s.tasks = (s.ioCtx.take i).filterMap Handler.resolve? ++
        (h.resolve?.toList ++ (s.ioCtx.drop (i + 1)).filterMap Handler.resolve?) ∧
      ({ s with ioCtx := s.ioCtx.eraseIdx i } : Netns).tasks
        = (s.ioCtx.take i).filterMap Handler.resolve? ++
          (s.ioCtx.drop (i + 1)).filterMap Handler.resolve? := by
  obtain ⟨hlt, hget⟩ := List.getElem?_eq_some_iff.mp hi
  have hsplit : s.ioCtx = s.ioCtx.take i ++ h :: s.ioCtx.drop (i + 1) := by
    rw [← hget, List.getElem_cons_drop, List.take_append_drop]
  constructor
  · rw [tasks, hsplit, List.filterMap_append, ← hsplit]
    cases hh : h.resolve? <;> simp [hh]
  · rw [tasks]
    change List.filterMap _ (s.ioCtx.eraseIdx i) = _
    rw [List.eraseIdx_eq_take_drop_succ, List.filterMap_append]

/-- **Everything but an ARP frame**, in the ledger. -/
theorem step_local {s s' : Netns} {e : Event} (harp : ∀ frame, e ≠ .arpProcess frame)
    (h : step s e = .ok s') : Ledger.Local e (s.ran e) s.ledger s'.ledger := by
  cases e with
  | enqueue pkt =>
      cases h
      rw [tcbmEnqueue, ledger_post rfl]
      exact .idle _
  | ipv4Process junk pkt =>
      rcases ipv4Process_ledger h with hsame | ⟨sub, hcached, hframe, hsub⟩
      · rw [hsame]
        exact .idle _
      · rw [hsub]
        exact .submit _ sub hcached hframe
  | icmpProcess pkt =>
      obtain ⟨out, -, h⟩ := bind_eq_ok.mp h
      cases out with
      | none => cases h; exact .idle _
      | some reply =>
          cases h
          rw [icmpEnqueue, ledger_post rfl]
          exact .idle _
  | reset addr => cases h; exact .forget _ addr rfl
  | arpProcess frame => exact (harp frame rfl).elim
  | handler junk i =>
      simp only [step] at h
      split at h
      · rename_i hnone
        cases h
        rw [ran, hnone]
        exact .idle _
      · rename_i handler hi
        obtain ⟨htasks, herase⟩ := tasks_eraseIdx hi
        rw [ran, hi, Option.bind_some]
        cases hresolve : handler.resolve? with
        | none =>
            -- Other handlers are not in the ledger, so taking one out does not show.
            have hsame : ({ s with ioCtx := s.ioCtx.eraseIdx i } : Netns).ledger = s.ledger := by
              refine Ledger.ext rfl rfl rfl ?_ rfl rfl rfl
              rw [ledger, ledger, herase, htasks, hresolve]
              rfl
            rcases runHandler_ledger hresolve h with hkeep | ⟨sub, hcached, hframe, hsub⟩
            · rw [hkeep, hsame]
              exact .idle _
            · rw [hsame] at hcached hsub
              rw [hsub]
              exact .submit _ sub hcached hframe
        | some task =>
            -- A resolve task leaves the list, and its packet goes on.
            obtain ⟨w, mac⟩ := task
            obtain rfl : handler = .resolve w mac := by
              cases handler <;> simp [Handler.resolve?] at hresolve
              simp [hresolve]
            refine .task _ ((s.ioCtx.take i).filterMap Handler.resolve?)
              ((s.ioCtx.drop (i + 1)).filterMap Handler.resolve?) w mac ?_ htasks ?_
            · rintro ⟨junk', he⟩
              cases he
              rfl
            · have hrel := onResolved_ledger h
              rw [← herase]
              exact hrel

/-- **The simulation**: a step of the namespace is a step of its ledger.  All
that is proved about the order and the number of packets is proved of the
ledger, and used here. -/
theorem step_ledger {s s' : Netns} {e : Event} (h : step s e = .ok s') :
    Ledger.Step e (s.ran e) s.ledger s'.ledger := by
  cases e with
  | arpProcess frame =>
      obtain ⟨inArp, -, h⟩ := bind_eq_ok.mp h
      obtain ⟨skb, -, h⟩ := bind_eq_ok.mp h
      split at h
      · split at h
        · rcases processRequest_ledger h with hsame | hlearn
          · rw [hsame]
            exact .idle _
          · rw [hlearn]
            exact .learn _ _ _
        · split at h
          · obtain ⟨neighs, hneighs, hreply⟩ := processReply_ledger h
            exact .reply _ _ _ neighs hneighs hreply
          · cases h
            exact .idle _
      · cases h
        exact .idle _
  | _ => exact (step_local (by rintro frame ⟨⟩) h).step

end Netns

/-! ## Accounting

The invariant, what keeps it, and what it is good for. -/

/-- The elements of a list with one more. -/
theorem getElem?_concat {α : Type} {xs : List α} {x y : α} {i : ℕ} :
    (xs ++ [x])[i]? = some y ↔ xs[i]? = some y ∨ (i = xs.length ∧ y = x) := by
  rcases lt_trichotomy i xs.length with hlt | rfl | hgt
  · rw [List.getElem?_append_left hlt]
    simp [hlt.ne]
  · simp [eq_comm]
  · have hnone : (xs ++ [x])[i]? = none := by
      apply List.getElem?_eq_none
      rw [List.length_append, List.length_singleton]
      omega
    rw [hnone, List.getElem?_eq_none hgt.le]
    simp [hgt.ne']

namespace Ledger

/-- **The accounts of a ledger**, while the packets of `transit` are on their
way from a slot or a task to the queue.  A submitted packet is in one place
only, its wrapper holds its frame until it has left, and it leaves unchanged up
to the destination address. -/
structure Accounts (transit : List ℕ) (l : Ledger) : Prop where
  length : l.wrappers.length = l.submissions.length
  via : ∀ addr, ∀ w ∈ l.pending addr, ∃ sub, l.submissions[w]? = some sub ∧ sub.via = addr
  known : ∀ w ∈ transit ++ l.tasks.map Prod.fst ++ l.enqueued.map Prod.fst,
    w < l.submissions.length
  once : ∀ w sub, l.submissions[w]? = some sub →
    (l.pending sub.via).count w + (l.tasks.map Prod.fst).count w + transit.count w +
      (l.enqueued.map Prod.fst).count w = 1
  sorted : ∀ addr, (l.pending addr).Pairwise (· < ·)
  intact : ∀ w sub, l.submissions[w]? = some sub → w ∉ l.enqueued.map Prod.fst →
    l.wrappers[w]? = some sub.frame
  cached : ∀ task ∈ l.tasks, ∃ sub, l.submissions[task.1]? = some sub ∧ sub.cached = some task.2
  written : ∀ sub ∈ l.submissions, Ipv4.skbOut sub.seq sub.pkt = .ok sub.frame.skb
  sent : ∀ out ∈ l.enqueued, ∃ sub mac, l.submissions[out.1]? = some sub ∧
    out.2 = { sub.frame with dstMacAddr := mac } ∧
    (sub.cached = some mac ∨ (sub.via, mac) ∈ l.replies)

/-- What releasing packets leaves alone. -/
structure SameBooks (l l' : Ledger) : Prop where
  neighs : l'.neighs = l.neighs
  pending : l'.pending = l.pending
  tasks : l'.tasks = l.tasks
  submissions : l'.submissions = l.submissions
  replies : l'.replies = l.replies

/-- **A packet in transit arrives.** -/
theorem Accounts.release {l : Ledger} {w : ℕ} {transit : List ℕ} (h : Accounts (w :: transit) l)
    (mac : MacAddr)
    (hmac : ∀ sub, l.submissions[w]? = some sub → sub.cached = some mac ∨ (sub.via, mac) ∈ l.replies) :
    ∃ l' sub, l.release mac w = some l' ∧ Accounts transit l' ∧ SameBooks l l' ∧
      l.submissions[w]? = some sub ∧
      l'.enqueued = l.enqueued ++ [(w, { sub.frame with dstMacAddr := mac })] := by
  have hlt : w < l.submissions.length := h.known w (by simp)
  obtain ⟨sub, hsub⟩ : ∃ sub, l.submissions[w]? = some sub := ⟨_, List.getElem?_eq_getElem hlt⟩
  -- In transit is one of the places a packet is in, so it is not in another.
  have hfresh : w ∉ l.enqueued.map Prod.fst := by
    have honce := h.once w sub hsub
    rw [List.count_cons_self] at honce
    exact List.count_eq_zero.mp (by omega)
  have hframe := h.intact w sub hsub hfresh
  have hrelease : l.release mac w = some { l with
      wrappers := l.wrappers.set w sub.frame.movedFrom
      enqueued := l.enqueued ++ [(w, { sub.frame with dstMacAddr := mac })] } := by
    rw [Ledger.release, hframe]
    rfl
  refine ⟨_, sub, hrelease, ?_, ⟨rfl, rfl, rfl, rfl, rfl⟩, hsub, rfl⟩
  refine
    { length := ?_, via := h.via, known := ?_, once := ?_, sorted := h.sorted, intact := ?_
      cached := h.cached, written := h.written, sent := ?_ }
  · rw [List.length_set]
    exact h.length
  · intro v hv
    apply h.known v
    simp only [List.mem_append, List.map_append, List.map_cons, List.map_nil, List.mem_cons,
      List.not_mem_nil, or_false] at hv ⊢
    tauto
  · -- The number moves from the front of the transit to the packets handed on.
    intro v sub' hsub'
    have honce := h.once v sub' hsub'
    rw [List.count_cons] at honce
    simp only [List.map_append, List.count_append, List.map_cons, List.map_nil,
      List.count_singleton]
    omega
  · intro v sub' hsub' hv
    simp only [List.map_append, List.map_cons, List.map_nil, List.mem_append, List.mem_singleton,
      not_or] at hv
    rw [List.getElem?_set_ne (Ne.symm hv.2)]
    exact h.intact v sub' hsub' hv.1
  · intro out hout
    rcases List.mem_append.mp hout with hold | hnew
    · exact h.sent out hold
    · obtain rfl := List.mem_singleton.mp hnew
      exact ⟨sub, mac, hsub, rfl, hmac sub hsub⟩

/-- Releasing one packet after the other. -/
theorem SameBooks.trans {l l' l'' : Ledger} (h : SameBooks l l') (h' : SameBooks l' l'') :
    SameBooks l l'' where
  neighs := h'.neighs.trans h.neighs
  pending := h'.pending.trans h.pending
  tasks := h'.tasks.trans h.tasks
  submissions := h'.submissions.trans h.submissions
  replies := h'.replies.trans h.replies

/-- Wrapper `w` holds a submitted frame, and `out` is that frame with
destination `mac`. -/
def Leaves (l : Ledger) (mac : MacAddr) (w : ℕ) (out : ℕ × EthernetFrame) : Prop :=
  ∃ sub, l.submissions[w]? = some sub ∧ out = (w, { sub.frame with dstMacAddr := mac })

/-- **All packets in transit arrive**, in order. -/
theorem Accounts.releaseAll {l : Ledger} {transit : List ℕ} (h : Accounts transit l)
    (mac : MacAddr)
    (hmac : ∀ w ∈ transit, ∀ sub, l.submissions[w]? = some sub →
      sub.cached = some mac ∨ (sub.via, mac) ∈ l.replies) :
    ∃ l' outs, transit.foldlM (fun l w => l.release mac w) l = some l' ∧ Accounts [] l' ∧
      SameBooks l l' ∧ l'.enqueued = l.enqueued ++ outs ∧
      List.Forall₂ (Leaves l mac) transit outs := by
  induction transit generalizing l with
  | nil => exact ⟨l, [], rfl, h, ⟨rfl, rfl, rfl, rfl, rfl⟩, (List.append_nil _).symm, .nil⟩
  | cons w transit ih =>
      obtain ⟨l₁, sub, hrelease, haccounts, hsame, hsub, hout⟩ :=
        h.release mac (hmac w List.mem_cons_self)
      obtain ⟨l', outs, hrest, haccounts', hsame', houts, hleaves⟩ := ih haccounts (by
        intro v hv sub' hsub'
        rw [hsame.submissions] at hsub'
        rw [hsame.replies]
        exact hmac v (List.mem_cons_of_mem w hv) sub' hsub')
      refine ⟨l', (w, { sub.frame with dstMacAddr := mac }) :: outs, ?_, haccounts',
        hsame.trans hsame', ?_, .cons ⟨sub, hsub, rfl⟩ ?_⟩
      · rw [List.foldlM_cons, hrelease]
        exact hrest
      · rw [houts, hout, List.append_assoc]
        rfl
      · have hsubs : l₁.Leaves mac = l.Leaves mac := by
          funext v out
          rw [Leaves, Leaves, hsame.submissions]
        rwa [hsubs] at hleaves

/-- A reply puts everything pending under its sender into transit. -/
theorem Accounts.reply_transit {l : Ledger} (h : Accounts [] l) (addr : Ipv4Addr)
    (replies : List (Ipv4Addr × MacAddr)) (hreplies : l.replies ⊆ replies) :
    Accounts (l.pending addr)
      { l with pending := Function.update l.pending addr [], replies } where
  length := h.length
  via := by
    intro a w hw
    by_cases ha : a = addr
    · -- The list that is released is empty now.
      subst ha
      simp at hw
    · dsimp only at hw
      rw [Function.update_of_ne ha] at hw
      exact h.via a w hw
  known := by
    intro w hw
    simp only [List.append_assoc, List.mem_append] at hw
    rcases hw with hpending | hw
    · obtain ⟨sub, hsub, -⟩ := h.via addr w hpending
      exact (List.getElem?_eq_some_iff.mp hsub).1
    · exact h.known w (by simpa using hw)
  once := by
    intro w sub hsub
    have honce := h.once w sub hsub
    rw [List.count_nil] at honce
    dsimp only
    by_cases ha : sub.via = addr
    · subst ha
      rw [Function.update_self, List.count_nil]
      omega
    · -- A packet for another address is not on the list.
      have habsent : w ∉ l.pending addr := by
        intro hw
        obtain ⟨sub', hsub', hvia⟩ := h.via addr w hw
        rw [hsub] at hsub'
        cases hsub'
        exact ha hvia
      rw [Function.update_of_ne ha, List.count_eq_zero.mpr habsent]
      exact honce
  sorted := by
    intro a
    by_cases ha : a = addr
    · subst ha
      simp
    · dsimp only
      rw [Function.update_of_ne ha]
      exact h.sorted a
  intact := h.intact
  cached := h.cached
  written := h.written
  sent := by
    intro out hout
    obtain ⟨sub, mac, hsub, hframe, hmac⟩ := h.sent out hout
    exact ⟨sub, mac, hsub, hframe, hmac.imp_right (hreplies ·)⟩

/-- Running a task puts its packet into transit. -/
theorem Accounts.task_transit {l : Ledger} (h : Accounts [] l) {before after : List (ℕ × MacAddr)}
    {w : ℕ} {mac : MacAddr} (htasks : l.tasks = before ++ (w, mac) :: after) :
    Accounts [w] { l with tasks := before ++ after } where
  length := h.length
  via := h.via
  known := by
    intro v hv
    apply h.known v
    rw [htasks]
    simp only [List.map_append, List.map_cons, List.mem_append, List.mem_cons, List.not_mem_nil,
      or_false, false_or] at hv ⊢
    tauto
  once := by
    intro v sub hsub
    have honce := h.once v sub hsub
    rw [htasks] at honce
    simp only [List.map_append, List.map_cons, List.count_append, List.count_cons,
      List.count_nil] at honce ⊢
    omega
  sorted := h.sorted
  intact := h.intact
  cached := by
    intro task htask
    apply h.cached task
    rw [htasks]
    simp only [List.mem_append, List.mem_cons] at htask ⊢
    tauto
  written := h.written
  sent := h.sent

/-- What a submission does to the packets pending under `addr`. -/
theorem submit_pending (l : Ledger) (sub : Submission) (addr : Ipv4Addr) :
    (l.submit sub).pending addr = l.pending addr ++
      if sub.cached = none ∧ addr = sub.via then [l.wrappers.length] else [] := by
  cases hcached : sub.cached with
  | some mac => simp [submit, hcached]
  | none =>
      by_cases haddr : addr = sub.via
      · subst haddr
        simp [submit, hcached]
      · simp [submit, hcached, haddr]

/-- What a submission does to the tasks. -/
theorem submit_tasks (l : Ledger) (sub : Submission) :
    (l.submit sub).tasks.map Prod.fst = l.tasks.map Prod.fst ++
      if sub.cached = none then [] else [l.wrappers.length] := by
  cases hcached : sub.cached <;> simp [submit, hcached]

/-- Everything the accounts speak of was submitted before. -/
theorem Accounts.submitted_lt {l : Ledger} (h : Accounts [] l) {w : ℕ} {sub : Submission}
    (hw : l.submissions[w]? = some sub) : w < l.wrappers.length :=
  h.length ▸ (List.getElem?_eq_some_iff.mp hw).1

theorem Accounts.pending_lt {l : Ledger} (h : Accounts [] l) (addr : Ipv4Addr) :
    ∀ w ∈ l.pending addr, w < l.wrappers.length := by
  intro w hw
  obtain ⟨sub, hsub, -⟩ := h.via addr w hw
  exact h.submitted_lt hsub

theorem Accounts.tasks_lt {l : Ledger} (h : Accounts [] l) :
    ∀ w ∈ l.tasks.map Prod.fst, w < l.wrappers.length := fun w hw =>
  h.length ▸ h.known w (by simp [hw])

theorem Accounts.enqueued_lt {l : Ledger} (h : Accounts [] l) :
    ∀ w ∈ l.enqueued.map Prod.fst, w < l.wrappers.length := fun w hw =>
  h.length ▸ h.known w (by simp [hw])

/-- After a submission every packet is in one place, the new one included. -/
theorem Accounts.submit_once {l : Ledger} (h : Accounts [] l) (sub : Submission) {w : ℕ}
    {sub' : Submission} (hsub' : (l.submit sub).submissions[w]? = some sub') :
    ((l.submit sub).pending sub'.via).count w + ((l.submit sub).tasks.map Prod.fst).count w
      + [].count w + ((l.submit sub).enqueued.map Prod.fst).count w = 1 := by
  rw [submit_pending, submit_tasks, List.count_append, List.count_append]
  rcases getElem?_concat.mp hsub' with hsub' | ⟨rfl, rfl⟩
  · -- An old packet is where it was.
    have hne : l.wrappers.length ≠ w := (h.submitted_lt hsub').ne'
    have honce := h.once w sub' hsub'
    have hzero (c : Prop) [Decidable c] :
        (if c then [l.wrappers.length] else []).count w = 0 := by
      split <;> simp [hne]
    have hzero' : (if sub.cached = none then [] else [l.wrappers.length]).count w = 0 := by
      split <;> simp [hne]
    rw [hzero, hzero']
    exact honce
  · -- The new one is a task or waits.
    have hfresh (xs : List ℕ) (hxs : ∀ w ∈ xs, w < l.wrappers.length) :
        xs.count l.submissions.length = 0 :=
      List.count_eq_zero.mpr fun hmem => absurd (hxs _ hmem) (by rw [h.length]; exact lt_irrefl _)
    rw [hfresh _ (h.pending_lt _), hfresh _ h.tasks_lt, List.count_nil, ← h.length]
    change _ + _ + 0 + (l.enqueued.map Prod.fst).count _ = 1
    rw [h.length, hfresh _ h.enqueued_lt]
    by_cases hmiss : sub'.cached = none <;> simp [hmiss]

/-- A new packet is in one place, and nobody has heard of it before. -/
theorem Accounts.submit {l : Ledger} (h : Accounts [] l) {sub : Submission}
    (hframe : Ipv4.skbOut sub.seq sub.pkt = .ok sub.frame.skb) : Accounts [] (l.submit sub) := by
  have hold {w : ℕ} {sub' : Submission} (hw : l.submissions[w]? = some sub') :
      (l.submit sub).submissions[w]? = some sub' := getElem?_concat.mpr (.inl hw)
  have hnew : (l.submit sub).submissions[l.wrappers.length]? = some sub :=
    getElem?_concat.mpr (.inr ⟨h.length, rfl⟩)
  refine
    { length := ?_, via := ?_, known := ?_, once := ?_, sorted := ?_, intact := ?_
      cached := ?_, written := ?_, sent := ?_ }
  · simp [Ledger.submit, h.length]
  · -- Only a miss adds to a list, and the packet waits for the address it missed.
    intro addr w hw
    rw [submit_pending, List.mem_append] at hw
    rcases hw with hw | hw
    · obtain ⟨sub', hsub', hvia⟩ := h.via addr w hw
      exact ⟨sub', hold hsub', hvia⟩
    · split at hw
      · rename_i hmiss
        obtain rfl := List.mem_singleton.mp hw
        exact ⟨sub, hnew, hmiss.2.symm⟩
      · cases hw
  · intro w hw
    have hlen : (l.submit sub).submissions.length = l.wrappers.length + 1 := by
      simp [Ledger.submit, h.length]
    rw [hlen]
    rw [submit_tasks, List.nil_append, List.append_assoc, List.mem_append, List.mem_append] at hw
    rcases hw with hw | hw | hw
    · exact Nat.lt_succ_of_lt (h.tasks_lt w hw)
    · split at hw
      · cases hw
      · obtain rfl := List.mem_singleton.mp hw
        exact Nat.lt_succ_self _
    · exact Nat.lt_succ_of_lt (h.enqueued_lt w hw)
  · exact fun w sub' hsub' => h.submit_once sub hsub'
  · intro addr
    rw [submit_pending]
    split
    · -- The new number is larger than all that wait.
      refine List.pairwise_append.mpr ⟨h.sorted addr, List.pairwise_singleton _ _, ?_⟩
      intro w hw v hv
      obtain rfl := List.mem_singleton.mp hv
      exact h.pending_lt addr w hw
    · rw [List.append_nil]
      exact h.sorted addr
  · -- A new wrapper is behind the old ones, so those stay in place.
    intro w sub' hsub' hw
    rcases getElem?_concat.mp hsub' with hsub' | ⟨rfl, rfl⟩
    · exact getElem?_concat.mpr (.inl (h.intact w sub' hsub' hw))
    · exact getElem?_concat.mpr (.inr ⟨h.length.symm, rfl⟩)
  · -- A task posted at once carries the address the cache had.
    intro task htask
    rcases List.mem_append.mp htask with htask | htask
    · obtain ⟨sub', hsub', hcached⟩ := h.cached task htask
      exact ⟨sub', hold hsub', hcached⟩
    · obtain ⟨mac, hmac, rfl⟩ := Option.map_eq_some_iff.mp (Option.mem_toList.mp htask)
      exact ⟨sub, hnew, hmac⟩
  · intro sub' hmem
    rcases List.mem_append.mp hmem with hmem | hmem
    · exact h.written sub' hmem
    · obtain rfl := List.mem_singleton.mp hmem
      exact hframe
  · intro out hout
    obtain ⟨sub', mac, hsub', heq, hmac⟩ := h.sent out hout
    exact ⟨sub', mac, hold hsub', heq, hmac⟩

/-- The accounts do not depend on the cache. -/
theorem Accounts.with_neighs {transit : List ℕ} {l : Ledger} (h : Accounts transit l)
    (neighs : NeighCache) : Accounts transit { l with neighs } :=
  ⟨h.length, h.via, h.known, h.once, h.sorted, h.intact, h.cached, h.written, h.sent⟩

/-- **What a reply does**: it releases the packets pending under its sender,
all of them, in order of submission, and no others.  The list of their
callbacks is taken out of the table before they run, so none of them can be
released twice. -/
theorem Accounts.reply {l : Ledger} (h : Accounts [] l) (addr : Ipv4Addr) (mac : MacAddr) :
    ∃ l' outs, l.reply addr mac = some l' ∧ Accounts [] l' ∧ l'.neighs = l.neighs ∧
      l'.pending = Function.update l.pending addr [] ∧ l'.tasks = l.tasks ∧
      l'.submissions = l.submissions ∧ l'.enqueued = l.enqueued ++ outs ∧
      List.Forall₂ (Leaves l mac) (l.pending addr) outs := by
  have htransit := h.reply_transit addr (l.replies ++ [(addr, mac)]) (List.subset_append_left _ _)
  obtain ⟨l', outs, hreply, haccounts, hsame, houts, hleaves⟩ := htransit.releaseAll mac (by
    intro w hw sub hsub
    obtain ⟨sub', hsub', hvia⟩ := h.via addr w hw
    obtain rfl : sub = sub' := Option.some.inj (hsub.symm.trans hsub')
    exact .inr (by simp [hvia]))
  exact ⟨l', outs, hreply, haccounts, hsame.neighs, hsame.pending, hsame.tasks,
    hsame.submissions, houts, hleaves⟩

/-- **What running a task does**: it releases the packet of the task.  The
packet is found through its wrapper, and the wrapper still holds it: nothing
else could have moved it. -/
theorem Accounts.task {l : Ledger} (h : Accounts [] l) {before after : List (ℕ × MacAddr)} {w : ℕ}
    {mac : MacAddr} (htasks : l.tasks = before ++ (w, mac) :: after) :
    ∃ l' sub, ({ l with tasks := before ++ after } : Ledger).release mac w = some l' ∧
      Accounts [] l' ∧ l'.neighs = l.neighs ∧ l'.pending = l.pending ∧
      l'.tasks = before ++ after ∧ l'.submissions = l.submissions ∧
      l.submissions[w]? = some sub ∧
      l'.enqueued = l.enqueued ++ [(w, { sub.frame with dstMacAddr := mac })] := by
  obtain ⟨l', sub, hrelease, haccounts, hsame, hsub, hout⟩ :=
    (h.task_transit htasks).release mac (by
      intro sub hsub
      obtain ⟨sub', hsub', hcached⟩ := h.cached (w, mac) (by simp [htasks])
      obtain rfl : sub = sub' := Option.some.inj (hsub.symm.trans hsub')
      exact .inl hcached)
  exact ⟨l', sub, hrelease, haccounts, hsame.neighs, hsame.pending, hsame.tasks,
    hsame.submissions, hsub, hout⟩

/-- **One step keeps the accounts.**  Between steps nothing is in transit;
within a reply the packets still to be released are (`transit`). -/
theorem Accounts.step {l l' : Ledger} {e : Netns.Event} {ran : Option (ℕ × MacAddr)}
    (h : Accounts [] l) (hstep : Step e ran l l') : Accounts [] l' := by
  cases hstep with
  | idle => exact h
  | learn _ addr mac => exact h.with_neighs _
  | forget _ addr he => exact h.with_neighs _
  | submit _ sub hcached hframe => exact h.submit hframe
  | reply _ addr mac neighs hneighs hreply =>
      obtain ⟨l₁, outs, hreply', haccounts, -⟩ := (h.with_neighs neighs).reply addr mac
      obtain rfl : l₁ = l' := Option.some.inj (hreply'.symm.trans hreply)
      exact haccounts
  | task _ before after w mac hfifo htasks hrelease =>
      obtain ⟨l₁, sub, hrelease', haccounts, -⟩ := h.task htasks
      obtain rfl : l₁ = l' := Option.some.inj (hrelease'.symm.trans hrelease)
      exact haccounts

/-- A new namespace owes nothing. -/
theorem accounts_create (neighs : NeighCache) (rt : RoutingTable) :
    Accounts [] (Netns.create neighs rt).ledger where
  length := rfl
  via := nofun
  known := nofun
  once := nofun
  sorted := fun _ => .nil
  intact := nofun
  cached := nofun
  written := nofun
  sent := nofun

end Ledger

namespace Netns

/-- Releasing succeeds in the namespace if it does in the ledger. -/
theorem onReply_total {s : Netns} {mac : MacAddr} {slots : List ℕ} {l : Ledger}
    (h : slots.foldlM (fun l w => l.release mac w) s.ledger = some l) :
    ∃ s', s.onReply mac slots = .ok s' := by
  induction slots generalizing s with
  | nil => exact ⟨s, rfl⟩
  | cons w slots ih =>
      rw [List.foldlM_cons] at h
      obtain ⟨l₁, hrelease, hrest⟩ := Option.bind_eq_some_iff.mp h
      obtain ⟨frame, hframe, -⟩ := Option.map_eq_some_iff.mp hrelease
      obtain ⟨s₁, hs₁⟩ : ∃ s₁, s.onResolved w mac = .ok s₁ := by
        rw [onResolved, show s.wrappers[w]? = some frame from hframe]
        exact ⟨_, rfl⟩
      have hledger := onResolved_ledger hs₁
      rw [hrelease, Option.some.injEq] at hledger
      obtain ⟨s', hs'⟩ := ih (by rw [← hledger]; exact hrest)
      exact ⟨s', by rw [onReply, hs₁]; exact hs'⟩

/-- A frame that holds a reply is processed as one. -/
theorem arpProcess_reply {frame : EthernetFrame} {inArp : ArpHeader} {rest : List Byte} (s : Netns)
    (hread : ArpHeader.consumeFromNet frame.skb.payload = some (inArp, rest))
    (htype : inArp.htype = 0x0001) (hptype : inArp.ptype = 0x0800) (hoper : inArp.oper = 0x0002) :
    s.arpProcess frame = s.processReply inArp := by
  have hpop := Skbuff.popFront_of_le (ArpHeader.fixed_consumeFromNet.of_eq_some hread).1
  have hrequest : ¬ inArp.oper = 0x0001 := by rw [hoper]; decide
  simp only [arpProcess]
  rw [consume_eq hread, ok_bind, hpop, ok_bind, if_pos ⟨htype.symm, hptype.symm⟩,
    if_neg hrequest, if_pos hoper]

/-- A reply is processed without a fault, and releases what is pending under
its sender. -/
theorem processReply_releases {s : Netns} (h : s.ledger.Accounts []) (inArp : ArpHeader) :
    ∃ s' outs, s.processReply inArp = .ok s' ∧
      s'.onReplies = Function.update s.onReplies inArp.spa [] ∧ s'.tasks = s.tasks ∧
      s'.enqueued = s.enqueued ++ outs ∧
      List.Forall₂ (s.ledger.Leaves inArp.sha) (s.onReplies inArp.spa) outs := by
  obtain ⟨neighs, hneighs⟩ : ∃ neighs,
      (s.arpUpdate inArp.sha inArp.spa).ledger = { s.ledger with neighs } := by
    rcases arpUpdate_ledger s inArp.sha inArp.spa with hupdate | hupdate
    · exact ⟨_, hupdate⟩
    · exact ⟨_, hupdate⟩
  obtain ⟨l, outs, hreply, -, -, hpending, htasks, -, houts, hleaves⟩ :=
    (h.with_neighs neighs).reply inArp.spa inArp.sha
  rw [← hneighs] at hreply
  set s₁ := s.arpUpdate inArp.sha inArp.spa
  have hfold : (s₁.onReplies inArp.spa).foldlM (fun l w => l.release inArp.sha w)
      ({ s₁ with
        onReplies := Function.update s₁.onReplies inArp.spa []
        replies := s₁.replies ++ [(inArp.spa, inArp.sha)] } : Netns).ledger = some l := hreply
  obtain ⟨s', hs'⟩ := onReply_total hfold
  obtain rfl : s'.ledger = l := Option.some.inj ((onReply_ledger hs').symm.trans hfold)
  exact ⟨s', outs, hs', hpending, htasks, houts, hleaves⟩

/-- A namespace with address 2 behind device 0, whose default gateway is 9. -/
def gateway : Netns :=
  create (fun addr => if addr = 2 then some 0x0A else none) ⟨fun _ => none, some ⟨9, 2, 0⟩⟩

/-- A packet for host 7 with room for the headers below it. -/
def toHost7 : Ipv4Packet where
  srcAddrv4 := 2
  dstAddrv4 := 7
  proto := 0x06
  skb := ⟨List.replicate 34 0, List.replicate 20 0, []⟩

/-- An ARP frame from the gateway. -/
def fromGateway (oper : BitVec 16) : EthernetFrame where
  srcMacAddr := 0x0B
  dstMacAddr := 0x0A
  proto := arpPROTO
  skb := ⟨List.replicate 14 0, ArpHeader.produceToNet
    { htype := 0x0001, ptype := 0x0800, hlen := 0x06, plen := 0x04, oper
      sha := 0x0B, spa := 9, tha := 0x0A, tpa := 2 }, []⟩
  dev := some 0

end Netns

end Mstack
