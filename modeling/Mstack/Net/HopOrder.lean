import Mstack.Net.Resolve

/-!
# Order towards one next hop

Two packets to the same next hop can leave by different routes: a pending one
with the reply that flushes its slot, a later one with a posted task, if the
cache has been filled in the meantime.  An ARP *request* from the next hop
fills the cache and flushes nothing, so that a later packet can overtake.

* `given`, `sent`, `tasked`, `pending` — what was submitted towards a next hop,
  what has left, what is in a posted task, what waits for a reply.
* `Lined` — the good situation: what has left, then what is pending, then what
  is in a task, is what was submitted, in that order.
* `Overtaken` — some packet has left before an earlier one.
* `Unblocked` — if the event runs a resolve task, nothing is pending under the
  next hop of its packet.

### One step, exactly

`Lined` lasts exactly as long as no task runs while something is pending under
its next hop; the first task that does overtakes, and nothing undoes that,
since what has left stays and what was given is only added to.  So `Lined.step`
has both directions, `Overtaken.step` is an invariant, and
`EventSystem.run_dichotomy` puts them together: `hop_order_iff_unblocked`.

### What is load-bearing

Only the oldest handler runs (`Event.Fifo`), as on an `io_context` with one
thread.  With more threads two tasks of one next hop could change places by
themselves.  And nobody resets the cache: after a reset a next hop that was
known is unknown again, with tasks already posted for it, and packets that wait
behind tasks break the order of the line itself.
-/

namespace Mstack

open EventSystem

/-- An entry that an update leaves missing was missing before. -/
theorem NeighCache.none_of_update {neighs : NeighCache} {addr a : Ipv4Addr} {mac : MacAddr}
    (h : neighs.update addr mac a = none) : neighs a = none := by
  rw [NeighCache.update_apply] at h
  split at h
  · cases h
  · exact h

namespace Ledger

/-- The next hop of submission `w`. -/
def hop (l : Ledger) (w : ℕ) : Option Ipv4Addr := (l.submissions[w]?).map Submission.via

/-- Those of `ws` that go to `addr`. -/
def toward (l : Ledger) (addr : Ipv4Addr) (ws : List ℕ) : List ℕ :=
  ws.filter fun w => l.hop w = some addr

/-- The submissions towards `addr`, in order. -/
def given (l : Ledger) (addr : Ipv4Addr) : List ℕ :=
  l.toward addr (List.range l.submissions.length)

/-- What has been enqueued towards `addr`, in order. -/
def sent (l : Ledger) (addr : Ipv4Addr) : List ℕ := l.toward addr (l.enqueued.map Prod.fst)

/-- What is in a task towards `addr`, in order. -/
def tasked (l : Ledger) (addr : Ipv4Addr) : List ℕ := l.toward addr (l.tasks.map Prod.fst)

/-- Everything towards a next hop stands in line: first what is pending, then
the tasks. -/
structure Lined (l : Ledger) : Prop where
  order : ∀ addr, l.sent addr ++ (l.pending addr ++ l.tasked addr) = l.given addr
  miss : ∀ addr, l.neighs addr = none → l.tasked addr = []

/-- Some packet has left before an earlier one to the same next hop. -/
def Overtaken (l : Ledger) : Prop := ∃ addr, ¬ l.sent addr <+: l.given addr

/-- In line, what has left is the first part of what was submitted. -/
theorem Lined.sent_isPrefix {l : Ledger} (h : Lined l) (addr : Ipv4Addr) :
    l.sent addr <+: l.given addr :=
  ⟨_, h.order addr⟩

/-! ## How the lists change

Three things happen to a packet: it is submitted, it is pending or in a task,
it leaves.  Each list changes at one end. -/

/-- The packets towards a next hop, of two lists. -/
theorem toward_append (l : Ledger) (addr : Ipv4Addr) (ws vs : List ℕ) :
    l.toward addr (ws ++ vs) = l.toward addr ws ++ l.toward addr vs :=
  List.filter_append ws vs

/-- Where the next hops agree, so do the lists. -/
theorem toward_congr {l l' : Ledger} {ws : List ℕ} (h : ∀ w ∈ ws, l'.hop w = l.hop w)
    (addr : Ipv4Addr) : l'.toward addr ws = l.toward addr ws := by
  apply List.filter_congr
  intro w hw
  rw [h w hw]

/-- The next hops are read off the submissions. -/
theorem toward_of_submissions {l l' : Ledger} (h : l'.submissions = l.submissions)
    (addr : Ipv4Addr) (ws : List ℕ) : l'.toward addr ws = l.toward addr ws :=
  toward_congr (fun w _ => by rw [hop, hop, h]) addr

/-- A list of packets that all go to `addr`. -/
theorem toward_of_hop {l : Ledger} {ws : List ℕ} {addr : Ipv4Addr}
    (h : ∀ w ∈ ws, l.hop w = some addr) (addr' : Ipv4Addr) :
    l.toward addr' ws = if addr' = addr then ws else [] := by
  split
  · rename_i heq
    apply List.filter_eq_self.mpr
    intro w hw
    simp [h w hw, heq]
  · rename_i hne
    apply List.filter_eq_nil_iff.mpr
    intro w hw
    simp [h w hw, Ne.symm hne]

/-- A submission does not change the ones before it. -/
theorem hop_submit_old {l : Ledger} {sub : Submission} {w : ℕ} (hw : w < l.submissions.length) :
    (l.submit sub).hop w = l.hop w := by
  simp only [hop, submit, List.getElem?_append_left hw]

/-- The new one goes to its own next hop. -/
theorem hop_submit_new (l : Ledger) (sub : Submission) :
    (l.submit sub).hop l.submissions.length = some sub.via := by
  simp [hop, submit]

/-- A submission is added to the line of its next hop. -/
theorem given_submit (l : Ledger) (sub : Submission) (addr : Ipv4Addr) :
    (l.submit sub).given addr
      = l.given addr ++ if addr = sub.via then [l.submissions.length] else [] := by
  have hlen : (l.submit sub).submissions.length = l.submissions.length + 1 := by simp [submit]
  have hold : (l.submit sub).toward addr (List.range l.submissions.length) = l.given addr :=
    toward_congr (fun w hw => hop_submit_old (List.mem_range.mp hw)) addr
  have hnew : (l.submit sub).toward addr [l.submissions.length]
      = if addr = sub.via then [l.submissions.length] else [] :=
    toward_of_hop (by simp [hop_submit_new]) addr
  rw [given, hlen, List.range_succ, toward_append, hold, hnew]

/-- Nothing leaves when a packet is submitted. -/
theorem sent_submit {l : Ledger} (h : Accounts [] l) (sub : Submission) (addr : Ipv4Addr) :
    (l.submit sub).sent addr = l.sent addr := by
  apply toward_congr
  intro w hw
  have hw : w ∈ l.enqueued.map Prod.fst := hw
  exact hop_submit_old (h.known w (List.mem_append_right _ hw))

/-- A submission whose address is known becomes a task. -/
theorem tasked_submit {l : Ledger} (h : Accounts [] l) (sub : Submission) (addr : Ipv4Addr) :
    (l.submit sub).tasked addr = l.tasked addr ++
      if sub.cached = none then [] else if addr = sub.via then [l.submissions.length] else [] := by
  have hold : (l.submit sub).toward addr (l.tasks.map Prod.fst) = l.tasked addr := by
    apply toward_congr
    intro w hw
    exact hop_submit_old (h.known w (List.mem_append_left _ hw))
  have hnew : (l.submit sub).toward addr [l.submissions.length]
      = if addr = sub.via then [l.submissions.length] else [] :=
    toward_of_hop (by simp [hop_submit_new]) addr
  rw [tasked, submit_tasks, h.length, toward_append, hold]
  split
  · rfl
  · rw [hnew]

/-- A submission whose address is not known is pending. -/
theorem pending_submit {l : Ledger} (h : Accounts [] l) (sub : Submission) (addr : Ipv4Addr) :
    (l.submit sub).pending addr = l.pending addr ++
      if sub.cached = none then if addr = sub.via then [l.submissions.length] else [] else [] := by
  rw [submit_pending, h.length]
  by_cases hmiss : sub.cached = none <;> simp [hmiss]

/-- Releasing packets adds them to what has left. -/
theorem sent_of_enqueued {l l' : Ledger} {outs : List (ℕ × EthernetFrame)}
    (hsubs : l'.submissions = l.submissions) (houts : l'.enqueued = l.enqueued ++ outs)
    (addr : Ipv4Addr) : l'.sent addr = l.sent addr ++ l.toward addr (outs.map Prod.fst) := by
  rw [sent, houts, List.map_append, toward_append, toward_of_submissions hsubs,
    toward_of_submissions hsubs]
  rfl

/-- What was given is read off the submissions. -/
theorem given_of_submissions {l l' : Ledger} (hsubs : l'.submissions = l.submissions)
    (addr : Ipv4Addr) : l'.given addr = l.given addr := by
  rw [given, given, toward_of_submissions hsubs, hsubs]

/-- What leaves are the packets that were released. -/
theorem map_fst_of_leaves {l : Ledger} {mac : MacAddr} {ws : List ℕ}
    {outs : List (ℕ × EthernetFrame)} (h : List.Forall₂ (Leaves l mac) ws outs) :
    outs.map Prod.fst = ws := by
  induction h with
  | nil => rfl
  | cons hleaves _ ih =>
      obtain ⟨sub, -, rfl⟩ := hleaves
      rw [List.map_cons, ih]

/-- What is pending under an address goes to it. -/
theorem Accounts.hop_of_pending {l : Ledger} (h : Accounts [] l) {addr : Ipv4Addr} {w : ℕ}
    (hw : w ∈ l.pending addr) : l.hop w = some addr := by
  obtain ⟨sub, hsub, rfl⟩ := h.via addr w hw
  rw [hop, hsub]
  rfl

/-- A packet in a task is not pending. -/
theorem Accounts.notMem_pending {l : Ledger} (h : Accounts [] l) {w : ℕ}
    (hw : w ∈ l.tasks.map Prod.fst) (addr : Ipv4Addr) : w ∉ l.pending addr := by
  intro hpending
  obtain ⟨sub, hsub, rfl⟩ := h.via addr w hpending
  have honce := h.once w sub hsub
  have htask := List.count_pos_iff.mpr hw
  have hslot := List.count_pos_iff.mpr hpending
  omega

/-! ## One step

The step relation of the ledger has a case for each event; the next hop of the
packet is what the lemmas follow. -/

/-- A reply hands on what is pending under its sender. -/
theorem Lined.reply {l l' : Ledger} (h : Accounts [] l) (hl : Lined l) {addr : Ipv4Addr}
    {mac : MacAddr} {neighs : NeighCache}
    (hneighs : neighs = l.neighs ∨ neighs = l.neighs.update addr mac)
    (hreply : ({ l with neighs } : Ledger).reply addr mac = some l') : Lined l' := by
  obtain ⟨l₁, outs, hreply', -, hcache, hpending, htasks, hsubs, houts, hleaves⟩ :=
    (h.with_neighs neighs).reply addr mac
  obtain rfl : l₁ = l' := Option.some.inj (hreply'.symm.trans hreply)
  have hids : outs.map Prod.fst = l.pending addr := map_fst_of_leaves hleaves
  have htasked (a : Ipv4Addr) : l₁.tasked a = l.tasked a := by
    rw [tasked, htasks, toward_of_submissions hsubs]
    rfl
  have hout (a : Ipv4Addr) : l.toward a (l.pending addr) = if a = addr then l.pending addr else [] :=
    toward_of_hop (fun w hw => h.hop_of_pending hw) a
  refine ⟨fun a => ?_, fun a ha => ?_⟩
  · have hsent : l₁.sent a = l.sent a ++ l.toward a (l.pending addr) := by
      rw [sent_of_enqueued hsubs houts, hids]
      rfl
    rw [hsent, hout, htasked, hpending, given_of_submissions hsubs]
    refine Eq.trans ?_ (hl.order a)
    by_cases haddr : a = addr
    · subst haddr
      rw [if_pos rfl, Function.update_self, List.nil_append, List.append_assoc]
    · rw [if_neg haddr, Function.update_of_ne haddr, List.append_nil]
  · rw [htasked]
    apply hl.miss a
    rw [hcache] at ha
    rcases hneighs with rfl | rfl
    · exact ha
    · exact NeighCache.none_of_update ha

/-- A submitted packet goes to the end of the line. -/
theorem Lined.submit {l : Ledger} (h : Accounts [] l) (hl : Lined l) {sub : Submission}
    (hcached : sub.cached = l.neighs sub.via) : Lined (l.submit sub) := by
  refine ⟨fun addr => ?_, fun addr haddr => ?_⟩
  · rw [sent_submit h, pending_submit h, tasked_submit h, given_submit, ← hl.order addr]
    by_cases hmiss : sub.cached = none
    · rw [if_pos hmiss, if_pos hmiss]
      by_cases hvia : addr = sub.via
      · -- There is no task to wait behind: the next hop is not cached.
        rw [hl.miss addr (by rw [hvia, ← hcached, hmiss])]
        simp only [List.append_nil, List.append_assoc]
      · simp only [if_neg hvia, List.append_nil]
    · rw [if_neg hmiss, if_neg hmiss]
      simp only [List.append_nil, List.append_assoc]
  · have haddr : l.neighs addr = none := haddr
    rw [tasked_submit h, hl.miss addr haddr, List.nil_append]
    by_cases hvia : addr = sub.via
    · rw [if_pos (by rw [hcached, ← hvia, haddr])]
    · rw [if_neg hvia, ite_self]

/-- What a task that is first in line does to the lists. -/
theorem Accounts.task_lists {l l' : Ledger} (h : Accounts [] l) {after : List (ℕ × MacAddr)}
    {w : ℕ} {mac : MacAddr} (htasks : l.tasks = (w, mac) :: after)
    (hrelease : ({ l with tasks := after } : Ledger).release mac w = some l') (addr : Ipv4Addr) :
    l'.neighs = l.neighs ∧ l'.pending = l.pending ∧ l'.given addr = l.given addr ∧
      l'.sent addr = l.sent addr ++ l.toward addr [w] ∧
      l.tasked addr = l.toward addr [w] ++ l'.tasked addr := by
  have hfirst : l.tasks = [] ++ (w, mac) :: after := htasks
  obtain ⟨l₁, sub, hrelease', -, hneighs, hpending, htasks', hsubs, hsub, houts⟩ := h.task hfirst
  obtain rfl : l₁ = l' := Option.some.inj (hrelease'.symm.trans hrelease)
  refine ⟨hneighs, hpending, given_of_submissions hsubs addr, ?_, ?_⟩
  · exact sent_of_enqueued hsubs houts addr
  · have htasked : l₁.tasked addr = l.toward addr (after.map Prod.fst) := by
      rw [tasked, htasks', toward_of_submissions hsubs]
      rfl
    rw [htasked, ← toward_append, tasked, htasks]
    rfl

/-- A task that runs while nothing is pending under its next hop leaves the
rest in line. -/
theorem Lined.task {l l' : Ledger} (h : Accounts [] l) (hl : Lined l)
    {after : List (ℕ × MacAddr)} {w : ℕ} {mac : MacAddr} (htasks : l.tasks = (w, mac) :: after)
    (hrelease : ({ l with tasks := after } : Ledger).release mac w = some l')
    (hfree : ∀ addr, l.hop w = some addr → l.pending addr = []) : Lined l' := by
  refine ⟨fun addr => ?_, fun addr haddr => ?_⟩
  · obtain ⟨-, hpending, hgiven, hsent, htasked⟩ := h.task_lists htasks hrelease addr
    have horder := hl.order addr
    rw [htasked] at horder
    rw [hpending, hgiven, hsent, ← horder]
    by_cases hw : l.hop w = some addr
    · rw [hfree addr hw, List.nil_append, List.nil_append, List.append_assoc]
    · have hother : l.toward addr [w] = [] := by simp [toward, hw]
      rw [hother, List.append_nil, List.nil_append]
  · obtain ⟨hneighs, -, -, -, htasked⟩ := h.task_lists htasks hrelease addr
    rw [hl.miss addr (hneighs ▸ haddr)] at htasked
    exact (List.append_eq_nil_iff.mp htasked.symm).2

/-- A task that runs while something is pending under its next hop overtakes
it. -/
theorem Lined.overtaken {l l' : Ledger} (h : Accounts [] l) (hl : Lined l)
    {after : List (ℕ × MacAddr)} {w : ℕ} {mac : MacAddr} (htasks : l.tasks = (w, mac) :: after)
    (hrelease : ({ l with tasks := after } : Ledger).release mac w = some l') {addr : Ipv4Addr}
    (hw : l.hop w = some addr) (hblocked : l.pending addr ≠ []) : Overtaken l' := by
  refine ⟨addr, fun hpre => ?_⟩
  obtain ⟨-, -, hgiven, hsent, -⟩ := h.task_lists htasks hrelease addr
  have hself : l.toward addr [w] = [w] := by simp [toward, hw]
  rw [hgiven, hsent, hself, ← hl.order addr, List.prefix_append_right_inj] at hpre
  obtain ⟨v, rest, hpending⟩ := List.exists_cons_of_ne_nil hblocked
  rw [hpending, List.cons_append, List.cons_prefix_cons] at hpre
  have hmem : w ∈ l.tasks.map Prod.fst := by simp [htasks]
  exact h.notMem_pending hmem addr (by rw [hpending, hpre.1]; exact List.mem_cons_self)

/-- What has left stays, and what is given is only added to. -/
theorem Overtaken.step {l l' : Ledger} {e : Netns.Event} {ran : Option (ℕ × MacAddr)}
    (h : Accounts [] l) (hl : Overtaken l) (hstep : Step e ran l l') : Overtaken l' := by
  obtain ⟨addr, hnot⟩ := hl
  refine ⟨addr, fun hpre => hnot ?_⟩
  cases hstep with
  | idle => exact hpre
  | learn _ a mac => exact hpre
  | forget _ a he => exact hpre
  | submit _ sub hcached hframe =>
      rw [sent_submit h, given_submit] at hpre
      split at hpre
      · rcases List.prefix_concat_iff.mp hpre with heq | hpre
        · exfalso
          have hmem : l.submissions.length ∈ l.sent addr := by simp [heq]
          have hid := (List.mem_filter.mp hmem).1
          exact lt_irrefl _ (h.known _ (List.mem_append_right _ hid))
        · exact hpre
      · rwa [List.append_nil] at hpre
  | reply _ a mac neighs hneighs hreply =>
      obtain ⟨l₁, outs, hreply', -, -, -, -, hsubs, houts, -⟩ := (h.with_neighs neighs).reply a mac
      obtain rfl : l₁ = l' := Option.some.inj (hreply'.symm.trans hreply)
      rw [sent_of_enqueued hsubs houts, given_of_submissions hsubs] at hpre
      exact (List.prefix_append _ _).trans hpre
  | task _ before after w mac hfifo htasks hrelease =>
      obtain ⟨l₁, sub, hrelease', -, -, -, -, hsubs, -, houts⟩ := h.task htasks
      obtain rfl : l₁ = l' := Option.some.inj (hrelease'.symm.trans hrelease)
      rw [sent_of_enqueued hsubs houts, given_of_submissions hsubs] at hpre
      exact (List.prefix_append _ _).trans hpre

/-- Nothing is pending under the next hop of the task that runs, if one does. -/
def Free (l : Ledger) (ran : Option (ℕ × MacAddr)) : Prop :=
  ∀ task ∈ ran, ∀ addr, l.hop task.1 = some addr → l.pending addr = []

/-- **One step**: the line holds exactly as long as every task finds the way
free.  The hypotheses say that no entry is erased and that the loop runs
handlers in turn. -/
theorem Lined.step {l l' : Ledger} {e : Netns.Event} {ran : Option (ℕ × MacAddr)}
    (h : Accounts [] l) (hl : Lined l) (hstep : Step e ran l l')
    (hreset : ∀ addr, e ≠ .reset addr) (hfifo : ran ≠ none → ∃ junk, e = .handler junk 0) :
    (l.Free ran → Lined l') ∧ (¬ l.Free ran → Overtaken l') := by
  have hnone : l.Free none := nofun
  cases hstep with
  | idle => exact ⟨fun _ => hl, absurd hnone⟩
  | learn _ addr mac =>
      exact ⟨fun _ => ⟨hl.order, fun a ha => hl.miss a (NeighCache.none_of_update ha)⟩,
        absurd hnone⟩
  | forget _ addr he => exact absurd he (hreset addr)
  | submit _ sub hcached hframe => exact ⟨fun _ => hl.submit h hcached, absurd hnone⟩
  | reply _ addr mac neighs hneighs hreply =>
      exact ⟨fun _ => hl.reply h hneighs hreply, absurd hnone⟩
  | task _ before after w mac hbefore htasks hrelease =>
      obtain rfl := hbefore (hfifo nofun)
      constructor
      · intro hfree
        exact hl.task h htasks hrelease (hfree (w, mac) rfl)
      · intro hnot
        simp only [Free, Option.mem_def, Option.some.injEq, forall_eq', not_forall] at hnot
        obtain ⟨addr, hw, hblocked⟩ := hnot
        exact hl.overtaken h htasks hrelease hw hblocked

/-- What leaves in line leaves in the order of submission. -/
theorem Lined.pairwise {l : Ledger} (hl : Lined l) :
    (l.enqueued.map Prod.fst).Pairwise fun w v => ∀ addr, l.hop w = some addr →
      l.hop v = some addr → w < v := by
  rw [List.pairwise_iff_forall_sublist]
  intro w v hsub addr hw hv
  have hself : l.toward addr [w, v] = [w, v] := by simp [toward, hw, hv]
  have hsent : [w, v].Sublist (l.sent addr) := by
    rw [← hself]
    exact hsub.filter _
  have hgiven : [w, v].Sublist (List.range l.submissions.length) :=
    (hsent.trans (hl.sent_isPrefix addr).sublist).trans List.filter_sublist
  exact List.pairwise_iff_forall_sublist.mp List.pairwise_lt_range hgiven

/-- A new namespace has nothing in line. -/
theorem lined_create (neighs : NeighCache) (rt : RoutingTable) :
    Lined (Netns.create neighs rt).ledger where
  order := fun _ => rfl
  miss := fun _ _ => rfl

end Ledger

/-! ## Every run

From the ledger back to the namespace. -/

namespace Netns

/-- What a single-threaded `io_context` does, while nobody resets the cache:
only the oldest handler runs. -/
def Event.Fifo : Event → Prop
  | .reset _ => False
  | .handler _ i => i = 0
  | _ => True

/-- If the event runs a resolve task, then nothing is pending under the next
hop of its packet. -/
def Unblocked (s : Netns) (e : Event) : Prop :=
  ∀ task ∈ s.ran e, ∀ sub ∈ s.submissions[task.1]?, s.onReplies sub.via = []

/-- Packets to one next hop have been enqueued in the order in which they were
submitted. -/
def InOrder (s : Netns) : Prop :=
  s.enqueued.Pairwise fun a b => ∀ sub ∈ s.submissions[a.1]?, ∀ sub' ∈ s.submissions[b.1]?,
    sub.via = sub'.via → a.1 < b.1

instance (s : Netns) (e : Event) : Decidable (Unblocked s e) :=
  inferInstanceAs (Decidable (∀ task ∈ s.ran e, ∀ sub ∈ s.submissions[task.1]?,
    s.onReplies sub.via = []))

instance (s : Netns) : Decidable s.InOrder :=
  inferInstanceAs (Decidable (s.enqueued.Pairwise fun a b =>
    ∀ sub ∈ s.submissions[a.1]?, ∀ sub' ∈ s.submissions[b.1]?, sub.via = sub'.via → a.1 < b.1))

/-- The next hop of a submission. -/
theorem hop_of_mem {s : Netns} {w : ℕ} {sub : Submission} (h : sub ∈ s.submissions[w]?) :
    s.ledger.hop w = some sub.via :=
  Option.map_eq_some_iff.mpr ⟨sub, h, rfl⟩

/-- The two ways to say that the way is free. -/
theorem unblocked_iff_free (s : Netns) (e : Event) : Unblocked s e ↔ s.ledger.Free (s.ran e) := by
  constructor
  · intro h task htask addr hw
    obtain ⟨sub, hsub, rfl⟩ := Option.map_eq_some_iff.mp hw
    exact h task htask sub hsub
  · intro h task htask sub hsub
    exact h task htask sub.via (hop_of_mem hsub)

/-- A namespace in line is in order. -/
theorem inOrder_of_lined {s : Netns} (h : s.ledger.Lined) : s.InOrder := by
  refine (List.pairwise_map.mp h.pairwise).imp ?_
  intro a b hlt sub hsub sub' hsub' hvia
  exact hlt sub.via (hop_of_mem hsub) (hvia ▸ hop_of_mem hsub')

theorem Event.Fifo.of_ran {s : Netns} {e : Event} (he : e.Fifo) (hran : s.ran e ≠ none) :
    ∃ junk, e = .handler junk 0 := by
  cases e with
  | handler junk i => exact ⟨junk, by rw [show i = 0 from he]⟩
  | _ => exact absurd rfl hran

/-- A run ends in line, or with a packet overtaken. -/
theorem lined_or_overtaken {neighs : NeighCache} {rt : RoutingTable} {es : List Event} {s : Netns}
    (hfifo : ∀ e ∈ es, e.Fifo) (hrun : run step (create neighs rt) es = .ok s) :
    (Admitted step Unblocked (create neighs rt) es ∧ s.ledger.Accounts [] ∧ s.ledger.Lined) ∨
      (¬ Admitted step Unblocked (create neighs rt) es ∧
        s.ledger.Accounts [] ∧ s.ledger.Overtaken) := by
  refine run_dichotomy (P := fun s => s.ledger.Accounts [] ∧ s.ledger.Lined)
    (L := fun s => s.ledger.Accounts [] ∧ s.ledger.Overtaken) ?_ ?_
    ⟨Ledger.accounts_create neighs rt, Ledger.lined_create neighs rt⟩
    (admitted_of_mem (fun e he _ => hfifo e he) _) hrun
  · rintro s e s' ⟨haccounts, hlined⟩ he hstep
    have hreset : ∀ addr, e ≠ .reset addr := by
      rintro addr rfl
      exact he
    have hledger := step_ledger hstep
    obtain ⟨hgood, hbad⟩ := hlined.step haccounts hledger hreset (Event.Fifo.of_ran he)
    rw [unblocked_iff_free]
    exact ⟨fun hfree => ⟨haccounts.step hledger, hgood hfree⟩,
      fun hnot => ⟨haccounts.step hledger, hbad hnot⟩⟩
  · rintro s e s' ⟨haccounts, hover⟩ _ hstep
    have hledger := step_ledger hstep
    exact ⟨haccounts.step hledger, hover.step haccounts hledger⟩

/-- **Packets to one next hop keep their order exactly if no posted task
overtakes.**  For every interleaving of submissions, ARP traffic and handlers
run oldest first: what has been enqueued towards each next hop is the first
part of what was submitted towards it, if and only if no resolve task ran while
a packet was pending under its next hop.  In such a run any two packets to one
next hop have been enqueued in the order of submission. -/
theorem hop_order_iff_unblocked {neighs : NeighCache} {rt : RoutingTable} {es : List Event}
    {s : Netns} (hfifo : ∀ e ∈ es, e.Fifo) (hrun : run step (create neighs rt) es = .ok s) :
    (Admitted step Unblocked (create neighs rt) es ↔
      ∀ addr, s.ledger.sent addr <+: s.ledger.given addr) ∧
    (Admitted step Unblocked (create neighs rt) es → s.InOrder) := by
  rcases lined_or_overtaken hfifo hrun with ⟨hadm, -, hlined⟩ | ⟨hnot, -, addr, hover⟩
  · exact ⟨iff_of_true hadm hlined.sent_isPrefix, fun _ => inOrder_of_lined hlined⟩
  · exact ⟨iff_of_false hnot fun hpre => hover (hpre addr), fun hadm => absurd hadm hnot⟩

/-- A packet, the gateway's reply, another packet: the run is unblocked, and
both leave in order. -/
theorem gateway_in_order :
    ∃ s, run step gateway [.ipv4Process (fun _ => 0) toHost7, .arpProcess (fromGateway 2),
        .ipv4Process (fun _ => 0) toHost7, .handler (fun _ => 0) 0, .handler (fun _ => 0) 0,
        .handler (fun _ => 0) 0] = .ok s ∧
      s.enqueued.map Prod.fst = [0, 1] ∧ s.InOrder := by
  set es : List Event := [.ipv4Process (fun _ => 0) toHost7, .arpProcess (fromGateway 2),
    .ipv4Process (fun _ => 0) toHost7, .handler (fun _ => 0) 0, .handler (fun _ => 0) 0,
    .handler (fun _ => 0) 0]
  have hfifo : ∀ e ∈ es, e.Fifo := by simp [es, Event.Fifo]
  have hadm : Admitted step Unblocked gateway es := by decide +kernel
  obtain ⟨s, hrun⟩ : ∃ s, run step gateway es = .ok s := ⟨_, rfl⟩
  have hids : s.enqueued.map Prod.fst = [0, 1] := by
    cases hrun
    rfl
  exact ⟨s, hrun, hids, (hop_order_iff_unblocked hfifo hrun).2 hadm⟩

/-- A packet, a request of the gateway, another packet, then the gateway's
reply: the request fills the cache and leaves the first packet pending, so that
the second is enqueued first. -/
theorem gateway_overtaken :
    ∃ s, run step gateway [.ipv4Process (fun _ => 0) toHost7, .arpProcess (fromGateway 1),
        .ipv4Process (fun _ => 0) toHost7, .handler (fun _ => 0) 0, .handler (fun _ => 0) 0,
        .handler (fun _ => 0) 0, .arpProcess (fromGateway 2)] = .ok s ∧
      s.submissions.map Submission.via = [9, 9] ∧ s.enqueued.map Prod.fst = [1, 0] ∧
      ¬ s.InOrder := by
  refine ⟨_, rfl, rfl, rfl, ?_⟩
  decide +kernel

end Netns

end Mstack
