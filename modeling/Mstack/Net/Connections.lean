import Mstack.Lib.Component
import Mstack.Net.Stray

/-!
# One connection among many

The blocks of `tcb_manager` share an `io_context`, an application, and the
queue to the layer below.  A handler of one block may invoke a callback that
reads and writes on the sockets of others, opens further connections, and only
then goes on.

For a block this is all the same.  `Accepting.seen` says what an event of the
manager is to the block with a given key: a segment, calls, a handler with the
calls on this block that its callback makes, or nothing.  The table is composed
of its blocks in the sense of `Lib.Component`: what happens to a block is what
these events do to it alone, and the manager aborts on a block only where the
block does.  So whatever is proved about every run of one block holds of every
connection of a host.

* `Tcb.Addressed` — the packets of a block carry the endpoints it was made
  with.
* `Conn.step`, `Conn.run` — a block of the table, run alone.
* `BlockEvolves`, `BlockFails` — what becomes of the block with a key, given
  the events it has seen.
* `composed` — **the table is composed of its blocks.**
* `connections_run_alone` — what this says of every run.

### The one difficulty

A handler is one event of its own block and several calls on others,
interleaved: it begins, the callback runs, it ends.  For the block itself
`Tcb.step` has the calls *inside* the handler; for the others they are separate
calls.  `runTask_eq` splits a handler into the calls and the rest, and
`own_calls` follows both through the manager, where the block of the handler is
called by its own callback or by none.

### What is load-bearing

A fault anywhere ends the program, so "does not interfere" has two halves.
Where the run goes through, each block is what it would have become alone;
where it aborts on a block, *one* block alone aborts with the same fault.  The
second half is what `blames` is for, and without it the first would be silent
about the runs that matter.
-/

namespace Mstack

open EventSystem

/-! ## What a block sends

A packet has the endpoints of the block, whatever the event that made it. -/

namespace Tcb

/-- The packets of the block carry the endpoints it was made with. -/
structure Addressed (key : TwoEnds) (t : Tcb) : Prop where
  remoteEp : t.remoteEp = key.remoteEp
  localEp : t.localEp = key.localEp
  packets : ∀ pkt ∈ t.mngr, pkt.twoEnd = key

section Addressed

variable {key : TwoEnds} {isn : BitVec 32} {t t' : Tcb} {seg : Segment}

/-- What a step leaves alone that neither sends nor touches the endpoints. -/
theorem Addressed.congr (h : Addressed key t) (hremote : t'.remoteEp = t.remoteEp)
    (hlocal : t'.localEp = t.localEp) (hmngr : t'.mngr = t.mngr) : Addressed key t' :=
  ⟨hremote.trans h.remoteEp, hlocal.trans h.localEp, hmngr ▸ h.packets⟩

/-- One more packet with these endpoints. -/
theorem Addressed.concat (h : Addressed key t) {pkt : TcpPacket} (hpkt : pkt.twoEnd = key)
    (hremote : t'.remoteEp = t.remoteEp) (hlocal : t'.localEp = t.localEp)
    (hmngr : t'.mngr = t.mngr ++ [pkt]) : Addressed key t' := by
  refine ⟨hremote.trans h.remoteEp, hlocal.trans h.localEp, fun p hp => ?_⟩
  rw [hmngr] at hp
  rcases List.mem_append.mp hp with hold | hnew
  · exact h.packets p hold
  · rw [List.mem_singleton.mp hnew]
    exact hpkt

/-- The endpoints of the block are its key. -/
theorem Addressed.twoEnd (h : Addressed key t) : (⟨t.remoteEp, t.localEp⟩ : TwoEnds) = key := by
  rw [h.remoteEp, h.localEp]

/-- **Sending a packet.** -/
theorem Addressed.afterPacket (h : Addressed key t) (pq : CircularBuffer Byte) :
    Addressed key (t.afterPacket pq) := by
  have htwoEnd : (t.packetOut pq).twoEnd = key := h.twoEnd
  exact h.concat htwoEnd rfl rfl rfl

/-- The ACK step sends packets of this block. -/
theorem AckOutcome.addressed {flow : Flow} (hack : AckOutcome t seg flow) (h : Addressed key t) :
    Addressed key flow.block := by
  cases hack with
  | data _ _ pq _ _ =>
      obtain ⟨n, hn⟩ := (t.ackData pq seg.tcph.ackNo).ackNextState_eq
      rw [hn]
      exact h.congr rfl rfl rfl
  | unsent _ _ pq pq' _ _ _ =>
      have hdata : Addressed key (t.ackData pq seg.tcph.ackNo) := h.congr rfl rfl rfl
      exact hdata.afterPacket pq'
  | timeWait _ _ pq _ => exact h.afterPacket pq
  | _ => exact h.congr rfl rfl rfl

/-- The text step sends nothing. -/
theorem TextOutcome.addressed (htext : TextOutcome t seg t') (h : Addressed key t) :
    Addressed key t' := by
  cases htext <;> exact h.congr rfl rfl rfl

/-- The FIN step sends packets of this block. -/
theorem FinOutcome.addressed (hfin : FinOutcome t seg t') (h : Addressed key t) :
    Addressed key t' := by
  cases hfin with
  | closed _ _ pq _ =>
      have hclosing : Addressed key ((t.advanceRcvNext 1).setNextState .closeWait) :=
        h.congr rfl rfl rfl
      exact (hclosing.afterPacket pq).congr rfl rfl rfl
  | _ => exact h.congr rfl rfl rfl

/-- **An arriving segment.**  The endpoints are members of the block that no
step writes, and `make_packet` copies them. -/
theorem Addressed.process (h : Addressed key t) (hprocess : t.process isn seg = .ok t') :
    Addressed key t' := by
  cases process_cases hprocess with
  | unchanged _ => exact h
  | passiveOpen _ _ _ _ opts _ =>
      have hopened : Addressed key (t.acceptSyn isn seg opts) := h.congr rfl rfl rfl
      exact hopened.afterPacket _
  | activeOpen _ _ _ _ _ opts _ =>
      have hopened : Addressed key (t.acceptSynAck seg opts) := h.congr rfl rfl rfl
      exact (hopened.afterPacket _).congr rfl rfl rfl
  | returned _ _ hack => exact hack.addressed h
  | continued _ _ hack htext hfin => exact hfin.addressed (htext.addressed (hack.addressed h))

/-- **One event.**  So the packets of a block can be told from those of the
others by their endpoints. -/
theorem Addressed.step {e : Event} (h : Addressed key t) (hstep : step isn t e = .ok t') :
    Addressed key t' := by
  have hok : EventOk (fun _ _ => True) (fun _ _ => True) t e :=
    eventOk_of_forall (fun _ _ => trivial) (fun _ _ => trivial) t e
  refine step_induction (P := Addressed key) ?_ ?_ ?_ ?_ t e t' h hok hstep
  · exact fun u seg u' hu _ hprocess => hu.process hprocess
  · intro u c u' hu _ hcall
    cases appCall_cases hcall <;> exact hu.congr rfl rfl rfl
  · intro u k task hu _
    rw [enterTask_eq]
    exact hu.congr rfl rfl rfl
  · exact fun u pq hu _ => hu.afterPacket pq

end Addressed

/-- The calls inside the callback of a handler come before the rest of it. -/
theorem runTask_eq (t : Tcb) {calls : List AppCall} {task : Task}
    (h : task = .sendLoop → calls = []) :
    t.runTask calls task = t.appCalls calls >>= fun u => u.runTask [] task := by
  cases task with
  | sendLoop =>
      rw [h rfl]
      rfl
  | readDone cb len => rfl
  | connectionEstablished =>
      show t.appCalls calls = t.appCalls calls >>= fun u => .ok u
      cases t.appCalls calls <;> rfl
  | writeDone cb len =>
      show t.appCalls calls = t.appCalls calls >>= fun u => .ok u
      cases t.appCalls calls <;> rfl

/-- Calls one by one are calls all at once. -/
theorem run_calls (isn : BitVec 32) (t : Tcb) (calls : List AppCall) :
    EventSystem.run (step isn) t (calls.map Event.call) = t.appCalls calls := by
  induction calls generalizing t with
  | nil => rfl
  | cons c calls ih =>
      rw [List.map_cons, run_cons]
      show t.appCall c >>= _ = t.appCall c >>= _
      cases t.appCall c with
      | error f => rfl
      | ok u => exact ih u

end Tcb

/-! ## A block of the table

An entry of `tcbs_`, and the functions of the manager that touch one. -/

namespace Conn

variable {γ : Type}

/-- An event at a block of the table. -/
def step (c : Conn γ) (e : Event) : Except Fault (Conn γ) := do
  return { c with tcb := ← c.tcb.step c.isn e }

/-- A run of the block alone. -/
def run (c : Conn γ) (es : List Event) : Except Fault (Conn γ) := EventSystem.run step c es

/-- The block of a connection as `process` or `async_connect` makes it. -/
structure Born (key : TwoEnds) (c : Conn γ) : Prop where
  opened : Tcb.Opened c.isn c.tcb
  addressed : c.tcb.Addressed key

variable {c c' : Conn γ} {t : Tcb} {es : List Event}

/-- A step of the block is a step of its `tcb_t`. -/
theorem step_map (c : Conn γ) (t : Tcb) (e : Event) :
    step { c with tcb := t } e = (Tcb.step c.isn t e).map fun t => { c with tcb := t } := by
  rw [step]
  cases Tcb.step c.isn t e <;> rfl

/-- A run of the block is a run of its `tcb_t`. -/
theorem run_ok : c.run es = .ok c' ↔
    ∃ t, Tcb.run c.isn c.tcb es = .ok t ∧ c' = { c with tcb := t } :=
  run_map_ok c.step_map

/-- It aborts where its `tcb_t` does. -/
theorem run_error {f : Fault} :
    c.run es = .error f ↔ Tcb.run c.isn c.tcb es = .error f :=
  run_map_error c.step_map

/-- One event. -/
theorem run_single_ok {e : Event} (h : c.tcb.step c.isn e = .ok t) :
    EventSystem.run step c [e] = .ok { c with tcb := t } := by
  rw [run_cons, step, h]
  rfl

/-- The same for an abort. -/
theorem run_single_error {e : Event} {f : Fault} (h : c.tcb.step c.isn e = .error f) :
    EventSystem.run step c [e] = .error f := by
  rw [run_cons, step, h]
  rfl

/-- The endpoints stay. -/
theorem run_addressed {key : TwoEnds} (h : c.tcb.Addressed key) (hrun : c.run es = .ok c') :
    c'.tcb.Addressed key := by
  obtain ⟨t, ht, rfl⟩ := run_ok.mp hrun
  have hok : Admitted (Tcb.step c.isn) (fun _ _ => True) c.tcb es :=
    admitted_of_forall (fun _ _ => trivial) _ _
  exact EventSystem.run_invariant (P := Tcb.Addressed key) (fun _ _ _ hu _ hstep => hu.step hstep)
    h hok ht

end Conn

namespace TcbManager

variable {γ : Type} {m m' : TcbManager γ} {key key' : TwoEnds}

/-- What a packet is to block `key`.  Without a block and without a rule it is
nothing. -/
def seen (key : TwoEnds) (m : TcbManager γ) (pktIn : TcpPacket) : List Event :=
  if pktIn.twoEnd = key ∧ ((m.tcbs key).isSome ∨
      m.rules.any fun rule => rule.matcher pktIn.remoteEp pktIn.localEp) then
    [.process pktIn.skb]
  else []

/-- What becomes of block `key` with these events. -/
abbrev BlockEvolves (key : TwoEnds) (m : TcbManager γ) (es : List Event) (m' : TcbManager γ) :
    Prop :=
  Evolves Conn.step (Conn.Born key) (m.tcbs key) es (m'.tcbs key)

/-- Block `key` aborts with these events. -/
abbrev BlockFails (key : TwoEnds) (m : TcbManager γ) (es : List Event) (f : Fault) : Prop :=
  Fails Conn.step (Conn.Born key) (m.tcbs key) es f

/-- The block an update is about. -/
theorem evolves_self {c : Conn γ} {es : List Event}
    (htcbs : m'.tcbs = Function.update m.tcbs key (some c))
    (h : Evolves Conn.step (Conn.Born key) (m.tcbs key) es (some c)) :
    BlockEvolves key m es m' := by
  rw [BlockEvolves, htcbs, Function.update_self]
  exact h

/-- The blocks an update leaves alone. -/
theorem evolves_of_ne {c : Conn γ} (hne : key' ≠ key)
    (htcbs : m'.tcbs = Function.update m.tcbs key' (some c)) : BlockEvolves key m [] m' := by
  rw [BlockEvolves, htcbs, Function.update_of_ne hne.symm]
  exact .refl _

/-- The block that a rule makes. -/
theorem born_listener (fresh : BlockInit) (key : TwoEnds) (cb : γ) :
    Conn.Born key (listener fresh key cb) :=
  ⟨.passive _ _ _ _, rfl, rfl, nofun⟩

/-- A rule that was found is there. -/
theorem any_of_find? {rules : List (ConnRule γ)} {rule : ConnRule γ} {remoteEp localEp : Endpoint}
    (h : rules.find? (fun rule => rule.matcher remoteEp localEp) = some rule) :
    (rules.any fun rule => rule.matcher remoteEp localEp) = true :=
  List.any_eq_true.mpr ⟨rule, List.mem_of_find?_eq_some h,
    by simpa using List.find?_some h⟩

/-- **A packet** is a segment for its block, and nothing for the others.  If
there is no block it may make one, under the first rule that matches, and the
packet is then the first segment of it. -/
theorem process_evolves {fresh : BlockInit} {pktIn : TcpPacket}
    (hprocess : m.process fresh pktIn = .ok m') (key : TwoEnds) :
    BlockEvolves key m (m.seen key pktIn) m' := by
  have hother : pktIn.twoEnd ≠ key → m.seen key pktIn = [] :=
    fun hne => if_neg fun h => hne h.1
  unfold process at hprocess
  dsimp only at hprocess
  split at hprocess
  · rename_i c hc
    obtain ⟨t, ht, hm'⟩ := bind_eq_ok.mp hprocess
    obtain rfl := Except.ok.inj hm'
    -- The block takes the segment; the other entries of the table stay.
    by_cases hkey : pktIn.twoEnd = key
    · subst hkey
      have hseen : m.seen pktIn.twoEnd pktIn = [.process pktIn.skb] :=
        if_pos ⟨rfl, .inl (by rw [hc]; rfl)⟩
      rw [hseen]
      refine evolves_self rfl ?_
      rw [hc]
      exact .lives (Conn.run_single_ok ht)
    · rw [hother hkey]
      exact evolves_of_ne hkey rfl
  · rename_i habsent
    split at hprocess
    · rename_i rule hrule
      obtain ⟨t, ht, hm'⟩ := bind_eq_ok.mp hprocess
      obtain rfl := Except.ok.inj hm'
      -- A rule matches: the block is emplaced, and takes the packet as its first segment.
      have htcbs : ((m.emplace pktIn.twoEnd (listener fresh pktIn.twoEnd rule.cb)).store
          pktIn.twoEnd (listener fresh pktIn.twoEnd rule.cb) t).tcbs =
          Function.update m.tcbs pktIn.twoEnd
            (some { listener fresh pktIn.twoEnd rule.cb with tcb := t }) :=
        Function.update_idem _ _ _
      by_cases hkey : pktIn.twoEnd = key
      · subst hkey
        have hseen : m.seen pktIn.twoEnd pktIn = [.process pktIn.skb] :=
          if_pos ⟨rfl, .inr (any_of_find? hrule)⟩
        rw [hseen]
        refine evolves_self htcbs ?_
        rw [habsent]
        exact .appears (born_listener fresh pktIn.twoEnd rule.cb) (Conn.run_single_ok ht)
      · rw [hother hkey]
        exact evolves_of_ne hkey htcbs
    · rename_i hnone
      obtain rfl := Except.ok.inj hprocess
      -- Nobody wants the packet.
      have hseen : m.seen key pktIn = [] := by
        refine if_neg fun h => ?_
        obtain ⟨rfl, hsome | hany⟩ := h
        · rw [habsent] at hsome
          cases hsome
        · obtain ⟨rule, hmem, hmatch⟩ := List.any_eq_true.mp hany
          exact List.find?_eq_none.mp hnone rule hmem hmatch
      rw [hseen]
      exact .refl _

/-- What comes after a step that succeeds does not abort. -/
theorem error_of_bind {x : Except Fault Tcb} {g : Tcb → TcbManager γ} {f : Fault}
    (h : (do return g (← x)) = Except.error f) : x = .error f := by
  cases x with
  | error f' => cases h; rfl
  | ok t => cases h

/-- A packet aborts on its block. -/
theorem process_blames {fresh : BlockInit} {pktIn : TcpPacket} {f : Fault}
    (hprocess : m.process fresh pktIn = .error f) :
    BlockFails pktIn.twoEnd m (m.seen pktIn.twoEnd pktIn) f := by
  unfold process at hprocess
  dsimp only at hprocess
  split at hprocess
  · rename_i c hc
    have hseen : m.seen pktIn.twoEnd pktIn = [.process pktIn.skb] :=
      if_pos ⟨rfl, .inl (by rw [hc]; rfl)⟩
    rw [hseen, BlockFails, hc]
    exact .lives (Conn.run_single_error (error_of_bind hprocess))
  · rename_i habsent
    split at hprocess
    · rename_i rule hrule
      have hseen : m.seen pktIn.twoEnd pktIn = [.process pktIn.skb] :=
        if_pos ⟨rfl, .inr (any_of_find? hrule)⟩
      rw [hseen, BlockFails, habsent]
      exact .appears (born_listener fresh pktIn.twoEnd rule.cb)
        (Conn.run_single_error (error_of_bind hprocess))
    · cases hprocess

/-- **An active open** makes a block that hears nothing yet. -/
theorem asyncConnect_evolves {fresh : BlockInit} {remoteEp : Endpoint} {localAddr : BitVec 32}
    {cb : Option γ} {ports : List (BitVec 16)}
    (hconnect : asyncConnect fresh remoteEp localAddr m cb ports = .ok m') (key : TwoEnds) :
    BlockEvolves key m [] m' := by
  induction ports generalizing cb with
  | nil => cases hconnect
  | cons port ports ih =>
      cases cb with
      | none => cases hconnect
      | some cb =>
          simp only [asyncConnect] at hconnect
          split at hconnect
          · exact ih hconnect
          · rename_i habsent
            split at hconnect
            · cases hconnect
            · rename_i t ht
              obtain rfl := Except.ok.inj hconnect
              by_cases hkey : (⟨remoteEp, ⟨localAddr, port⟩⟩ : TwoEnds) = key
              · subst hkey
                refine evolves_self rfl ?_
                rw [habsent]
                refine .appears ⟨.active _ _ _ _ ht, ?_⟩ rfl
                rw [Tcb.startConnecting_eq] at ht
                obtain rfl := Except.ok.inj ht
                exact ⟨rfl, rfl, fun pkt hpkt => by rw [List.mem_singleton.mp hpkt]; rfl⟩
              · exact evolves_of_ne hkey rfl

/-- An active open aborts on no block. -/
theorem asyncConnect_ne_fault {fresh : BlockInit} {remoteEp : Endpoint} {localAddr : BitVec 32}
    {cb : Option γ} {ports : List (BitVec 16)} {f : Fault} :
    asyncConnect fresh remoteEp localAddr m cb ports ≠ .error (.tcb f) := by
  induction ports generalizing cb with
  | nil => intro h; cases h
  | cons port ports ih =>
      cases cb with
      | none => intro h; cases h
      | some cb =>
          simp only [asyncConnect]
          split
          · exact ih
          · rw [Tcb.startConnecting_eq]
            intro h
            cases h

end TcbManager

/-! ## What the application does

Calls of the application, and calls inside a callback. -/

namespace Accepting

open TcbManager (BlockEvolves BlockFails)

/-- The call on block `key`, if this is one. -/
def Call.on (key : TwoEnds) : Call → Option AppCall
  | .socket twoEnd c => if twoEnd = key then some c else none
  | _ => none

/-- The calls on block `key`.  Without a socket for it there are none. -/
def callsOn (key : TwoEnds) (s : Accepting) (calls : List Call) : List AppCall :=
  if key ∈ s.sockets then calls.filterMap (Call.on key) else []

/-- The calls on block `key` inside a callback, if the application is called. -/
def insideOn (key : TwoEnds) (calls : List Call) : Bool × Accepting → List AppCall
  | (true, s) => s.callsOn key calls
  | (false, _) => []

/-- **What an event is to block `key`**: a segment, calls, a handler with the
calls inside its callback, or nothing. -/
def seen (key : TwoEnds) (s : Accepting) : Event → List Mstack.Event
  | .packet _ pktIn => s.mngr.seen key pktIn
  | .call c => (s.callsOn key [c]).map .call
  | .task calls =>
      match s.mngr.ioCtx with
      | [] => []
      | h :: rest =>
          match s.mngr.tcbs h.key with
          | none => []
          | some c =>
              let entered : Accepting := { s with mngr := s.mngr.enterTask h rest c }
              let calls := insideOn key calls (entered.invoke h c.onConnectionEstablished)
              if h.key = key then [.task 0 calls] else calls.map .call

section Calls

variable {s s' : Accepting} {key : TwoEnds}

/-- No call touches the sockets. -/
theorem call_sockets {c : Call} (h : s.call c = .ok s') : s'.sockets = s.sockets := by
  cases c with
  | asyncConnect fresh remoteEp localAddr cb ports =>
      obtain ⟨m', -, hs'⟩ := bind_eq_ok.mp h
      obtain rfl := Except.ok.inj hs'
      rfl
  | socket twoEnd c =>
      simp only [call] at h
      split at h
      · obtain ⟨m', -, rfl⟩ := onMngr_ok h
        rfl
      · obtain rfl := Except.ok.inj h
        rfl
  | _ =>
      obtain rfl := Except.ok.inj h
      rfl

/-- The sockets decide which calls reach a block. -/
theorem callsOn_congr (h : s'.sockets = s.sockets) (calls : List Call) :
    s'.callsOn key calls = s.callsOn key calls := by
  rw [callsOn, callsOn, h]

/-- The calls one by one. -/
theorem callsOn_cons (c : Call) (calls : List Call) :
    s.callsOn key (c :: calls) = s.callsOn key [c] ++ s.callsOn key calls := by
  by_cases hmem : key ∈ s.sockets
  · simp only [callsOn, if_pos hmem]
    rw [← List.filterMap_append]
    rfl
  · simp only [callsOn, if_neg hmem]
    rfl

/-- No call at all. -/
theorem callsOn_nil : s.callsOn key [] = [] := by
  rw [callsOn]
  split <;> rfl

/-- A call that is not on this block. -/
theorem callsOn_of_none {c : Call} (h : c.on key = none) : s.callsOn key [c] = [] := by
  rw [callsOn, List.filterMap_cons_none h]
  exact ite_self _

/-- A call through a socket for it. -/
theorem callsOn_socket (h : key ∈ s.sockets) (c : AppCall) :
    s.callsOn key [.socket key c] = [c] := by
  have hon : Call.on key (.socket key c) = some c := if_pos rfl
  rw [callsOn, if_pos h, List.filterMap_cons_some hon]
  rfl

/-- **One call** is a call on its block, and nothing for the others.  A call on
a socket whose block is gone does nothing at all. -/
theorem call_evolves {c : Call} (hs : s.Sound) (h : s.call c = .ok s') (key : TwoEnds) :
    BlockEvolves key s.mngr ((s.callsOn key [c]).map .call) s'.mngr := by
  cases c with
  | asyncConnect fresh remoteEp localAddr cb ports =>
      obtain ⟨m', hm', hs'⟩ := bind_eq_ok.mp h
      obtain rfl := Except.ok.inj hs'
      rw [callsOn_of_none rfl]
      exact TcbManager.asyncConnect_evolves hm' key
  | socket twoEnd c =>
      simp only [call] at h
      split at h
      · rename_i hmem
        obtain ⟨m', hm', rfl⟩ := onMngr_ok h
        obtain ⟨b, hb, -⟩ := hs.sockets twoEnd hmem
        simp only [TcbManager.appCall, hb] at hm'
        obtain ⟨t, ht, hm'⟩ := bind_eq_ok.mp hm'
        obtain rfl := Except.ok.inj hm'
        by_cases hkey : twoEnd = key
        · subst hkey
          rw [callsOn_socket hmem]
          refine TcbManager.evolves_self rfl ?_
          rw [hb]
          exact .lives (Conn.run_single_ok ht)
        · rw [callsOn_of_none (c := .socket twoEnd c) (if_neg hkey)]
          exact TcbManager.evolves_of_ne hkey rfl
      · rename_i hmem
        obtain rfl := Except.ok.inj h
        have hnothing : s.callsOn key [.socket twoEnd c] = [] := by
          by_cases hkey : twoEnd = key
          · subst hkey
            exact if_neg hmem
          · exact callsOn_of_none (c := .socket twoEnd c) (if_neg hkey)
        rw [hnothing]
        exact .refl _
  | _ =>
      obtain rfl := Except.ok.inj h
      rw [callsOn_of_none rfl]
      exact .refl _

/-- A call aborts on its block. -/
theorem call_blames {c : Call} {f : Fault} (hs : s.Sound) (h : s.call c = .error (.tcb f)) :
    ∃ key, BlockFails key s.mngr ((s.callsOn key [c]).map .call) f := by
  cases c with
  | asyncConnect fresh remoteEp localAddr cb ports =>
      rcases bind_eq_error.mp h with hconnect | ⟨m', -, hs'⟩
      · exact (TcbManager.asyncConnect_ne_fault hconnect).elim
      · cases hs'
  | socket twoEnd c =>
      simp only [call] at h
      split at h
      · rename_i hmem
        obtain ⟨b, hb, -⟩ := hs.sockets twoEnd hmem
        simp only [TcbManager.appCall, hb] at h
        refine ⟨twoEnd, ?_⟩
        rw [callsOn_socket hmem, BlockFails, hb]
        refine .lives (Conn.run_single_error (e := .call c) ?_)
        show b.tcb.appCall c = .error f
        cases ht : b.tcb.appCall c with
        | error f' =>
            rw [ht] at h
            exact congrArg _ (ManagerFault.tcb.inj (Except.error.inj h))
        | ok t =>
            rw [ht] at h
            cases h
      · cases h
  | _ => cases h

/-- What a call keeps. -/
theorem Sound.call {c : Call} (hs : s.Sound) (h : s.call c = .ok s') : s'.Sound :=
  (call_sound (a := 0) (Q := fun _ => True) (fun _ _ => id) hs trivial h).1

/-- **The calls inside a callback.** -/
theorem calls_evolve {calls : List Call} (hs : s.Sound) (h : run call s calls = .ok s')
    (key : TwoEnds) : BlockEvolves key s.mngr ((s.callsOn key calls).map .call) s'.mngr := by
  induction calls generalizing s with
  | nil =>
      obtain rfl := Except.ok.inj h
      rw [callsOn_nil]
      exact .refl _
  | cons c calls ih =>
      obtain ⟨u, hu, hrest⟩ := bind_eq_ok.mp h
      have htail := ih (hs.call hu) hrest
      rw [callsOn_congr (call_sockets hu)] at htail
      rw [callsOn_cons, List.map_append]
      exact (call_evolves hs hu key).trans htail

/-- Where the calls inside a callback abort, the block of one of them does. -/
theorem calls_blame {calls : List Call} {f : Fault} (hs : s.Sound)
    (h : run call s calls = .error (.tcb f)) :
    ∃ key, BlockFails key s.mngr ((s.callsOn key calls).map .call) f := by
  induction calls generalizing s with
  | nil => cases h
  | cons c calls ih =>
      rcases bind_eq_error.mp h with hhere | ⟨u, hu, hrest⟩
      · obtain ⟨key, hkey⟩ := call_blames hs hhere
        refine ⟨key, ?_⟩
        rw [callsOn_cons, List.map_append]
        exact hkey.append _
      · obtain ⟨key, hkey⟩ := ih (hs.call hu) hrest
        rw [callsOn_congr (call_sockets hu)] at hkey
        refine ⟨key, ?_⟩
        rw [callsOn_cons, List.map_append]
        exact (call_evolves hs hu key).fails hkey

end Calls

/-! ## Handlers

The two halves of a handler, with the application in between. -/

section Handlers

variable {s s' : Accepting} {h : PostedTask} {rest : List PostedTask} {c : Conn ConnCallback}

/-- The handler that sends calls nobody back. -/
theorem insideOn_sendLoop (key : TwoEnds) (calls : List Call) (cb : ConnCallback)
    (htask : h.task = .sendLoop) : insideOn key calls (s.invoke h cb) = [] := by
  unfold invoke
  rw [htask]
  rfl

/-- The block at the front of the queue has this handler in front. -/
theorem front_task (hs : s.Sound) (hqueue : s.mngr.ioCtx = h :: rest)
    (hc : s.mngr.tcbs h.key = some c) : c.tcb.ioCtx[0]? = some h.task := by
  have hhandlers := hs.kept.handlers h.key c hc
  rw [hqueue, TcbManager.handlers, List.filter_cons_of_pos (by simp), List.map_cons] at hhandlers
  rw [← hhandlers]
  rfl

/-- The body of a handler, for its block: the calls inside the callback, then
the rest. -/
theorem step_handler (hs : s.Sound) (hqueue : s.mngr.ioCtx = h :: rest)
    (hc : s.mngr.tcbs h.key = some c) (calls : List AppCall)
    (hcalls : h.task = .sendLoop → calls = []) :
    Tcb.step c.isn c.tcb (.task 0 calls) =
      (c.tcb.enterTask 0 h.task).appCalls calls >>= fun u => u.runTask [] h.task := by
  rw [Tcb.step_task_some calls (front_task hs hqueue hc), Tcb.runTask_eq _ hcalls]

/-- The calls inside the callback, as `calls_evolve` has them. -/
theorem inside_evolves {calls : List Call} {p : Bool × Accepting} (hp : p.2.Sound)
    (hinside : inside calls p = .ok s') (key : TwoEnds) :
    BlockEvolves key p.2.mngr ((insideOn key calls p).map .call) s'.mngr := by
  obtain ⟨invoked, u⟩ := p
  cases invoked with
  | true => exact calls_evolve hp hinside key
  | false =>
      obtain rfl := Except.ok.inj hinside
      exact .refl _

/-- The same, for a callback that the application is called in. -/
theorem inside_blames {calls : List Call} {p : Bool × Accepting} {f : Fault} (hp : p.2.Sound)
    (hinside : inside calls p = .error (.tcb f)) :
    ∃ key, BlockFails key p.2.mngr ((insideOn key calls p).map .call) f := by
  obtain ⟨invoked, u⟩ := p
  cases invoked with
  | true => exact calls_blame hp hinside
  | false => cases hinside

/-- The calls on the block of the handler, and where they lead. -/
theorem own_calls {u : Accepting} {calls : List AppCall}
    (hentered : s.mngr.tcbs h.key = some { c with tcb := c.tcb.enterTask 0 h.task })
    (hevolves : BlockEvolves h.key s.mngr (calls.map .call) u.mngr) :
    ∃ t, (c.tcb.enterTask 0 h.task).appCalls calls = .ok t ∧
      u.mngr.tcbs h.key = some { c with tcb := t } := by
  rw [BlockEvolves, hentered] at hevolves
  generalize hb : u.mngr.tcbs h.key = o at hevolves
  cases hevolves with
  | lives hrun =>
      obtain ⟨t, ht, rfl⟩ := Conn.run_ok.mp hrun
      rw [Tcb.run, Tcb.run_calls] at ht
      exact ⟨t, ht, rfl⟩

/-- **A handler** is, for its block, the handler with the calls on this block,
and for the others the calls on them.  The application may use any of its
sockets inside any callback, so one handler may be an event of many blocks. -/
theorem task_evolves {calls : List Call} (hs : s.Sound) (hstep : step s (.task calls) = .ok s')
    (key : TwoEnds) : BlockEvolves key s.mngr (s.seen key (.task calls)) s'.mngr := by
  simp only [step] at hstep
  split at hstep
  · -- No handler is posted.
    rename_i hqueue
    obtain rfl := Except.ok.inj hstep
    simp only [seen, hqueue]
    exact .refl _
  · rename_i h rest hqueue
    split at hstep
    · -- The handler's block is gone.
      rename_i habsent
      obtain rfl := Except.ok.inj hstep
      simp only [seen, hqueue, habsent]
      exact .refl _
    · rename_i c hc
      obtain ⟨u, hu, hfinish⟩ := bind_eq_ok.mp hstep
      obtain ⟨m', hm', rfl⟩ := onMngr_ok hfinish
      simp only [seen, hqueue, hc]
      obtain ⟨hbegin, -, -⟩ := hs.begin hqueue hc
      have hmngr := invoke_mngr { s with mngr := s.mngr.enterTask h rest c } h
        c.onConnectionEstablished
      have hevolves := inside_evolves hbegin hu
      simp only [BlockEvolves, hmngr] at hevolves
      have hentered : (s.mngr.enterTask h rest c).tcbs h.key =
          some { c with tcb := c.tcb.enterTask 0 h.task } := Function.update_self _ _ _
      -- Inside the callback the block has only seen the calls on it.
      obtain ⟨t, ht, hut⟩ := own_calls
        (s := { s with mngr := s.mngr.enterTask h rest c }) hentered (hevolves h.key)
      simp only [TcbManager.finishTask, hut] at hm'
      obtain ⟨t', ht', hm'⟩ := bind_eq_ok.mp hm'
      obtain rfl := Except.ok.inj hm'
      by_cases hkey : h.key = key
      · -- The block of the handler: entering, the calls and the rest are one step.
        subst hkey
        rw [if_pos rfl]
        have hown : Tcb.step c.isn c.tcb (.task 0 (insideOn h.key calls
            (({ s with mngr := s.mngr.enterTask h rest c } : Accepting).invoke h
              c.onConnectionEstablished))) = .ok t' := by
          rw [step_handler hs hqueue hc _ fun htask => insideOn_sendLoop _ _ _ htask, ht]
          exact ht'
        rw [BlockEvolves, hc]
        show Evolves _ _ _ _ (Function.update u.mngr.tcbs h.key _ h.key)
        rw [Function.update_self]
        exact .lives (Conn.run_single_ok hown)
      · -- Any other block sees only the calls on it.
        rw [if_neg hkey]
        have hother := hevolves key
        rw [show (s.mngr.enterTask h rest c).tcbs key = s.mngr.tcbs key from
          Function.update_of_ne (Ne.symm hkey) _ _] at hother
        rw [BlockEvolves]
        show Evolves _ _ _ _ (Function.update u.mngr.tcbs h.key _ key)
        rw [Function.update_of_ne (Ne.symm hkey)]
        exact hother

/-- A handler aborts on its block, or on one that the application calls inside
the callback. -/
theorem task_blames {calls : List Call} {f : Fault} (hs : s.Sound)
    (hstep : step s (.task calls) = .error (.tcb f)) :
    ∃ key, BlockFails key s.mngr (s.seen key (.task calls)) f := by
  simp only [step] at hstep
  split at hstep
  · cases hstep
  · rename_i h rest hqueue
    split at hstep
    · cases hstep
    · rename_i c hc
      obtain ⟨hbegin, -, -⟩ := hs.begin hqueue hc
      have hmngr := invoke_mngr { s with mngr := s.mngr.enterTask h rest c } h
        c.onConnectionEstablished
      have hentered : (s.mngr.enterTask h rest c).tcbs h.key =
          some { c with tcb := c.tcb.enterTask 0 h.task } := Function.update_self _ _ _
      simp only [seen, hqueue, hc]
      rcases bind_eq_error.mp hstep with hu | ⟨u, hu, hfinish⟩
      · -- A call inside the callback.
        obtain ⟨key, hfails⟩ := inside_blames hbegin hu
        simp only [BlockFails, hmngr] at hfails
        refine ⟨key, ?_⟩
        by_cases hkey : h.key = key
        · -- The call is on the block of the handler, so its handler aborts.
          subst hkey
          rw [if_pos rfl, BlockFails, hc]
          rw [hentered] at hfails
          cases hfails with
          | lives hrun =>
              rw [← Conn.run, Conn.run_error, Tcb.run, Tcb.run_calls] at hrun
              refine .lives (Conn.run_single_error ?_)
              rw [step_handler hs hqueue hc _ fun htask => insideOn_sendLoop _ _ _ htask]
              exact bind_eq_error.mpr (.inl hrun)
        · -- The call is on another socket.
          rw [if_neg hkey]
          rw [show (s.mngr.enterTask h rest c).tcbs key = s.mngr.tcbs key from
            Function.update_of_ne (Ne.symm hkey) _ _] at hfails
          exact hfails
      · -- The rest of the handler.
        have hevolves := inside_evolves hbegin hu h.key
        simp only [BlockEvolves, hmngr] at hevolves
        obtain ⟨t, ht, hut⟩ := own_calls
          (s := { s with mngr := s.mngr.enterTask h rest c }) hentered hevolves
        simp only [TcbManager.finishTask, hut] at hfinish
        refine ⟨h.key, ?_⟩
        rw [if_pos rfl, BlockFails, hc]
        refine .lives (Conn.run_single_error ?_)
        rw [step_handler hs hqueue hc _ fun htask => insideOn_sendLoop _ _ _ htask, ht]
        show t.runTask [] h.task = .error f
        cases hrun : t.runTask [] h.task with
        | error f' =>
            rw [hrun] at hfinish
            exact congrArg _ (ManagerFault.tcb.inj (Except.error.inj hfinish))
        | ok t' =>
            rw [hrun] at hfinish
            cases hfinish

end Handlers

/-! ## The table

The components, put together. -/

/-- **The table is composed of its blocks.**  What becomes of a block is a run
of that block alone, over what it has seen; and where the table aborts, one of
its blocks does.  The instance of the general notion at the real manager. -/
theorem composed : Composed step Conn.step Sound (fun key s => s.mngr.tcbs key) seen Conn.Born
    ManagerFault.tcb where
  keeps := fun _ _ _ hs hstep =>
    (step_sound (a := 0) (Q := fun _ => True) (fun _ _ => id) hs trivial hstep).1
  evolves := by
    intro s e s' key hs hstep
    cases e with
    | packet fresh pktIn =>
        obtain ⟨m', hm', rfl⟩ := onMngr_ok hstep
        exact TcbManager.process_evolves hm' key
    | call c => exact call_evolves hs hstep key
    | task calls => exact task_evolves hs hstep key
  blames := by
    intro s e f hs hstep
    cases e with
    | packet fresh pktIn =>
        suffices hprocess : s.mngr.process fresh pktIn = .error f from
          ⟨pktIn.twoEnd, TcbManager.process_blames hprocess⟩
        cases hprocess : s.mngr.process fresh pktIn with
        | error f' =>
            simp only [step, hprocess] at hstep
            exact congrArg _ (ManagerFault.tcb.inj (Except.error.inj hstep))
        | ok m' =>
            simp only [step, hprocess] at hstep
            cases hstep
    | call c => exact call_blames hs hstep
    | task calls => exact task_blames hs hstep

/-- **Connections do not interfere.**  Take any run of a host: any number of
acceptors, sockets and active opens, packets of any connections in any order,
and callbacks that call back into any socket.  A block of the table is what one
block, made for its key and left alone with the events that are its own, would
have become; the packets it has sent carry its endpoints; and a key without a
block has heard nothing.  Where the host aborts with a fault of `tcb_t`, the
run of one such block alone aborts with it. -/
theorem connections_run_alone (es : List Event) :
    (∀ s, run step create es = .ok s → ∀ key,
      (∀ c, s.mngr.tcbs key = some c →
        (∃ t, Tcb.Opened c.isn t ∧ t.Addressed key ∧
          Tcb.run c.isn t (heard step (seen key) create es) = .ok c.tcb) ∧
        ∀ pkt ∈ c.tcb.mngr, pkt.twoEnd = key) ∧
      (s.mngr.tcbs key = none → heard step (seen key) create es = [])) ∧
    ∀ f, run step create es = .error (.tcb f) → ∃ key isn t, Tcb.Opened isn t ∧
      t.Addressed key ∧ Tcb.run isn t (heard step (seen key) create es) = .error f := by
  constructor
  · intro s hrun key
    have hevolves := composed.run_evolves sound_create hrun key
    constructor
    · intro c hc
      rw [hc] at hevolves
      generalize heard step (seen key) create es = fs at hevolves ⊢
      cases hevolves with
      | appears hborn hrun' =>
          obtain ⟨t, ht, rfl⟩ := Conn.run_ok.mp hrun'
          exact ⟨⟨_, hborn.opened, hborn.addressed, ht⟩,
            (Conn.run_addressed hborn.addressed hrun').packets⟩
    · intro hnone
      rw [hnone] at hevolves
      generalize heard step (seen key) create es = fs at hevolves ⊢
      cases hevolves
      rfl
  · intro f hrun
    obtain ⟨key, hfails⟩ := composed.run_blames sound_create hrun
    generalize hheard : heard step (seen key) create es = fs at hfails
    cases hfails with
    | appears hborn hrun' =>
        refine ⟨key, _, _, hborn.opened, hborn.addressed, ?_⟩
        rw [hheard]
        exact Conn.run_error.mp hrun'

/-- A second connection while the first one is being opened: the events of
either are its own. -/
theorem two_connections_run_alone :
    let request := Event.packet default { strayReset with
      skb := ⟨{ strayReset.skb.tcph with RST := false, SYN := true }, [], []⟩ }
    ∃ s c, run step create
        (.call (.acceptor 0 fun _ _ => true) :: request :: handshake) = .ok s ∧
      s.mngr.tcbs strayReset.twoEnd ≠ none ∧ s.mngr.tcbs client = some c ∧
      ∃ t syn ack, Tcb.Opened 7 t ∧
        Tcb.run 7 t [.process syn, .process ack, .task 0 []] = .ok c.tcb := by
  intro request
  obtain ⟨s, c, hrun, hother, hc, hisn⟩ : ∃ s c, run step create
      (.call (.acceptor 0 fun _ _ => true) :: request :: handshake) = .ok s ∧
      s.mngr.tcbs strayReset.twoEnd ≠ none ∧ s.mngr.tcbs client = some c ∧ c.isn = 7 :=
    ⟨_, _, rfl, nofun, rfl, rfl⟩
  obtain ⟨⟨t, hopened, -, ht⟩, -⟩ := ((connections_run_alone _).1 s hrun client).1 c hc
  rw [hisn] at hopened ht
  exact ⟨s, c, hrun, hother, hc, t, _, _, hopened, ht⟩

end Accepting

end Mstack
