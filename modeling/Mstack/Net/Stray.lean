import Mstack.Net.Acceptor

/-!
# Stray segments

A segment that is not a connection request opens nothing: the LISTEN handler
returns before it does anything.  But by then `tcb_manager::process` has put a
block into the table for it, if some rule matches its endpoints, and nothing
ever takes a block out again.

* `TcpHeader.isRequest` — SYN without ACK and without RST.
* `IsStray`, `Unmatched` — a segment that is no request, for a connection
  without a block; and no rule matches it.
* `LeavesNothing`, `EmitsNothing` — what is asked of `process`.
* `leavesNothing_iff` — it holds exactly where no rule matches.
* `Creates` — which calls and segments are meant to make an entry.

### Two results of different kinds

`leavesNothing_iff` is about one segment and is exact.  The second half asks
where the entries of a table *came from*: in a run whose stray segments are all
unmatched, every entry was made by `async_connect` or by a connection request.
This is `EventSystem.run_origin`, which goes back from an entry to the event at
which it appeared, and its step lemma is `step_creates`: an event makes no
entry that it is not meant to make.

### What is load-bearing

A block made for a stray segment is a block in LISTEN under the key of one
peer, and stays.  It is not harmful by itself: a connection request that comes
later finds it and opens it.  But the entry is not a connection, and an RST, a
late ACK or a scan of ports each leave one behind for good.
-/

namespace Mstack

open EventSystem

/-- A connection request. -/
def TcpHeader.isRequest (tcph : TcpHeader) : Bool := tcph.SYN && !tcph.ACK && !tcph.RST

/-- **The LISTEN handler ignores what is not a request.** -/
theorem Tcb.process_listen {isn : BitVec 32} {t : Tcb} {seg : Segment} (hstate : t.state = .listen)
    (hstray : seg.tcph.isRequest = false) : t.process isn seg = .ok t := by
  simp only [process, hstate, tcpHandleListenState]
  by_cases hRST : seg.tcph.RST = true
  · rw [if_pos hRST]
  · by_cases hACK : seg.tcph.ACK = true
    · rw [if_neg hRST, if_pos hACK]
    · have hSYN : ¬ seg.tcph.SYN = true := by
        intro hSYN
        simp [TcpHeader.isRequest, hSYN, hACK, hRST] at hstray
      rw [if_neg hRST, if_neg hACK, if_neg hSYN]

namespace TcbManager

variable {γ : Type}

/-- No rule matches the endpoints of the packet. -/
def Unmatched (rules : List (ConnRule γ)) (pktIn : TcpPacket) : Prop :=
  ∀ rule ∈ rules, rule.matcher pktIn.remoteEp pktIn.localEp = false

/-- No block of the table sends anything, and a block that is new has sent
nothing. -/
def EmitsNothing (m m' : TcbManager γ) : Prop :=
  ∀ key c', m'.tcbs key = some c' →
    c'.tcb.mngr = ((m.tcbs key).map fun c => c.tcb.mngr).getD []

/-- A segment that is not a request, for a connection that has no block. -/
def IsStray (m : TcbManager γ) (pktIn : TcpPacket) : Prop :=
  m.tcbs pktIn.twoEnd = none ∧ pktIn.skb.tcph.isRequest = false

/-- What is asked of `process` for such a segment. -/
def LeavesNothing (fresh : BlockInit) (m : TcbManager γ) (pktIn : TcpPacket) : Prop :=
  ∃ m', m.process fresh pktIn = .ok m' ∧ EmitsNothing m m' ∧ m'.tcbs = m.tcbs

/-- The same table has sent the same packets. -/
theorem EmitsNothing.of_eq {m m' : TcbManager γ} (h : m'.tcbs = m.tcbs) : EmitsNothing m m' := by
  intro key c' hc'
  rw [h] at hc'
  rw [hc']
  rfl

section Process

variable (fresh : BlockInit) {m : TcbManager γ} {pktIn : TcpPacket}

/-- A segment that no rule matches is dropped. -/
theorem process_unmatched (habsent : m.tcbs pktIn.twoEnd = none)
    (hunmatched : Unmatched m.rules pktIn) : m.process fresh pktIn = .ok m := by
  have hfind : m.rules.find? (fun rule => rule.matcher pktIn.remoteEp pktIn.localEp) = none := by
    rw [List.find?_eq_none]
    intro rule hrule
    rw [hunmatched rule hrule]
    exact Bool.false_ne_true
  rw [process]
  dsimp only [TcpPacket.twoEnd] at habsent ⊢
  rw [habsent, hfind]

/-- A stray segment under a rule: there is a new block, which has done
nothing. -/
theorem process_matched (hstray : IsStray m pktIn) {rule : ConnRule γ}
    (hfind : m.rules.find? (fun rule => rule.matcher pktIn.remoteEp pktIn.localEp) = some rule) :
    m.process fresh pktIn = .ok ((m.emplace pktIn.twoEnd (listener fresh pktIn.twoEnd rule.cb)).store
      pktIn.twoEnd (listener fresh pktIn.twoEnd rule.cb)
      (listener fresh pktIn.twoEnd rule.cb).tcb) := by
  have hblock : (listener fresh pktIn.twoEnd rule.cb).tcb.process
      (listener fresh pktIn.twoEnd rule.cb).isn pktIn.skb
        = .ok (listener fresh pktIn.twoEnd rule.cb).tcb :=
    Tcb.process_listen rfl hstray.2
  have habsent := hstray.1
  rw [process]
  dsimp only [TcpPacket.twoEnd] at habsent hblock ⊢
  rw [habsent, hfind]
  dsimp only
  rw [hblock]
  rfl

/-- **Stray segments.**  Nothing is sent for them, and nothing is left of them
exactly if no rule matches.  If one does, a block is made before the segment is
looked at, and it stays in LISTEN whatever the segment was. -/
theorem leavesNothing_iff (hstray : IsStray m pktIn) :
    (∃ m', m.process fresh pktIn = .ok m' ∧ EmitsNothing m m') ∧
      (LeavesNothing fresh m pktIn ↔ Unmatched m.rules pktIn) := by
  cases hfind : m.rules.find? (fun rule => rule.matcher pktIn.remoteEp pktIn.localEp) with
  | none =>
      have hunmatched : Unmatched m.rules pktIn := by
        intro rule hrule
        simpa using List.find?_eq_none.mp hfind rule hrule
      have hprocess := process_unmatched fresh hstray.1 hunmatched
      exact ⟨⟨m, hprocess, .of_eq rfl⟩, iff_of_true ⟨m, hprocess, .of_eq rfl, rfl⟩ hunmatched⟩
  | some rule =>
      have hprocess := process_matched fresh hstray hfind
      refine ⟨⟨_, hprocess, fun key c' hc' => ?_⟩, iff_of_false ?_ ?_⟩
      · obtain ⟨rfl, rfl⟩ | ⟨hne, hc'⟩ := update_eq_some hc'
        · rw [hstray.1]
          rfl
        · obtain ⟨-, hc'⟩ := (update_eq_some hc').resolve_left fun h => hne h.1.symm
          rw [hc']
          rfl
      · rintro ⟨m', hm', -, htcbs⟩
        rw [hprocess] at hm'
        cases hm'
        have hkey := congrFun htcbs pktIn.twoEnd
        rw [hstray.1] at hkey
        cases (Function.update_self _ _ _).symm.trans hkey
      · intro hunmatched
        have hno := hunmatched rule (List.mem_of_find?_eq_some hfind)
        have hyes := List.find?_some hfind
        rw [hno] at hyes
        cases hyes

end Process

/-! ## Who makes an entry

First the functions of the manager, then the calls and the handlers around
them. -/

section Present

variable {m m' : TcbManager γ} {key key' : TwoEnds}

/-- An entry that is there after an entry was replaced was there before. -/
theorem present_of_update {c c' : Conn γ} (hc : m.tcbs key' = some c)
    (htcbs : m'.tcbs = Function.update m.tcbs key' (some c')) (hkey : m'.tcbs key ≠ none) :
    m.tcbs key ≠ none := by
  by_cases heq : key = key'
  · rw [heq, hc]
    exact Option.some_ne_none c
  · rwa [htcbs, Function.update_of_ne heq] at hkey

/-- A segment makes an entry for its own connection, under a rule; where no
rule matches a stray one, it is a request. -/
theorem process_creates {fresh : BlockInit} {pktIn : TcpPacket}
    (hprocess : m.process fresh pktIn = .ok m') (hno : m.tcbs key = none)
    (hkey : m'.tcbs key ≠ none)
    (hok : IsStray m pktIn → Unmatched m.rules pktIn) :
    pktIn.twoEnd = key ∧ pktIn.skb.tcph.isRequest = true := by
  by_cases htwoEnd : pktIn.twoEnd = key
  · subst htwoEnd
    refine ⟨rfl, ?_⟩
    by_contra hrequest
    have hstray : IsStray m pktIn := ⟨hno, by simpa using hrequest⟩
    rw [process_unmatched fresh hno (hok hstray)] at hprocess
    cases hprocess
    exact hkey hno
  · unfold process at hprocess
    dsimp only at hprocess
    split at hprocess
    · rename_i c hc
      obtain ⟨t, ht, hm'⟩ := bind_eq_ok.mp hprocess
      cases hm'
      exact (present_of_update hc rfl hkey hno).elim
    · split at hprocess
      · obtain ⟨t, ht, hm'⟩ := bind_eq_ok.mp hprocess
        cases hm'
        have hother : key ≠ pktIn.twoEnd := Ne.symm htwoEnd
        exact (hkey ((Function.update_of_ne hother _ _).trans
          ((Function.update_of_ne hother _ _).trans hno))).elim
      · cases hprocess
        exact (hkey hno).elim

/-- `async_connect` makes an entry for one of its ports. -/
theorem asyncConnect_creates {fresh : BlockInit} {remoteEp : Endpoint} {localAddr : BitVec 32}
    {cb : Option γ} {ports : List (BitVec 16)}
    (hconnect : asyncConnect fresh remoteEp localAddr m cb ports = .ok m')
    (hno : m.tcbs key = none) (hkey : m'.tcbs key ≠ none) :
    ∃ port ∈ ports, key = ⟨remoteEp, ⟨localAddr, port⟩⟩ := by
  induction ports generalizing cb with
  | nil => cases hconnect
  | cons port ports ih =>
      cases cb with
      | none => cases hconnect
      | some cb =>
          simp only [asyncConnect] at hconnect
          split at hconnect
          · obtain ⟨port', hmem, rfl⟩ := ih hconnect
            exact ⟨port', List.mem_cons_of_mem port hmem, rfl⟩
          · split at hconnect
            · cases hconnect
            · cases hconnect
              refine ⟨port, List.mem_cons_self, ?_⟩
              by_contra hother
              exact hkey ((Function.update_of_ne hother _ _).trans hno)

/-- A call through a socket makes no entry. -/
theorem appCall_creates {call : AppCall} (hcall : m.appCall key' call = .ok m')
    (hkey : m'.tcbs key ≠ none) : m.tcbs key ≠ none := by
  unfold appCall at hcall
  split at hcall
  · rename_i c hc
    obtain ⟨t, ht, hm'⟩ := bind_eq_ok.mp hcall
    cases hm'
    exact present_of_update hc rfl hkey
  · cases hcall
    exact hkey

/-- Nor does the end of a handler. -/
theorem finishTask_creates {h : PostedTask} (hfinish : m.finishTask h = .ok m')
    (hkey : m'.tcbs key ≠ none) : m.tcbs key ≠ none := by
  unfold finishTask at hfinish
  split at hfinish
  · rename_i c hc
    obtain ⟨t, ht, hm'⟩ := bind_eq_ok.mp hfinish
    cases hm'
    exact present_of_update hc rfl hkey
  · cases hfinish
    exact hkey

end Present

end TcbManager

namespace Accepting

open TcbManager (IsStray Unmatched EmitsNothing LeavesNothing)

/-- The call is an active open for this entry. -/
def Call.Connects (key : TwoEnds) : Call → Prop
  | .asyncConnect _ remoteEp localAddr _ ports =>
      ∃ port ∈ ports, key = ⟨remoteEp, ⟨localAddr, port⟩⟩
  | _ => False

/-- The event is meant to make this entry: it is a call of `async_connect`, or
a connection request. -/
def Creates (key : TwoEnds) : Event → Prop
  | .packet _ pktIn => pktIn.twoEnd = key ∧ pktIn.skb.tcph.isRequest = true
  | .call c => c.Connects key
  | .task calls => ∃ c ∈ calls, c.Connects key

/-- If the event is a stray segment, no rule matches it. -/
def NoStrayMatched (s : Accepting) : Event → Prop
  | .packet _ pktIn => IsStray s.mngr pktIn → Unmatched s.mngr.rules pktIn
  | _ => True

section Creates

variable {s s' : Accepting} {key : TwoEnds}

/-- A call of the application makes the entry of an active open, or none. -/
theorem call_creates {c : Call} (hcall : s.call c = .ok s') (hno : s.mngr.tcbs key = none)
    (hkey : s'.mngr.tcbs key ≠ none) : c.Connects key := by
  cases c with
  | asyncConnect fresh remoteEp localAddr cb ports =>
      obtain ⟨m', hm', hs'⟩ := bind_eq_ok.mp hcall
      cases hs'
      exact TcbManager.asyncConnect_creates hm' hno hkey
  | socket twoEnd c =>
      simp only [call] at hcall
      split at hcall
      · obtain ⟨m', hm', rfl⟩ := onMngr_ok hcall
        exact TcbManager.appCall_creates hm' hkey hno
      · cases hcall
        exact hkey hno
  | _ =>
      -- The other calls do not touch the table.
      cases hcall
      exact hkey hno

/-- And so do several calls. -/
theorem calls_creates {calls : List Call} (hrun : run call s calls = .ok s')
    (hno : s.mngr.tcbs key = none) (hkey : s'.mngr.tcbs key ≠ none) :
    ∃ c ∈ calls, c.Connects key := by
  have hadm : Admitted call (fun _ _ => True) s calls :=
    admitted_of_forall (fun _ _ => trivial) s calls
  obtain ⟨past, c, rest, u, v, rfl, -, hcall, -, hu, hv⟩ :=
    run_origin (P := fun u : Accepting => u.mngr.tcbs key ≠ none) hadm hrun (not_not.mpr hno) hkey
  exact ⟨c, by simp, call_creates hcall (not_not.mp hu) hv⟩

/-- Inside a callback of the application. -/
theorem inside_creates {calls : List Call} {p : Bool × Accepting}
    (hinside : inside calls p = .ok s') (hno : p.2.mngr.tcbs key = none)
    (hkey : s'.mngr.tcbs key ≠ none) : ∃ c ∈ calls, c.Connects key := by
  obtain ⟨invoked, u⟩ := p
  cases invoked with
  | true => exact calls_creates hinside hno hkey
  | false =>
      cases hinside
      exact (hkey hno).elim

/-- **Who makes an entry.**  An event makes no entry that it is not meant to
make, unless it is a stray segment under a rule.  `Creates` lists the events
that are meant to: a connection request, and an active open, by a call or
inside a callback. -/
theorem step_creates {e : Event} (hstep : step s e = .ok s') (hno : s.mngr.tcbs key = none)
    (hkey : s'.mngr.tcbs key ≠ none) (hok : NoStrayMatched s e) : Creates key e := by
  cases e with
  | packet fresh pktIn =>
      obtain ⟨m', hm', rfl⟩ := onMngr_ok hstep
      exact TcbManager.process_creates hm' hno hkey hok
  | call c => exact call_creates hstep hno hkey
  | task calls =>
      simp only [step] at hstep
      split at hstep
      · cases hstep
        exact (hkey hno).elim
      · rename_i h rest hqueue
        split at hstep
        · cases hstep
          exact (hkey hno).elim
        · rename_i c hc
          obtain ⟨u, hu, hfinish⟩ := bind_eq_ok.mp hstep
          obtain ⟨m', hm', rfl⟩ := onMngr_ok hfinish
          have hafter : u.mngr.tcbs key ≠ none := TcbManager.finishTask_creates hm' hkey
          refine inside_creates hu ?_ hafter
          rw [invoke_mngr]
          by_contra hentered
          exact TcbManager.present_of_update hc rfl hentered hno

end Creates

/-- **Stray segments leave no connection behind exactly where no rule matches
them.**  `process` sends nothing for a stray segment, and leaves the table as
it was if and only if no rule matches.  In a run whose stray segments are all
unmatched, every entry was made by an event that is meant to make it:
`async_connect`, or a connection request. -/
theorem stray_segments_leave_nothing_iff (es : List Event) (s : Accepting)
    (hrun : run step create es = .ok s) :
    (∀ (m : TcbManager ConnCallback) fresh pktIn, IsStray m pktIn →
      (∃ m', m.process fresh pktIn = .ok m' ∧ EmitsNothing m m') ∧
        (LeavesNothing fresh m pktIn ↔ Unmatched m.rules pktIn)) ∧
    (Admitted step NoStrayMatched create es → ∀ key, s.mngr.tcbs key ≠ none →
      ∃ past e rest u v, es = past ++ e :: rest ∧ run step create past = .ok u ∧
        step u e = .ok v ∧ u.mngr.tcbs key = none ∧ v.mngr.tcbs key ≠ none ∧ Creates key e) := by
  refine ⟨fun m fresh pktIn hstray => TcbManager.leavesNothing_iff fresh hstray,
    fun hadm key hkey => ?_⟩
  obtain ⟨past, e, rest, u, v, hes, hpast, hstep, hok, hu, hv⟩ :=
    run_origin (P := fun u : Accepting => u.mngr.tcbs key ≠ none) hadm hrun
      (not_not.mpr rfl) hkey
  exact ⟨past, e, rest, u, v, hes, hpast, hstep, not_not.mp hu, hv,
    step_creates hstep (not_not.mp hu) hv hok⟩

/-- A segment with RST and nothing else, from port 5 of host 1 to port 80 of
host 2. -/
def strayReset : TcpPacket where
  proto := 0x06
  remoteEp := ⟨1, 5⟩
  localEp := ⟨2, 80⟩
  skb := ⟨{ TcpHeader.bare with srcPort := 5, dstPort := 80, RST := true }, [], []⟩

/-- Under the rule of an acceptor it leaves a block in LISTEN behind. -/
theorem stray_reset_leaves_block :
    ∃ s, run step create [.call (.acceptor 0 fun _ localEp => localEp.addrv4Port = 80)] = .ok s ∧
      IsStray s.mngr strayReset ∧ ¬ LeavesNothing default s.mngr strayReset ∧
      ∃ s', step s (.packet default strayReset) = .ok s' ∧
        ((s'.mngr.tcbs strayReset.twoEnd).map fun c => c.tcb.state) = some .listen ∧
        ¬ Creates strayReset.twoEnd (.packet default strayReset) := by
  refine ⟨_, rfl, ⟨rfl, rfl⟩, fun h => ?_, _, rfl, rfl, fun h => by cases h.2⟩
  obtain ⟨m', hprocess, -, htcbs⟩ := h
  cases hprocess
  cases congrFun htcbs strayReset.twoEnd

/-- To another port it leaves nothing, and the entry that is there was
requested. -/
theorem stray_reset_unmatched :
    let listening := Event.call (.acceptor 0 fun _ localEp => localEp.addrv4Port = 80)
    let reset := Event.packet default { strayReset with localEp := ⟨2, 81⟩ }
    let request := Event.packet default { strayReset with
      skb := ⟨{ strayReset.skb.tcph with RST := false, SYN := true }, [], []⟩ }
    ∃ s, run step create [listening, reset, request] = .ok s ∧
      s.mngr.tcbs strayReset.twoEnd ≠ none ∧
      ∃ past e rest u v, [listening, reset, request] = past ++ e :: rest ∧
        run step create past = .ok u ∧ step u e = .ok v ∧
        u.mngr.tcbs strayReset.twoEnd = none ∧ v.mngr.tcbs strayReset.twoEnd ≠ none ∧
        Creates strayReset.twoEnd e := by
  intro listening reset request
  have hadm : Admitted step NoStrayMatched create [listening, reset, request] := by
    refine .cons trivial rfl ?_
    refine .cons (fun _ rule hrule => ?_) rfl ?_
    · cases List.mem_singleton.mp hrule
      rfl
    · exact .single fun h => by cases h.2
  have hrun : ∃ s, run step create [listening, reset, request] = .ok s ∧
      s.mngr.tcbs strayReset.twoEnd ≠ none := ⟨_, rfl, Option.some_ne_none _⟩
  obtain ⟨s, hs, hkey⟩ := hrun
  exact ⟨s, hs, hkey, (stray_segments_leave_nothing_iff _ s hs).2 hadm _ hkey⟩

end Accepting

end Mstack
