import Mstack.Net.Manager

/-!
# Active opens and port collisions

`tcb_manager::async_connect` draws a port, makes a block for it and looks
whether the key was free:

    while (true) {
        ... generate() ...
        tcbs_.emplace(two_end, tcb_t::create_shared(..., std::move(cb)));
        if (!created) continue;
        ...
    }

The block takes the caller's callback with it, also when it is thrown away; the
next turn has an empty callback to give to its block, whose constructor asserts
that there is one.

* `firstFree` — the first generated port that no connection uses.
* `asyncConnect_cons` — **the only turn there is.**
* `Connects` — what is asked of `async_connect`, for the free port it has
  found.
* `connects_iff` — a connection is opened from the first free port exactly if
  that is the first port generated.

### What is load-bearing

The arguments of `emplace` are evaluated before it looks for the key:
`std::move(cb)` has happened, and the block has been constructed, whether or
not there is room for it.  A retry loop around a move is good for one turn.

With an empty table nothing goes wrong, and with `n` connections to one remote
endpoint from one address the next one fails with probability `n / 48128`: the
ports are drawn uniformly from 1024 to 49151.  The model says nothing about how
they are drawn.  The ports are a list, an argument, and every result is about
all lists.

A build without assertions goes on with an empty `std::function`, and calls it
when the connection is established.  The model stops where the assertion does.
-/

namespace Mstack

namespace TcbManager

open Tcb (startConnecting_eq)

variable {γ : Type}

section Connect

variable (fresh : BlockInit) (remoteEp : Endpoint) (localAddr : BitVec 32)

/-- `two_end`, for a generated port: the key that the loop tries. -/
def connectKey (port : BitVec 16) : TwoEnds where
  remoteEp := remoteEp
  localEp := { addrv4 := localAddr, addrv4Port := port }

/-- No block stands under the key of this port. -/
def portFree (m : TcbManager γ) (port : BitVec 16) : Bool :=
  (m.tcbs (connectKey remoteEp localAddr port)).isNone

/-- The first generated port that is not in use. -/
def firstFree (m : TcbManager γ) (ports : List (BitVec 16)) : Option (BitVec 16) :=
  ports.find? (portFree remoteEp localAddr m)

/-- The block that `async_connect` makes, after `start_connecting`: in
SYN-SENT, with its SYN on its way to `tcb_manager`'s queue. -/
def connector (port : BitVec 16) (cb : γ) : Conn γ where
  tcb := (Tcb.create remoteEp { addrv4 := localAddr, addrv4Port := port } .connecting .connecting
    fresh.junkSend fresh.junkRcv).afterConnect fresh.isn
  isn := fresh.isn
  onConnectionEstablished := cb

/-- **The only turn there is.** -/
theorem asyncConnect_cons (m : TcbManager γ) (cb : γ) (port : BitVec 16)
    (ports : List (BitVec 16)) :
    asyncConnect fresh remoteEp localAddr m (some cb) (port :: ports) =
      if portFree remoteEp localAddr m port then
        .ok (m.emplace (connectKey remoteEp localAddr port)
          (connector fresh remoteEp localAddr port cb))
      else if ports = [] then .error .portsUsedUp else .error .emptyCallback := by
  rw [asyncConnect, portFree, connectKey]
  dsimp only
  cases hkey : m.tcbs ⟨remoteEp, ⟨localAddr, port⟩⟩ with
  | none =>
      rw [startConnecting_eq]
      rfl
  | some c => cases ports <;> rfl

/-- What is asked of `async_connect`, for the free port it has found: there is
one new block, under the key of this port; it holds the callback, and has sent
one SYN from this port.  No other entry of the table changes. -/
structure Connects (m : TcbManager γ) (cb : γ) (port : BitVec 16) (m' : TcbManager γ) :
    Prop where
  absent : m.tcbs (connectKey remoteEp localAddr port) = none
  added : ∃ c, m'.tcbs (connectKey remoteEp localAddr port) = some c ∧
    c.onConnectionEstablished = cb ∧ ∃ syn, c.tcb.mngr = [syn] ∧
      syn.twoEnd = connectKey remoteEp localAddr port ∧
      syn.skb.tcph.srcPort = port ∧ syn.skb.tcph.dstPort = remoteEp.addrv4Port ∧
      syn.skb.tcph.SYN = true ∧ syn.skb.tcph.ACK = false ∧ syn.skb.tcph.RST = false ∧
      syn.skb.tcph.seqNo = c.isn ∧ syn.skb.text = []
  others : ∀ key, key ≠ connectKey remoteEp localAddr port → m'.tcbs key = m.tcbs key

/-- For a key that is free, `emplace` and `start_connecting` do what is asked. -/
theorem connects_emplace {m : TcbManager γ} (cb : γ) {port : BitVec 16}
    (habsent : m.tcbs (connectKey remoteEp localAddr port) = none) :
    Connects remoteEp localAddr m cb port (m.emplace (connectKey remoteEp localAddr port)
      (connector fresh remoteEp localAddr port cb)) where
  absent := habsent
  added := ⟨_, Function.update_self _ _ _, rfl, _, rfl, rfl, rfl, rfl, rfl, rfl, rfl, rfl, rfl⟩
  others _ hkey := Function.update_of_ne hkey _ _

/-- **Port collisions.**  Let some generated port be free.  The connection is
opened from the first such port exactly if that is the first port generated: a
collision is never survived.

The first turn of the loop moves the callback into its block, also where that
block is thrown away.  The next turn has an empty one to give, and the
constructor asserts that there is one. -/
theorem connects_iff (m : TcbManager γ) (cb : γ) (ports : List (BitVec 16)) (port : BitVec 16)
    (hfree : firstFree remoteEp localAddr m ports = some port) :
    (∃ m', asyncConnect fresh remoteEp localAddr m (some cb) ports = .ok m' ∧
      Connects remoteEp localAddr m cb port m') ↔ ports.head? = some port := by
  cases ports with
  | nil => cases hfree
  | cons first ports =>
      rw [asyncConnect_cons, List.head?_cons, Option.some.injEq]
      by_cases hfirst : portFree remoteEp localAddr m first = true
      · obtain rfl : first = port := by
          rw [firstFree, List.find?_cons_of_pos hfirst] at hfree
          exact Option.some.inj hfree
        rw [if_pos hfirst]
        exact iff_of_true ⟨_, rfl, connects_emplace fresh remoteEp localAddr cb
          (Option.isNone_iff_eq_none.mp hfirst)⟩ rfl
      · -- The port is taken: the loop has lost the callback, and ends in the next turn.
        rw [if_neg hfirst]
        refine iff_of_false ?_ ?_
        · rintro ⟨m', hconnect, -⟩
          split at hconnect <;> cases hconnect
        · rintro rfl
          exact hfirst (List.find?_some hfree)

/-- After a collision the constructor of the next block aborts, whatever its
port is, and whether or not that one is free. -/
theorem asyncConnect_collision {m : TcbManager γ} {cb : γ} {first : BitVec 16}
    {ports : List (BitVec 16)} (htaken : portFree remoteEp localAddr m first = false)
    (hports : ports ≠ []) :
    asyncConnect fresh remoteEp localAddr m (some cb) (first :: ports) = .error .emptyCallback := by
  rw [asyncConnect_cons, if_neg (by simp [htaken]), if_neg hports]

end Connect

/-- A table with one connection, from port 1024 of host 2 to port 80 of host
1. -/
def oneConnection : TcbManager CallbackId :=
  create.emplace (connectKey ⟨1, 80⟩ 2 1024) (connector default ⟨1, 80⟩ 2 1024 5)

/-- The second connection draws the port of the first, and the assertion fails,
although the port drawn next is free. -/
theorem second_connection_collides :
    firstFree ⟨1, 80⟩ 2 oneConnection [1024, 1025] = some 1025 ∧
    asyncConnect default ⟨1, 80⟩ 2 oneConnection (some 6) [1024, 1025] = .error .emptyCallback ∧
    ¬ ∃ m', asyncConnect default ⟨1, 80⟩ 2 oneConnection (some 6) [1024, 1025] = .ok m' ∧
      Connects ⟨1, 80⟩ 2 oneConnection 6 1025 m' := by
  refine ⟨by decide, rfl, ?_⟩
  rintro ⟨m', hconnect, -⟩
  cases hconnect

/-- With a free port first it goes through. -/
theorem second_connection_opens :
    ∃ m', asyncConnect default ⟨1, 80⟩ 2 oneConnection (some 6) [1025, 1024] = .ok m' ∧
      Connects ⟨1, 80⟩ 2 oneConnection 6 1025 m' :=
  (connects_iff default ⟨1, 80⟩ 2 oneConnection 6 [1025, 1024] 1025 (by decide)).mpr rfl

end TcbManager

end Mstack
