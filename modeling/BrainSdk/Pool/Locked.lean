import BrainSdk.Library.Machine
import BrainSdk.Library.Tables
import Mathlib.Algebra.Group.Nat.Defs

/-!
# Pools with a lock for each slot

`Pool` of `pool.py`, `AsyncPool` of `aio/pool.py` and `Pool` of `pool.rs`. `get_healthy` is the same in the three: it looks at the client
of the next slot, and if that is closed it takes the lock of the slot, looks again, dials and puts the new client in its place. A call
is taken apart at every read of shared state, so calls may be interleaved wherever threads can be. The pools differ in how the counter
goes on, in whether a call can be cancelled, and in how they are closed.
-/

namespace BrainSdk.Pool

open Library

/-- A client that was dialled: whether its `is_closed` says so, and whether its `close` has been called. -/
structure Conn where
  closed : Bool
  closeCalled : Bool
  deriving DecidableEq, Repr

/-- A client that has just been dialled. -/
def Conn.fresh : Conn := ⟨false, false⟩

/-- `is_closed` of a client. -/
def isClosed (conns : List Conn) (c : Nat) : Bool := (conns[c]?).any Conn.closed

/-- How a pool is closed: client by client as the list is at the time, all clients of the list at once, or not by a call. -/
inductive Closing where
  | live
  | snapshot
  | absent
  deriving DecidableEq, Repr

/-- What is particular to a pool. -/
structure Kind where
  /-- The counter after one call. -/
  bump : Nat → Nat
  /-- There are a host, a port and a configuration to dial with. -/
  hasTarget : Bool
  /-- A call may be dropped where it awaits. -/
  cancellable : Bool
  closing : Closing

/-- Where a call of `get_healthy` is. -/
inductive Pc where
  | entered (i : Nat)
  | looked (i c : Nat)
  | waiting (i : Nat)
  | locked (i : Nat)
  | rechecking (i c : Nat)
  | dialling (i : Nat)
  | dialled (i c : Nat)
  | returned (i c : Nat)
  | raised (i : Nat)
  deriving DecidableEq, Repr

/-- Where the call of `close` is: the clients it has still to close, or the slot it looks at next. -/
inductive Closer where
  | idle
  | at (j : Nat)
  | pending (clients : List Nat)
  | done
  deriving DecidableEq, Repr

structure State where
  counter : Nat
  clients : List Nat
  locks : List (Option Nat)
  conns : List Conn
  calls : List Pc
  closer : Closer
  deriving DecidableEq, Repr

/-- The steps: a new call, a step of a call, what its dial comes to, a call that is dropped, a client that dies, and a step of `close`. -/
inductive Action where
  | begin
  | advance (k : Nat)
  | dialOk (k : Nat)
  | dialFail (k : Nat)
  | cancel (k : Nat)
  | die (c : Nat)
  | close
  deriving DecidableEq, Repr

namespace State

/-- A pool of `size` clients. -/
def init (size : Nat) : State :=
  { counter := 0
    clients := List.range size
    locks := List.replicate size none
    conns := List.replicate size Conn.fresh
    calls := []
    closer := .idle }

def isClosed (s : State) (c : Nat) : Bool := Pool.isClosed s.conns c

def setCall (s : State) (k : Nat) (pc : Pc) : State := { s with calls := s.calls.set k pc }

def acquire (s : State) (i k : Nat) : State := { s with locks := s.locks.set i (some k) }

def release (s : State) (i : Nat) : State := { s with locks := s.locks.set i none }

/-- `close` of a client. -/
def closeClient (s : State) (c : Nat) : State := { s with conns := s.conns.modify c (fun conn => { conn with closeCalled := true }) }

/-- A step of a call that is at `pc`. -/
def advance (P : Kind) (s : State) (k : Nat) : Pc → Option State
  | .entered i => (s.clients[i]?).map (fun c => s.setCall k (.looked i c))
  | .looked i c =>
    if s.isClosed c then
      if P.hasTarget then some (s.setCall k (.waiting i)) else some (s.setCall k (.returned i c))
    else some (s.setCall k (.returned i c))
  | .waiting i => if s.locks[i]? = some none then some ((s.acquire i k).setCall k (.locked i)) else none
  | .locked i => (s.clients[i]?).map (fun c => s.setCall k (.rechecking i c))
  | .rechecking i c =>
    if s.isClosed c then some (s.setCall k (.dialling i)) else some ((s.release i).setCall k (.returned i c))
  | .dialled i c => some (({ s with clients := s.clients.set i c }.release i).setCall k (.returned i c))
  | .dialling _ | .returned _ _ | .raised _ => none

/-- A step of `close`. -/
def close (P : Kind) (s : State) : Option State :=
  match P.closing, s.closer with
  | .live, .idle => some { s with closer := .at 0 }
  | .live, .at j =>
    match s.clients[j]? with
    | some c => some { s.closeClient c with closer := .at (j + 1) }
    | none => some { s with closer := .done }
  | .snapshot, .idle => some { s with closer := .pending s.clients }
  | .snapshot, .pending (c :: rest) => some { s.closeClient c with closer := .pending rest }
  | .snapshot, .pending [] => some { s with closer := .done }
  | _, _ => none

/-- A step of the pool. The slot of a call is the counter modulo the number of clients. -/
def step (P : Kind) (s : State) : Action → Option State
  | .begin =>
    if s.clients = [] then none
    else some { s with counter := P.bump s.counter, calls := s.calls ++ [.entered (s.counter % s.clients.length)] }
  | .advance k => (s.calls[k]?).bind (s.advance P k)
  | .dialOk k =>
    match s.calls[k]? with
    | some (.dialling i) => some ({ s with conns := s.conns ++ [Conn.fresh] }.setCall k (.dialled i s.conns.length))
    | _ => none
  | .dialFail k =>
    match s.calls[k]? with
    | some (.dialling i) => some ((s.release i).setCall k (.raised i))
    | _ => none
  | .cancel k =>
    if P.cancellable then
      match s.calls[k]? with
      | some (.waiting i) => some (s.setCall k (.raised i))
      | some (.dialling i) => some ((s.release i).setCall k (.raised i))
      | _ => none
    else none
  | .die c => some { s with conns := s.conns.modify c (fun conn => { conn with closed := true }) }
  | .close => s.close P

end State

/-- A pool of `size` clients. -/
def machine (P : Kind) (size : Nat) : Machine State Action := ⟨State.init size, State.step P⟩

end BrainSdk.Pool

namespace BrainSdk.Python

/-- `Pool`, with or without a target. -/
def pool (hasTarget : Bool) : Pool.Kind := ⟨fun n => n + 1, hasTarget, false, .live⟩

/-- `AsyncPool`, with or without a target. -/
def asyncPool (hasTarget : Bool) : Pool.Kind := ⟨fun n => n + 1, hasTarget, true, .snapshot⟩

end BrainSdk.Python

namespace BrainSdk.Rust

/-- `Pool`. The counter is an `AtomicUsize`, and `close` takes the pool away from its callers. -/
def pool : Pool.Kind := ⟨fun n => (n + 1) % 2 ^ 64, true, true, .absent⟩

end BrainSdk.Rust
