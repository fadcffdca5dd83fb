import BrainSdk.Pool.Locked

/-!
# The TypeScript pool

`Pool` of `pool.ts`. A slot whose client is being replaced holds the promise of the attempt, which every caller of the slot awaits. What
runs between two awaits is one step: the beginning of `getHealthy`, what an attempt does when its dial has settled, and what a caller
gets when the attempt has. The promise is cleared by the attempt itself.
-/

namespace BrainSdk.TypeScript.Pool

open Library BrainSdk.Pool

/-- An attempt to replace the client of a slot: its dial is under way, or has settled, or the attempt itself has. -/
inductive Attempt where
  | dialling (i : Nat)
  | dialled (i c : Nat)
  | refused (i : Nat)
  | fulfilled (i c : Nat)
  | rejected (i : Nat)
  deriving DecidableEq, Repr

/-- A call of `getHealthy`: it has an attempt to await, or it is over. -/
inductive Call where
  | awaiting (i attempt : Nat)
  | returned (i c : Nat)
  | raised (i : Nat)
  deriving DecidableEq, Repr

structure State where
  next : Nat
  clients : List Nat
  reconnecting : List (Option Nat)
  attempts : List Attempt
  conns : List Conn
  calls : List Call
  closeCalled : Bool
  deriving DecidableEq, Repr

/-- The steps: a call, what a dial comes to, an attempt that goes on after its dial, a call that goes on after its attempt, a client that
dies, and the call of `close`. -/
inductive Action where
  | getHealthy
  | dialOk (a : Nat)
  | dialFail (a : Nat)
  | resume (a : Nat)
  | deliver (k : Nat)
  | die (c : Nat)
  | close
  deriving DecidableEq, Repr

namespace State

/-- A pool of `size` clients. -/
def init (size : Nat) : State :=
  { next := 0
    clients := List.range size
    reconnecting := List.replicate size none
    attempts := []
    conns := List.replicate size Conn.fresh
    calls := []
    closeCalled := false }

/-- `isClosed` of a client. -/
def isClosed (s : State) (c : Nat) : Bool := BrainSdk.Pool.isClosed s.conns c

/-- `this.next += 1` on a `number`. -/
def bump (n : Nat) : Nat := if n < 2 ^ 53 then n + 1 else n

/-- `getHealthy` up to its first await. A call that starts an attempt awaits it like the others. -/
def getHealthy (s : State) : Option State :=
  if s.clients = [] then none
  else
    let i := s.next % s.clients.length
    let s' := { s with next := bump s.next }
    match s.clients[i]?, s.reconnecting[i]? with
    | some c, some inFlight =>
      if s.isClosed c then
        match inFlight with
        | some a => some { s' with calls := s.calls ++ [.awaiting i a] }
        | none =>
          some { s' with
            attempts := s.attempts ++ [.dialling i]
            reconnecting := s.reconnecting.set i (some s.attempts.length)
            calls := s.calls ++ [.awaiting i s.attempts.length] }
      else some { s' with calls := s.calls ++ [.returned i c] }
    | _, _ => none

/-- An attempt after its dial: the client is put into its slot, and in either case the promise of the slot is cleared. -/
def resume (s : State) (a : Nat) : Option State :=
  match s.attempts[a]? with
  | some (.dialled i c) =>
    some { s with
      clients := s.clients.set i c
      reconnecting := s.reconnecting.set i none
      attempts := s.attempts.set a (.fulfilled i c) }
  | some (.refused i) =>
    some { s with reconnecting := s.reconnecting.set i none, attempts := s.attempts.set a (.rejected i) }
  | _ => none

/-- A call after the attempt it awaits. -/
def deliver (s : State) (k : Nat) : Option State :=
  match s.calls[k]? with
  | some (.awaiting i a) =>
    match s.attempts[a]? with
    | some (.fulfilled _ c) => some { s with calls := s.calls.set k (.returned i c) }
    | some (.rejected _) => some { s with calls := s.calls.set k (.raised i) }
    | _ => none
  | _ => none

def step (s : State) : Action → Option State
  | .getHealthy => s.getHealthy
  | .dialOk a =>
    match s.attempts[a]? with
    | some (.dialling i) =>
      some { s with conns := s.conns ++ [Conn.fresh], attempts := s.attempts.set a (.dialled i s.conns.length) }
    | _ => none
  | .dialFail a =>
    match s.attempts[a]? with
    | some (.dialling i) => some { s with attempts := s.attempts.set a (.refused i) }
    | _ => none
  | .resume a => s.resume a
  | .deliver k => s.deliver k
  | .die c => some { s with conns := s.conns.modify c (fun conn => { conn with closed := true }) }
  | .close =>
    if s.closeCalled then none
    else some { s with
      closeCalled := true
      conns := updateAll (fun conn => { conn with closeCalled := true }) s.clients s.conns }

end State

/-- A pool of `size` clients. -/
def machine (size : Nat) : Machine State Action := ⟨State.init size, State.step⟩

end BrainSdk.TypeScript.Pool
