import BrainSdk.Library.Machine
import BrainSdk.Library.Tables

/-!
# Opening an asyncio pool

`connect_with` and `_close_all` of `aio/pool.py`. `connect_with` awaits two gathers: that of the dials, and, when a dial has failed, that of
the tasks that close the clients of the others. Cancelling it cancels the children of the gather it awaits that have not finished; a dial
that is cancelled closes its own socket and fails, a closing task that has begun closes its client all the same, and one that has not
begun never does. The second gather gives up as soon as one of its tasks has ended by being cancelled.
-/

namespace BrainSdk.Python.AsyncPool

open Library

/-- What has become of one dial, and of its client when the dial has succeeded. -/
inductive Member where
  | dialling
  | failed
  | opened
  /-- The closing task has not begun. -/
  | scheduled
  /-- The closing task has begun. -/
  | closing
  /-- The client is closed, and its closing task is not over. -/
  | closed
  | ended (cancelled : Bool)
  /-- The closing task was cancelled before it began. -/
  | skipped
  deriving DecidableEq, Repr

namespace Member

/-- The dial has succeeded, and its client has not been closed. -/
def isOpen : Member → Bool
  | .opened | .scheduled | .closing | .skipped => true
  | .dialling | .failed | .closed | .ended _ => false

/-- The closing task has begun and is not over. -/
def isUnfinished : Member → Bool
  | .closing | .closed => true
  | _ => false

/-- The closing task has ended by being cancelled. -/
def isCancelled : Member → Bool
  | .ended cancelled => cancelled
  | .skipped => true
  | _ => false

/-- A closing task for the client, when the dial has succeeded. -/
def close : Member → Member
  | .opened => .scheduled
  | m => m

/-- The closing task when it is cancelled. -/
def cancel : Member → Member
  | .scheduled => .skipped
  | m => m

end Member

/-- What `connect_with` raises: `ProtocolError` for the size, the failure of a dial, or `CancelledError`. -/
inductive Error where
  | size
  | dial (i : Nat)
  | cancelled
  deriving DecidableEq, Repr

/-- Where `connect_with` is. -/
inductive Phase where
  | dialling
  | cleaning
  | returned
  | raised (e : Error)
  deriving DecidableEq, Repr

structure State where
  members : List Member
  /-- `connect_with` was cancelled where it is. -/
  cancelRequested : Bool
  phase : Phase
  deriving DecidableEq, Repr

/-- The steps: what a dial comes to, the stages of a closing task, a cancellation, and `connect_with` going on. -/
inductive Action where
  | dialOk (i : Nat)
  | dialFail (i : Nat)
  | beginClose (i : Nat)
  | closed (i : Nat)
  | endClose (i : Nat) (cancelled : Bool)
  | cancel
  | resume
  deriving DecidableEq, Repr

namespace State

/-- `connect_with` up to its first await. -/
def connectWith (size : Int) : State :=
  if size < 1 then ⟨[], false, .raised .size⟩ else ⟨List.replicate size.toNat .dialling, false, .dialling⟩

/-- Member `i` goes from `old` to `new`. -/
def move (s : State) (i : Nat) (old new : Member) : Option State :=
  if s.members[i]? = some old then some { s with members := s.members.set i new } else none

/-- `failures[0]`. -/
def failure (s : State) : Option Nat := s.members.findIdx? (· == .failed)

/-- `connect_with` after the gather that it awaits. A gather of no tasks is over at once. -/
def resume (s : State) : Option State :=
  match s.phase with
  | .dialling =>
    if s.members.contains .dialling then none
    else if s.cancelRequested then some { s with phase := .raised .cancelled }
    else
      match s.failure with
      | none => some { s with phase := .returned }
      | some i =>
        if s.members.contains .opened then
          some { members := s.members.map Member.close, cancelRequested := false, phase := .cleaning }
        else some { s with phase := .raised (.dial i) }
  | .cleaning =>
    if s.members.any Member.isCancelled then some { s with phase := .raised .cancelled }
    else if s.members.contains .scheduled || s.members.any Member.isUnfinished then none
    else if s.cancelRequested then some { s with phase := .raised .cancelled }
    else s.failure.map fun i => { s with phase := .raised (.dial i) }
  | .returned | .raised _ => none

def step (s : State) : Action → Option State
  | .dialOk i => if s.phase = .dialling ∧ s.cancelRequested = false then s.move i .dialling .opened else none
  | .dialFail i => if s.phase = .dialling then s.move i .dialling .failed else none
  | .beginClose i => if s.phase = .cleaning then s.move i .scheduled .closing else none
  | .closed i => if s.phase = .cleaning then s.move i .closing .closed else none
  | .endClose i cancelled =>
    if s.phase = .cleaning ∧ (cancelled = true → s.cancelRequested = true) then s.move i .closed (.ended cancelled) else none
  | .cancel =>
    match s.phase with
    | .dialling => some { s with cancelRequested := true }
    | .cleaning => some { s with cancelRequested := true, members := s.members.map Member.cancel }
    | .returned | .raised _ => none
  | .resume => s.resume

end State

/-- `connect_with` for a pool of `size` clients. -/
def machine (size : Int) : Machine State Action := ⟨State.connectWith size, State.step⟩

end BrainSdk.Python.AsyncPool
