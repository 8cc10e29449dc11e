import PowerDNS.Base.TimeVal
import PowerDNS.Lib.OrderedUnique
import PowerDNS.Lib.TimerQueue

/-!
# `MTasker`

Threads that wait for events, and the kernel that wakes them. A thread has control until it waits,
yields or ends; the kernel has it in between, and gives it away in `sendEvent`, and in `schedule`:
to a thread of the run queue, or, when there is nothing else to do, to each thread whose time-out
has passed, one after the other, while these threads may wait again.

What the threads do is not known: `Threads` says, for each time that one gets control, which calls
it makes before it hands control back. A waiter is recognised by its context, which is a new one
for each call of `waitEvent` that waits; iterators of the index by deadlines are contexts, too.

The model keeps a log of what happened, the newest first.
-/

namespace PowerDNS

open OrderedUnique

/-! ### Threads -/

section

variable (EventKey : Type)

/-- What a thread calls. -/
inductive ThreadCall where
  | makeThread
  | waitEvent (key : EventKey) (timeoutMsec : UInt32) (now : TimeVal)

/-- What a thread does at last, if it does not wait. -/
inductive ThreadEnd where
  | yield
  | exit

/-- What a thread does with the control it is given. -/
structure Turn where
  calls : List (ThreadCall EventKey)
  last : ThreadEnd

/-- What is done in each turn. -/
abbrev Threads := Nat → Turn EventKey

/-! ### The state -/

/-- A thread that waits. -/
structure MTasker.Waiter where
  key : EventKey
  context : Nat
  ttd : TimeVal
  tid : Nat

end

/-- `waitstatusenum`, but for the error, which is never stored. -/
inductive WaitStatus where
  | TimeOut
  | Answer
deriving DecidableEq

/-- What happens: a call of `waitEvent` waits, or comes back at once; an event is sent; the kernel
begins to look for time-outs; a call of `waitEvent` that has waited returns. -/
inductive WaitLog (EventKey EventVal : Type) where
  | waits (context : Nat) (key : EventKey) (timeoutMsec : UInt32) (now : TimeVal)
  | refused (key : EventKey)
  | sent (key : EventKey) (val : Option EventVal)
  | looked (rnow : TimeVal)
  | returned (context : Nat) (status : WaitStatus) (val : Option EventVal) (key : Option EventKey)

/-- The queues, the threads and the waiters; what a waiter is woken with; the number of contexts
made and of turns taken; and the log. -/
structure MTasker (EventKey EventVal : Type) where
  d_runQueue : List Nat := []
  d_zombiesQueue : List Nat := []
  d_threads : List Nat := []
  d_tid : Nat := 0
  d_maxtid : Nat := 0
  d_waitval : Option EventVal := none
  d_waitstatus : WaitStatus := .TimeOut
  d_eventkey : Option EventKey := none
  /-- In the order of the index `KeyTag`. -/
  d_waiters : List (MTasker.Waiter EventKey) := []
  contexts : Nat := 0
  turns : Nat := 0
  log : List (WaitLog EventKey EventVal) := []

namespace MTasker

variable {EventKey EventVal : Type} (less : EventKey → EventKey → Bool)

/-! ### What threads do -/

/-- `makeThread`. -/
def makeThread (m : MTasker EventKey EventVal) : MTasker EventKey EventVal :=
  { m with
    d_threads := m.d_threads ++ [m.d_maxtid]
    d_runQueue := m.d_runQueue ++ [m.d_maxtid]
    d_maxtid := m.d_maxtid + 1 }

/-- `w.ttd`. -/
def deadline (timeoutMsec : UInt32) (now : TimeVal) : TimeVal :=
  if timeoutMsec ≠ 0 then TimeVal.ofMsec timeoutMsec + now else ⟨0, 0, Nat.zero_le _⟩

/-- `waitEvent`, when it waits: up to where it hands over control. -/
def startWait (m : MTasker EventKey EventVal) (key : EventKey) (timeoutMsec : UInt32)
    (now : TimeVal) : MTasker EventKey EventVal :=
  { m with
    d_waiters := TimerQueue.insert Waiter.ttd
      { key := key, context := m.contexts, ttd := deadline timeoutMsec now, tid := m.d_tid }
      m.d_waiters
    contexts := m.contexts + 1
    log := .waits m.contexts key timeoutMsec now :: m.log }

/-- `waitEvent`, when there is such a waiter already. -/
def refuse (m : MTasker EventKey EventVal) (key : EventKey) : MTasker EventKey EventVal :=
  { m with log := .refused key :: m.log }

/-- The end of a turn in which the thread did not wait. -/
def endTurn (m : MTasker EventKey EventVal) : ThreadEnd → MTasker EventKey EventVal
  | .yield => { m with d_runQueue := m.d_runQueue ++ [m.d_tid] }
  | .exit => { m with d_zombiesQueue := m.d_zombiesQueue ++ [m.d_tid] }

/-- The calls of a turn, up to the first that waits. -/
def perform (last : ThreadEnd) :
    List (ThreadCall EventKey) → MTasker EventKey EventVal → MTasker EventKey EventVal
  | [], m => m.endTurn last
  | .makeThread :: calls, m => perform last calls m.makeThread
  | .waitEvent key timeoutMsec now :: calls, m =>
    if m.d_waiters.any fun w => same less w.key key then perform last calls (m.refuse key)
    else m.startWait key timeoutMsec now

/-- A thread is given control. -/
def takeTurn (threads : Threads EventKey) (m : MTasker EventKey EventVal) :
    MTasker EventKey EventVal :=
  perform less (threads m.turns).last (threads m.turns).calls { m with turns := m.turns + 1 }

/-! ### What the kernel does -/

/-- Takes a waiter out, which returns from `waitEvent` with what has been set. -/
def wake (m : MTasker EventKey EventVal) (w : Waiter EventKey) : MTasker EventKey EventVal :=
  { m with
    d_waiters := TimerQueue.erase Waiter.context m.d_waiters w.context
    d_tid := w.tid
    d_eventkey := some w.key
    log := .returned w.context m.d_waitstatus
      (if m.d_waitstatus = .Answer then m.d_waitval else none) (some w.key) :: m.log }

/-- What `sendEvent` sets. -/
def setAnswer (m : MTasker EventKey EventVal) (key : EventKey) (val : Option EventVal) :
    MTasker EventKey EventVal :=
  { m with
    d_waitstatus := .Answer
    d_waitval := val.or m.d_waitval
    log := .sent key val :: m.log }

/-- `sendEvent`, and what it returns. -/
def sendEvent (threads : Threads EventKey) (m : MTasker EventKey EventVal) (key : EventKey)
    (val : Option EventVal) : MTasker EventKey EventVal × Int :=
  match m.d_waiters.find? fun w => same less w.key key with
  | none => (m, 0)
  | some w => (takeTurn less threads ((m.setAnswer key val).wake w), 1)

/-- The loop of `schedule` over the waiters, from the iterator `i` on. It has no result when it
does not come to an end. -/
def timeOuts (threads : Threads EventKey) (rnow : TimeVal) :
    Nat → Option Nat → MTasker EventKey EventVal → Option (MTasker EventKey EventVal)
  | 0, _, _ => none
  | _ + 1, none, m => some m
  | fuel + 1, some i, m =>
    match TimerQueue.get Waiter.context m.d_waiters i with
    | none => none
    | some w =>
      if w.ttd.tv_sec ≠ 0 ∧ w.ttd < rnow then
        timeOuts threads rnow fuel (TimerQueue.next Waiter.context m.d_waiters i)
          (takeTurn less threads ({ m with d_waitstatus := .TimeOut }.wake w))
      else if w.ttd.tv_sec ≠ 0 then some m
      -- a waiter without a time-out: the iterator stays where it is
      else timeOuts threads rnow fuel (some i) m

/-- `schedule`, and what it returns. -/
def schedule (threads : Threads EventKey) (fuel : Nat) (m : MTasker EventKey EventVal)
    (rnow : TimeVal) : Option (MTasker EventKey EventVal × Bool) :=
  match m.d_runQueue, m.d_zombiesQueue with
  | tid :: _, _ =>
    let m := takeTurn less threads { m with d_tid := tid }
    some ({ m with d_runQueue := m.d_runQueue.tail }, true)
  | [], tid :: zombies =>
    some ({ m with d_threads := m.d_threads.erase tid, d_zombiesQueue := zombies }, true)
  | [], [] =>
    (timeOuts less threads rnow fuel (TimerQueue.first Waiter.context m.d_waiters)
      { m with log := .looked rnow :: m.log }).map fun m => (m, false)

end MTasker

end PowerDNS
