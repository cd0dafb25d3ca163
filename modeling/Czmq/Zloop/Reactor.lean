import Czmq.Zlistx.CursorList
import Czmq.Zsys

/-! The reactor of `zloop.c` as a machine. `zloop_start` is cut where it calls a handler: then
control is with the application, which may call any function of the reactor before the handler
returns. A label has what comes from outside: the calls, the value of a handler, the clock and what
`zmq_poll` gives. -/

namespace Czmq

namespace CursorList

variable {I : Type}

def toFirst (a : CursorList I) : CursorList I := (a.goTo a.entries.head?).2

def toLast (a : CursorList I) : CursorList I := (a.goTo a.entries.getLast?).2

def toNext (a : CursorList I) : CursorList I :=
  match a.cursor with
  | none => a.toFirst
  | some h => (a.goTo (a.after h).head?).2

def set (a : CursorList I) (h : Nat) (x : I) : CursorList I :=
  { a with entries := a.entries.map fun e => if e.1 = h then (h, some x) else e }

def items (a : CursorList I) : List I := a.entries.filterMap Prod.snd

end CursorList

def owning {I : Type} : ListCallbacks I := ⟨none, true, fun _ _ => 0⟩

def borrowing {I : Type} : ListCallbacks I := ⟨none, false, fun _ _ => 0⟩

namespace Zloop

structure Sock where
  addr : Nat
  handle : Option Nat
  deriving DecidableEq

structure PollItem where
  socket : Option Nat
  fd : Int
  events : Nat
  revents : Nat
  deriving DecidableEq

def pollin : Nat := 1
def pollerr : Nat := 4

structure Action where
  handler : Nat
  arg : Nat
  deriving DecidableEq

/-- `s_reader_t`; the handle is the one that the reader has in the list. -/
structure Reader where
  sock : Sock
  handler : Option Nat
  arg : Nat
  errors : Nat
  tolerant : Bool

structure Poller where
  item : PollItem
  action : Action
  errors : Nat
  tolerant : Bool

structure Timer where
  timerId : Int
  action : Action
  delay : Nat
  times : Nat
  when : Int

structure Ticket where
  delay : Nat
  when : Int
  action : Action
  deleted : Bool

end Zloop

open Zloop

/-- `zloop_t`. Addresses are not handed out twice; `fresh` is the next. -/
structure Zloop where
  readers : CursorList Reader
  pollers : CursorList Poller
  timers : CursorList Timer
  tickets : CursorList Ticket
  lastTimerId : Int
  maxTimers : Nat
  ticketDelay : Nat
  pollSize : Nat
  pollset : List PollItem
  readact : List (Option Reader)
  pollact : List (Option Poller)
  needRebuild : Bool
  verbose : Bool
  terminated : Bool
  nonstop : Bool
  zombies : CursorList Int
  fresh : Nat

namespace Zloop

def new : Zloop where
  readers := .empty
  pollers := .empty
  timers := .empty
  tickets := .empty
  lastTimerId := 0
  maxTimers := 0
  ticketDelay := 0
  pollSize := 0
  pollset := []
  readact := []
  pollact := []
  needRebuild := false
  verbose := false
  terminated := false
  nonstop := false
  zombies := .empty
  fresh := 0

def int64 (n : Int) : Int := n.bmod (2 ^ 64)

def nextTimerId (self : Zloop) : Except Fault (Int × Zloop) :=
  if self.lastTimerId < intMax then
    .ok (self.lastTimerId + 1, { self with lastTimerId := self.lastTimerId + 1 })
  else .error .overflow

def timerRemove (self : Zloop) (timerId : Int) : Except Fault Zloop := do
  let timers ← Loop.untilDone .endlessLoop
    (fun timers : CursorList Timer =>
      match timers.cursor with
      | none => .ok (.inr timers)
      | some h =>
        match timers.itemAt h with
        | none => .error .useAfterFree
        | some timer =>
          if timer.timerId = timerId then .ok (.inr (timers.step owning (.delete h)).2)
          else .ok (.inl timers.toNext)) (self.timers.entries.length + 1) self.timers.toFirst
  pure { self with timers := timers }

def reader (self : Zloop) (sock : Sock) (handler : Option Nat) (arg : Nat) : Zloop :=
  { self with
    readers := (self.readers.step owning (.addEnd self.fresh (some ⟨sock, handler, arg, 0, false⟩))).2
    needRebuild := true
    fresh := self.fresh + 1 }

/-- The loop of `zloop_reader_end` and `zloop_poller_end`, and whether it deleted something. -/
def endMatching {I : Type} (test : I → Bool) (list : CursorList I) :
    Except Fault (CursorList I × Bool) :=
  Loop.untilDone .endlessLoop
    (fun s : CursorList I × Bool =>
      match s.1.cursor with
      | none => .ok (.inr s)
      | some h =>
        match s.1.itemAt h with
        | none => .error .useAfterFree
        | some item =>
          if test item then .ok (.inl ((s.1.step owning (.delete h)).2.toNext, true))
          else .ok (.inl (s.1.toNext, s.2))) (list.entries.length + 1) (list.toFirst, false)

def markMatching {I : Type} (test : I → Bool) (mark : I → I) (list : CursorList I) : CursorList I :=
  { list with
    entries := list.entries.map fun e => (e.1, e.2.map fun x => if test x then mark x else x)
    cursor := none }

def readerEnd (self : Zloop) (sock : Sock) : Except Fault Zloop := do
  let (readers, found) ← endMatching (fun reader => reader.sock.addr == sock.addr) self.readers
  pure { self with readers := readers, needRebuild := self.needRebuild || found }

def readerSetTolerant (self : Zloop) (sock : Sock) : Zloop :=
  { self with
    readers := markMatching (fun reader => reader.sock.addr == sock.addr)
      (fun reader => { reader with tolerant := true }) self.readers }

/-- `zloop_poller`; `unknown` if the type of the socket has no name. -/
def poller (self : Zloop) (item : PollItem) (action : Action) (unknown : Bool) : Int × Zloop :=
  if item.socket.isSome && unknown then (-1, self)
  else (0, { self with
    pollers := (self.pollers.step owning (.addEnd self.fresh (some ⟨item, action, 0, false⟩))).2
    needRebuild := true
    fresh := self.fresh + 1 })

def pollerMatches (item : PollItem) (poller : Poller) : Bool :=
  if item.socket.isSome then item.socket == poller.item.socket else item.fd == poller.item.fd

def pollerEnd (self : Zloop) (item : PollItem) : Except Fault Zloop := do
  let (pollers, found) ← endMatching (pollerMatches item) self.pollers
  pure { self with pollers := pollers, needRebuild := self.needRebuild || found }

def pollerSetTolerant (self : Zloop) (item : PollItem) : Zloop :=
  { self with
    pollers := markMatching (pollerMatches item) (fun poller => { poller with tolerant := true })
      self.pollers }

def timer (self : Zloop) (delay times : Nat) (action : Action) (clock : Int) :
    Except Fault (Int × Zloop) :=
  if self.maxTimers ≠ 0 ∧ self.timers.entries.length = self.maxTimers then .ok (-1, self)
  else do
    let (timerId, self) ← self.nextTimerId
    let timer : Timer := ⟨timerId, action, delay, times, int64 (clock + delay)⟩
    pure (timerId, { self with
      timers := (self.timers.step owning (.addEnd self.fresh (some timer))).2
      fresh := self.fresh + 1 })

/-- `zloop_timer_end`. While the reactor may run, the timer is held as a pointer; `zlistx_add_end`
takes no `NULL`. -/
def timerEnd (self : Zloop) (timerId : Int) : Except Fault Zloop :=
  if self.terminated then self.timerRemove timerId
  else if timerId = 0 then .error .assertion
  else .ok { self with
    zombies := (self.zombies.step borrowing (.addEnd self.fresh (some timerId))).2
    fresh := self.fresh + 1 }

def ticket (self : Zloop) (action : Action) (clock : Int) : Except Fault (Nat × Zloop) :=
  if self.ticketDelay = 0 then .error .assertion
  else
    let ticket : Ticket := ⟨self.ticketDelay, int64 (clock + self.ticketDelay), action, false⟩
    .ok (self.fresh, { self with
      tickets := (self.tickets.step owning (.addEnd self.fresh (some ticket))).2
      fresh := self.fresh + 1 })

def changeTicket (self : Zloop) (handle : Nat) (change : Ticket → Ticket) : Except Fault Zloop :=
  match self.tickets.itemAt handle with
  | none => .error .useAfterFree
  | some ticket => .ok { self with
      tickets := ((self.tickets.set handle (change ticket)).step owning (.moveEnd handle)).2 }

def ticketReset (self : Zloop) (handle : Nat) (clock : Int) : Except Fault Zloop :=
  self.changeTicket handle fun ticket => { ticket with when := int64 (clock + ticket.delay) }

def ticketDelete (self : Zloop) (handle : Nat) : Except Fault Zloop :=
  self.changeTicket handle fun ticket => { ticket with deleted := true }

def rebuildPollset (self : Zloop) : Zloop :=
  let readers := self.readers.items
  let pollers := self.pollers.items
  { self with
    pollSize := readers.length + pollers.length
    pollset := readers.map (fun reader => ⟨reader.sock.handle, 0, pollin, 0⟩) ++ pollers.map (·.item)
    readact := readers.map some ++ pollers.map fun _ => none
    pollact := readers.map (fun _ => none) ++ pollers.map some
    readers := { self.readers with cursor := none }
    pollers := { self.pollers with cursor := none }
    needRebuild := false }

/-- What `s_tickless` leaves behind: it walks through all timers and looks at the first ticket. -/
def tickless (self : Zloop) : Zloop :=
  { self with timers := { self.timers with cursor := none }, tickets := self.tickets.toFirst }

def Timer.afterCall (timer : Timer) : Option Timer :=
  if timer.times ≠ 0 ∧ timer.times - 1 = 0 then none
  else some { timer with times := timer.times - 1, when := int64 (timer.when + timer.delay) }

def timerCalled (self : Zloop) (h : Nat) : Except Fault Zloop :=
  match self.timers.itemAt h with
  | none => .error .useAfterFree
  | some timer =>
    match timer.afterCall with
    | none => .ok { self with timers := (self.timers.step owning (.delete h)).2 }
    | some timer => .ok { self with timers := self.timers.set h timer }

def sweepTickets (self : Zloop) : Except Fault Zloop := do
  let tickets ← Loop.untilDone .endlessLoop
    (fun tickets : CursorList Ticket =>
      match tickets.cursor with
      | none => .ok (.inr tickets)
      | some h =>
        match tickets.itemAt h with
        | none => .error .useAfterFree
        | some ticket =>
          if ticket.deleted then .ok (.inl (tickets.step owning (.delete h)).2.toLast)
          else .ok (.inr tickets)) (self.tickets.entries.length + 1) self.tickets.toLast
  pure { self with tickets := tickets }

def drainZombies (self : Zloop) : Except Fault Zloop :=
  Loop.untilDone .endlessLoop
    (fun self : Zloop =>
      match self.zombies.toFirst.cursor with
      | none => .ok (.inr { self with zombies := self.zombies.toFirst })
      | some _ => do
        let (timerId, zombies) := self.zombies.toFirst.detach none
        let self ← { self with zombies := zombies }.timerRemove (timerId.getD 0)
        pure (.inl self)) (self.zombies.entries.length + 1) self

end Zloop

/-! ## The machine -/

namespace Reactor

/-- A handler is called, or `zloop_start` or another function returns. -/
inductive Event where
  | idle
  | timer (timerId : Int) (action : Action)
  | ticket (action : Action)
  | reader (sock : Sock) (action : Action)
  | poller (item : PollItem) (action : Action)
  | started (rc : Int)
  | result (rc : Int)
  | handle (ticket : Nat)
  deriving DecidableEq

/-- Where a call of `zloop_start` is. In the handlers control is with the application. -/
inductive Pc where
  | guard
  | timers (timeNow : Int) (timer : Option Nat)
  | timerHandler (timeNow : Int) (timer : Nat)
  | tickets (timeNow : Int) (ticket : Option Nat)
  | ticketHandler (timeNow : Int) (ticket : Nat)
  | sweep
  | items (itemNbr : Nat)
  | itemHandler (itemNbr : Nat)
  | zombies
  deriving DecidableEq

structure Frame where
  rc : Int
  pc : Pc
  deriving DecidableEq

/-- The reactor, until destroyed, and the calls of `zloop_start`, latest first. -/
structure State where
  loop : Option Zloop
  frames : List Frame

/-- What a pass takes from outside: `zsys_interrupted` before and behind `zmq_poll`, its result,
whether `errno` is `EINTR`, and the clock. -/
structure Turn where
  interrupted : Bool
  rc : Int
  revents : List Nat
  eintr : Bool
  interruptedAfter : Bool
  timeNow : Int

inductive Call where
  | reader (sock : Sock) (handler : Option Nat) (arg : Nat)
  | readerEnd (sock : Sock)
  | readerSetTolerant (sock : Sock)
  | poller (item : PollItem) (action : Action) (unknown : Bool)
  | pollerEnd (item : PollItem)
  | pollerSetTolerant (item : PollItem)
  | timer (delay times : Nat) (action : Action) (clock : Int)
  | timerEnd (timerId : Int)
  | ticket (action : Action) (clock : Int)
  | ticketReset (handle : Nat) (clock : Int)
  | ticketDelete (handle : Nat)
  | setTicketDelay (ticketDelay : Nat)
  | setVerbose (verbose : Bool)
  | setNonstop (nonstop : Bool)
  | setMaxTimers (maxTimers : Nat)
  | start
  | destroy

inductive Label where
  | call (call : Call)
  | ret (rc : Int)
  | turn (turn : Turn)
  | go

def apply (z : Zloop) : Call → Except Fault (Event × Zloop)
  | .reader sock handler arg => .ok (.result 0, z.reader sock handler arg)
  | .readerEnd sock => return (.idle, ← z.readerEnd sock)
  | .readerSetTolerant sock => .ok (.idle, z.readerSetTolerant sock)
  | .poller item action unknown =>
    let (rc, z) := z.poller item action unknown
    .ok (.result rc, z)
  | .pollerEnd item => return (.idle, ← z.pollerEnd item)
  | .pollerSetTolerant item => .ok (.idle, z.pollerSetTolerant item)
  | .timer delay times action clock => do
    let (rc, z) ← z.timer delay times action clock
    pure (.result rc, z)
  | .timerEnd timerId => return (.result 0, ← z.timerEnd timerId)
  | .ticket action clock => do
    let (handle, z) ← z.ticket action clock
    pure (.handle handle, z)
  | .ticketReset handle clock => return (.idle, ← z.ticketReset handle clock)
  | .ticketDelete handle => return (.idle, ← z.ticketDelete handle)
  | .setTicketDelay ticketDelay => .ok (.idle, { z with ticketDelay := ticketDelay })
  | .setVerbose verbose => .ok (.idle, { z with verbose := verbose })
  | .setNonstop nonstop => .ok (.idle, { z with nonstop := nonstop })
  | .setMaxTimers maxTimers => .ok (.idle, { z with maxTimers := maxTimers })
  | .start | .destroy => .ok (.idle, z)

/-- What happened, the reactor, and the rest of the call of `zloop_start`. -/
abbrev Outcome := Event × Zloop × List Frame

def leave (z : Zloop) (rc : Int) : Outcome :=
  (.started rc, { z with terminated := true }, [])

def turnStep (z : Zloop) (rc : Int) (t : Turn) : Outcome :=
  if t.interrupted && !z.nonstop then leave z rc
  else if rc = -1 then leave z rc
  else
    let z := if z.needRebuild then z.rebuildPollset else z
    let z := z.tickless
    let z := { z with
      pollset := z.pollset.mapIdx fun i item => { item with revents := t.revents.getD i 0 } }
    if t.rc = -1 ∨ (t.interruptedAfter && !z.nonstop) then
      if t.eintr && z.nonstop then (.idle, z, [⟨0, .guard⟩])
      else leave z 0
    else
      let z := { z with timers := z.timers.toFirst }
      (.idle, z, [⟨t.rc, .timers t.timeNow z.timers.cursor⟩])

def toTickets (z : Zloop) (rc timeNow : Int) : Outcome :=
  let z := { z with tickets := z.tickets.toFirst }
  (.idle, z, [⟨rc, .tickets timeNow z.tickets.cursor⟩])

def timersStep (z : Zloop) (rc timeNow : Int) : Option Nat → Except Fault Outcome
  | none => .ok (toTickets z rc timeNow)
  | some h =>
    match z.timers.itemAt h with
    | none => .error .useAfterFree
    | some timer =>
      if timer.when ≤ timeNow then
        .ok (.timer timer.timerId timer.action, z, [⟨rc, .timerHandler timeNow h⟩])
      else
        let z := { z with timers := z.timers.toNext }
        .ok (.idle, z, [⟨rc, .timers timeNow z.timers.cursor⟩])

def timerReturn (z : Zloop) (rc timeNow : Int) (h : Nat) : Except Fault Outcome := do
  let z ← z.timerCalled h
  if rc = -1 then pure (toTickets z rc timeNow)
  else
    let z := { z with timers := z.timers.toNext }
    pure (.idle, z, [⟨rc, .timers timeNow z.timers.cursor⟩])

def ticketDone (z : Zloop) (rc timeNow : Int) (h : Nat) : Except Fault Outcome :=
  match z.tickets.itemAt h with
  | none => .error .useAfterFree
  | some _ =>
    let z := { z with tickets := (z.tickets.step owning (.delete h)).2.toNext }
    .ok (.idle, z, [⟨rc, .tickets timeNow z.tickets.cursor⟩])

def ticketsStep (z : Zloop) (rc timeNow : Int) : Option Nat → Except Fault Outcome
  | none => .ok (.idle, z, [⟨rc, .sweep⟩])
  | some h =>
    match z.tickets.itemAt h with
    | none => .error .useAfterFree
    | some ticket =>
      if ticket.when ≤ timeNow then
        if ticket.deleted then ticketDone z rc timeNow h
        else .ok (.ticket ticket.action, z, [⟨rc, .ticketHandler timeNow h⟩])
      else .ok (.idle, z, [⟨rc, .sweep⟩])

def ticketReturn (z : Zloop) (rc timeNow : Int) (h : Nat) (handlerRc : Int) :
    Except Fault Outcome :=
  if handlerRc = -1 then .ok (.idle, z, [⟨-1, .sweep⟩]) else ticketDone z rc timeNow h

def sweepStep (z : Zloop) (rc : Int) : Except Fault Outcome := do
  let z ← z.sweepTickets
  pure (.idle, z, [⟨rc, if z.needRebuild then .guard else .items 0⟩])

def callItem (z : Zloop) (rc : Int) (itemNbr revents : Nat) (event : Event) : Outcome :=
  if revents ≠ 0 then (event, z, [⟨rc, .itemHandler itemNbr⟩])
  else (.idle, z, [⟨rc, .items (itemNbr + 1)⟩])

def readerItem (z : Zloop) (rc : Int) (itemNbr : Nat) (item : PollItem) (reader : Reader)
    (handler : Nat) : Except Fault Outcome := do
  let event := Event.reader reader.sock ⟨handler, reader.arg⟩
  if item.revents &&& pollerr ≠ 0 ∧ reader.tolerant = false then
    let z := { z with
      readact := z.readact.set itemNbr (some { reader with errors := reader.errors + 1 }) }
    if reader.errors ≠ 0 then
      let z ← z.readerEnd reader.sock
      pure (callItem { z with pollset := z.pollset.set itemNbr { item with revents := 0 } } rc itemNbr
        0 event)
    else pure (callItem z rc itemNbr item.revents event)
  else
    let z := { z with readact := z.readact.set itemNbr (some { reader with errors := 0 }) }
    pure (callItem z rc itemNbr item.revents event)

def pollerItem (z : Zloop) (rc : Int) (itemNbr : Nat) (item : PollItem) (poller : Poller) :
    Except Fault Outcome :=
  if item.socket ≠ poller.item.socket then .error .assertion
  else do
    let event := Event.poller item poller.action
    if item.revents &&& pollerr ≠ 0 ∧ poller.tolerant = false then
      let z := { z with
        pollact := z.pollact.set itemNbr (some { poller with errors := poller.errors + 1 }) }
      if poller.errors ≠ 0 then
        let z ← z.pollerEnd poller.item
        pure (callItem { z with pollset := z.pollset.set itemNbr { item with revents := 0 } } rc
          itemNbr 0 event)
      else pure (callItem z rc itemNbr item.revents event)
    else
      let z := { z with pollact := z.pollact.set itemNbr (some { poller with errors := 0 }) }
      pure (callItem z rc itemNbr item.revents event)

/-- One item. A slot of `readact` without handler is a poller's, or a reader's without one. -/
def itemsStep (z : Zloop) (rc : Int) (itemNbr : Nat) : Except Fault Outcome :=
  if itemNbr < z.pollSize ∧ 0 ≤ rc then
    match z.pollset[itemNbr]?, z.readact[itemNbr]?, z.pollact[itemNbr]? with
    | some item, some (some ⟨sock, some handler, arg, errors, tolerant⟩), _ =>
      readerItem z rc itemNbr item ⟨sock, some handler, arg, errors, tolerant⟩ handler
    | some item, some _, some (some poller) => pollerItem z rc itemNbr item poller
    | some item, some _, some none =>
      -- an empty slot: no socket, and no function to call
      if item.socket ≠ none then .error .assertion else .error (.outOfBounds 0)
    | _, _, _ => .error (.outOfBounds itemNbr)
  else .ok (.idle, z, [⟨rc, .zombies⟩])

def itemReturn (z : Zloop) (itemNbr : Nat) (rc : Int) : Outcome :=
  (.idle, z, [⟨rc, if rc = -1 ∨ z.needRebuild then .zombies else .items (itemNbr + 1)⟩])

def zombiesStep (z : Zloop) (rc : Int) : Except Fault Outcome := do
  let z ← z.drainZombies
  pure (.idle, z, [⟨rc, .guard⟩])

def atCaller : List Frame → Bool
  | [] => true
  | ⟨_, .timerHandler _ _⟩ :: _ | ⟨_, .ticketHandler _ _⟩ :: _ | ⟨_, .itemHandler _⟩ :: _ => true
  | _ => false

/-- The step of the innermost `zloop_start`. A label that does not fit changes nothing. -/
def frameStep (z : Zloop) : Frame → Label → Except Fault Outcome
  | ⟨rc, .guard⟩, .turn t => .ok (turnStep z rc t)
  | ⟨rc, .timers timeNow timer⟩, .go => timersStep z rc timeNow timer
  | ⟨_, .timerHandler timeNow timer⟩, .ret rc => timerReturn z rc timeNow timer
  | ⟨rc, .tickets timeNow ticket⟩, .go => ticketsStep z rc timeNow ticket
  | ⟨rc, .ticketHandler timeNow ticket⟩, .ret handlerRc => ticketReturn z rc timeNow ticket handlerRc
  | ⟨rc, .sweep⟩, .go => sweepStep z rc
  | ⟨rc, .items itemNbr⟩, .go => itemsStep z rc itemNbr
  | ⟨_, .itemHandler itemNbr⟩, .ret rc => .ok (itemReturn z itemNbr rc)
  | ⟨rc, .zombies⟩, .go => zombiesStep z rc
  | f, _ => .ok (.idle, z, [f])

def callStep (z : Zloop) (frames : List Frame) : Call → Except Fault (Event × State)
  | .start => .ok (.idle, ⟨some { z with terminated := false }, ⟨0, .guard⟩ :: frames⟩)
  | .destroy => .ok (.idle, ⟨none, frames⟩)
  | call => do
    let (event, z) ← apply z call
    pure (event, ⟨some z, frames⟩)

def step (s : State) (label : Label) : Except Fault (Event × State) :=
  match s.loop with
  | none => .error .useAfterFree
  | some z =>
    match label, s.frames with
    | .call call, frames => if atCaller frames then callStep z frames call else .ok (.idle, s)
    | _, [] => .ok (.idle, s)
    | label, f :: frames => do
      let (event, z, rest) ← frameStep z f label
      pure (event, ⟨some z, rest ++ frames⟩)

def init : State := ⟨some .new, []⟩

end Reactor

end Czmq
