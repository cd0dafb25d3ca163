import Czmq.Base.Machine
import Czmq.Zloop.Reactor

/-! All that a step of the reactor can do, one case for each way through `zloop_start` between two
places where something comes from outside. -/

namespace Czmq

namespace Zloop

def polledSet (z : Zloop) : Zloop := if z.needRebuild then z.rebuildPollset else z

def afterPoll (z : Zloop) (revents : List Nat) : Zloop :=
  { z.polledSet.tickless with
    pollset := z.polledSet.pollset.mapIdx fun i item => { item with revents := revents.getD i 0 } }

/-! ## What the functions of the reactor change -/

section
variable {z z' : Zloop} {action : Action} {clock rc : Int} {handle : Nat} {timerId : Int}

lemma readerEnd_eq {sock : Sock} (h : z.readerEnd sock = .ok z') :
    ∃ readers needRebuild, z' = { z with readers := readers, needRebuild := needRebuild } := by
  obtain ⟨⟨readers, found⟩, -, h⟩ := bind_eq_ok.mp h
  cases h
  exact ⟨_, _, rfl⟩

lemma pollerEnd_eq {item : PollItem} (h : z.pollerEnd item = .ok z') :
    ∃ pollers needRebuild, z' = { z with pollers := pollers, needRebuild := needRebuild } := by
  obtain ⟨⟨pollers, found⟩, -, h⟩ := bind_eq_ok.mp h
  cases h
  exact ⟨_, _, rfl⟩

lemma poller_eq {item : PollItem} {unknown : Bool} (h : z.poller item action unknown = (rc, z')) :
    z' = z ∨ z' = { z with
      pollers := (z.pollers.step owning (.addEnd z.fresh (some ⟨item, action, 0, false⟩))).2
      needRebuild := true
      fresh := z.fresh + 1 } := by
  rw [poller] at h
  split at h <;> cases h
  · exact .inl rfl
  · exact .inr rfl

lemma timer_eq {delay times : Nat} (h : z.timer delay times action clock = .ok (rc, z')) :
    rc = -1 ∧ z' = z ∨ rc = z.lastTimerId + 1 ∧ z' = { z with
      timers := (z.timers.step owning (.addEnd z.fresh (some
        ⟨z.lastTimerId + 1, action, delay, times, int64 (clock + delay)⟩))).2
      lastTimerId := z.lastTimerId + 1
      fresh := z.fresh + 1 } := by
  rw [timer] at h
  split at h
  · cases h
    exact .inl ⟨rfl, rfl⟩
  · obtain ⟨⟨timerId, z1⟩, hid, h⟩ := bind_eq_ok.mp h
    rw [nextTimerId] at hid
    split at hid <;> cases hid
    cases h
    exact .inr ⟨rfl, rfl⟩

lemma timerRemove_eq (h : z.timerRemove timerId = .ok z') :
    ∃ timers, z' = { z with timers := timers } := by
  obtain ⟨timers, -, h⟩ := bind_eq_ok.mp h
  cases h
  exact ⟨timers, rfl⟩

lemma timerEnd_eq (h : z.timerEnd timerId = .ok z') :
    z.terminated = true ∧ z.timerRemove timerId = .ok z' ∨ z.terminated = false ∧ z' = { z with
      zombies := (z.zombies.step borrowing (.addEnd z.fresh (some timerId))).2
      fresh := z.fresh + 1 } := by
  rw [timerEnd] at h
  split at h
  · next hterm => exact .inl ⟨hterm, h⟩
  · next hterm =>
    split at h <;> cases h
    exact .inr ⟨Bool.eq_false_iff.mpr hterm, rfl⟩

lemma ticket_eq (h : z.ticket action clock = .ok (handle, z')) :
    z.ticketDelay ≠ 0 ∧ z' = { z with
      tickets := (z.tickets.step owning (.addEnd z.fresh (some
        ⟨z.ticketDelay, int64 (clock + z.ticketDelay), action, false⟩))).2
      fresh := z.fresh + 1 } := by
  rw [ticket] at h
  split at h <;> cases h
  next hset => exact ⟨hset, rfl⟩

lemma changeTicket_eq {change : Ticket → Ticket} (h : z.changeTicket handle change = .ok z') :
    ∃ ticket, z.tickets.itemAt handle = some ticket ∧ z' = { z with
      tickets := ((z.tickets.set handle (change ticket)).step owning (.moveEnd handle)).2 } := by
  rw [changeTicket] at h
  split at h <;> cases h
  next ticket hat => exact ⟨ticket, hat, rfl⟩

lemma timerCalled_eq {x : Nat} (h : z.timerCalled x = .ok z') :
    ∃ timer, z.timers.itemAt x = some timer ∧ z' = { z with timers := match timer.afterCall with
      | none => (z.timers.step owning (.delete x)).2
      | some next => z.timers.set x next } := by
  rw [timerCalled] at h
  split at h
  · cases h
  · next timer hat =>
    refine ⟨timer, hat, ?_⟩
    cases hafter : timer.afterCall <;> rw [hafter] at h <;> cases h <;> rfl

lemma sweepTickets_eq (h : z.sweepTickets = .ok z') : ∃ tickets, z' = { z with tickets := tickets } := by
  obtain ⟨tickets, -, h⟩ := bind_eq_ok.mp h
  cases h
  exact ⟨tickets, rfl⟩

lemma drainZombies_eq (h : z.drainZombies = .ok z') :
    ∃ timers zombies, z' = { z with timers := timers, zombies := zombies } := by
  refine Loop.untilDone_invariant
    (fun y : Zloop => ∃ timers zombies, y = { z with timers := timers, zombies := zombies })
    (fun y : Zloop => ∃ timers zombies, y = { z with timers := timers, zombies := zombies })
    ?_ ⟨_, _, rfl⟩ h
  rintro y ⟨timers, zombies, rfl⟩ r hr
  split at hr
  · cases hr
    exact ⟨_, _, rfl⟩
  · obtain ⟨y', hremove, hr⟩ := bind_eq_ok.mp hr
    obtain ⟨timers', rfl⟩ := timerRemove_eq hremove
    cases hr
    exact ⟨_, _, rfl⟩

end

end Zloop

namespace Reactor

open Zloop (Reader Poller PollItem Timer Ticket)

def polled (z : Zloop) : Frame → Label → Option (List Nat)
  | ⟨rc, .guard⟩, .turn t => if t.interrupted && !z.nonstop ∨ rc = -1 then none else some t.revents
  | _, _ => none

def withErrors (z : Zloop) (itemNbr : Nat) (reader : Reader) (errors : Nat) : Zloop :=
  { z with readact := z.readact.set itemNbr (some { reader with errors := errors }) }

inductive Stepped (z : Zloop) : Frame → Label → Event → Zloop → List Frame → Prop where
  -- the guard of the main loop and the poll
  | stop {rc : Int} {t : Turn} (hf : polled z ⟨rc, .guard⟩ (.turn t) = none) :
      Stepped z ⟨rc, .guard⟩ (.turn t) (.started rc) { z with terminated := true } []
  | retry {rc : Int} {t : Turn} (hf : polled z ⟨rc, .guard⟩ (.turn t) = some t.revents) :
      Stepped z ⟨rc, .guard⟩ (.turn t) .idle (z.afterPoll t.revents) [⟨0, .guard⟩]
  | shutDown {rc : Int} {t : Turn} (hf : polled z ⟨rc, .guard⟩ (.turn t) = some t.revents) :
      Stepped z ⟨rc, .guard⟩ (.turn t) (.started 0) { z.afterPoll t.revents with terminated := true } []
  | pass {rc : Int} {t : Turn} {h : Option Nat}
      (hf : polled z ⟨rc, .guard⟩ (.turn t) = some t.revents) :
      Stepped z ⟨rc, .guard⟩ (.turn t) .idle
        { z.afterPoll t.revents with timers := (z.afterPoll t.revents).timers.toFirst }
        [⟨t.rc, .timers t.timeNow h⟩]
  -- timers
  | timersDone {rc timeNow : Int} {ticket : Option Nat} :
      Stepped z ⟨rc, .timers timeNow none⟩ .go .idle { z with tickets := z.tickets.toFirst }
        [⟨rc, .tickets timeNow ticket⟩]
  | timerCall {rc timeNow : Int} {h : Nat} {timer : Timer} (hat : z.timers.itemAt h = some timer)
      (hdue : timer.when ≤ timeNow) :
      Stepped z ⟨rc, .timers timeNow (some h)⟩ .go (.timer timer.timerId timer.action) z
        [⟨rc, .timerHandler timeNow h⟩]
  | timerSkip {rc timeNow : Int} {h : Nat} {next : Option Nat} :
      Stepped z ⟨rc, .timers timeNow (some h)⟩ .go .idle { z with timers := z.timers.toNext }
        [⟨rc, .timers timeNow next⟩]
  | timerBreak {rc timeNow : Int} {h : Nat} {ticket : Option Nat} {z1 : Zloop}
      (hcalled : z.timerCalled h = .ok z1) :
      Stepped z ⟨rc, .timerHandler timeNow h⟩ (.ret (-1)) .idle
        { z1 with tickets := z1.tickets.toFirst } [⟨-1, .tickets timeNow ticket⟩]
  | timerNext {rc rc' timeNow : Int} {h : Nat} {next : Option Nat} {z1 : Zloop}
      (hcalled : z.timerCalled h = .ok z1) :
      Stepped z ⟨rc, .timerHandler timeNow h⟩ (.ret rc') .idle { z1 with timers := z1.timers.toNext }
        [⟨rc', .timers timeNow next⟩]
  -- tickets
  | ticketsDone {rc timeNow : Int} {ticket : Option Nat} :
      Stepped z ⟨rc, .tickets timeNow ticket⟩ .go .idle z [⟨rc, .sweep⟩]
  | ticketCall {rc timeNow : Int} {h : Nat} {ticket : Ticket} :
      Stepped z ⟨rc, .tickets timeNow (some h)⟩ .go (.ticket ticket.action) z
        [⟨rc, .ticketHandler timeNow h⟩]
  | ticketSkip {rc timeNow : Int} {h : Nat} {next : Option Nat} :
      Stepped z ⟨rc, .tickets timeNow (some h)⟩ .go .idle
        { z with tickets := (z.tickets.step owning (.delete h)).2.toNext } [⟨rc, .tickets timeNow next⟩]
  | ticketBreak {rc timeNow : Int} {h : Nat} :
      Stepped z ⟨rc, .ticketHandler timeNow h⟩ (.ret (-1)) .idle z [⟨-1, .sweep⟩]
  | ticketNext {rc rc' timeNow : Int} {h : Nat} {next : Option Nat} :
      Stepped z ⟨rc, .ticketHandler timeNow h⟩ (.ret rc') .idle
        { z with tickets := (z.tickets.step owning (.delete h)).2.toNext } [⟨rc, .tickets timeNow next⟩]
  | sweep {rc : Int} {z1 : Zloop} (hsweep : z.sweepTickets = .ok z1) :
      Stepped z ⟨rc, .sweep⟩ .go .idle z1 [⟨rc, if z1.needRebuild then .guard else .items 0⟩]
  -- readers and pollers
  | reader {rc : Int} {itemNbr handler errors : Nat} {item : PollItem} {reader : Reader} {e : Event}
      {z' : Zloop} {rest : List Frame} (hitem : z.pollset[itemNbr]? = some item)
      (hslot : z.readact[itemNbr]? = some (some reader)) (hhandler : reader.handler = some handler)
      (herrors : item.revents &&& Zloop.pollerr ≠ 0 → reader.tolerant = false →
        reader.errors = 0 ∧ errors = 1)
      (hcall : callItem (withErrors z itemNbr reader errors) rc itemNbr item.revents
        (.reader reader.sock ⟨handler, reader.arg⟩) = (e, z', rest)) :
      Stepped z ⟨rc, .items itemNbr⟩ .go e z' rest
  | readerEnd {rc : Int} {itemNbr : Nat} {item : PollItem} {reader : Reader} {z1 : Zloop}
      (hslot : z.readact[itemNbr]? = some (some reader))
      (hend : (withErrors z itemNbr reader (reader.errors + 1)).readerEnd reader.sock = .ok z1) :
      Stepped z ⟨rc, .items itemNbr⟩ .go .idle
        { z1 with pollset := z1.pollset.set itemNbr { item with revents := 0 } }
        [⟨rc, .items (itemNbr + 1)⟩]
  | poller {rc : Int} {itemNbr errors : Nat} {slot : Option Reader} {item : PollItem}
      {poller : Poller} {e : Event} {z' : Zloop} {rest : List Frame}
      (hslot : z.readact[itemNbr]? = some slot ∧ z.pollact[itemNbr]? = some (some poller))
      (hhandler : ∀ reader ∈ slot, reader.handler = none)
      (hcall : callItem
        { z with pollact := z.pollact.set itemNbr (some { poller with errors := errors }) } rc itemNbr
        item.revents (.poller item poller.action) = (e, z', rest)) :
      Stepped z ⟨rc, .items itemNbr⟩ .go e z' rest
  | pollerEnd {rc : Int} {itemNbr : Nat} {slot : Option Reader} {item : PollItem} {poller : Poller}
      {pollact : List (Option Poller)} {z1 : Zloop}
      (hslot : z.readact[itemNbr]? = some slot ∧ z.pollact[itemNbr]? = some (some poller))
      (hhandler : ∀ reader ∈ slot, reader.handler = none)
      (hend : { z with pollact := pollact }.pollerEnd poller.item = .ok z1) :
      Stepped z ⟨rc, .items itemNbr⟩ .go .idle
        { z1 with pollset := z1.pollset.set itemNbr { item with revents := 0 } }
        [⟨rc, .items (itemNbr + 1)⟩]
  | itemsDone {rc : Int} {itemNbr : Nat} :
      Stepped z ⟨rc, .items itemNbr⟩ .go .idle z [⟨rc, .zombies⟩]
  | itemNext {rc rc' : Int} {itemNbr : Nat} :
      Stepped z ⟨rc, .itemHandler itemNbr⟩ (.ret rc') .idle z
        [⟨rc', if rc' = -1 ∨ z.needRebuild then .zombies else .items (itemNbr + 1)⟩]
  -- timers to kill
  | zombies {rc : Int} {z1 : Zloop} (hdrain : z.drainZombies = .ok z1) :
      Stepped z ⟨rc, .zombies⟩ .go .idle z1 [⟨rc, .guard⟩]
  -- a label that does not fit
  | still {f : Frame} {label : Label} (hf : polled z f label = none) :
      Stepped z f label .idle z [f]

section
variable {z z' : Zloop} {f : Frame} {label : Label} {e : Event} {rest : List Frame}

variable {rc : Int}

lemma stepped_turnStep {t : Turn} (h : turnStep z rc t = (e, z', rest)) :
    Stepped z ⟨rc, .guard⟩ (.turn t) e z' rest := by
  rw [turnStep] at h
  split at h
  · next hstop =>
    cases h
    exact .stop (if_pos (.inl hstop))
  split at h
  · next hrc =>
    cases h
    exact .stop (if_pos (.inr hrc))
  next hgo hrc =>
    have hpolled : polled z ⟨rc, .guard⟩ (.turn t) = some t.revents := if_neg (not_or.mpr ⟨hgo, hrc⟩)
    dsimp only at h
    generalize hy : (if z.needRebuild = true then z.rebuildPollset else z) = y at h
    change z.polledSet = y at hy
    subst hy
    split_ifs at h <;> cases h
    · exact .retry hpolled
    · exact .shutDown hpolled
    · exact .pass hpolled

variable {timeNow : Int}

lemma stepped_timersStep {timer : Option Nat}
    (h : timersStep z rc timeNow timer = .ok (e, z', rest)) :
    Stepped z ⟨rc, .timers timeNow timer⟩ .go e z' rest := by
  cases timer with
  | none =>
    cases h
    exact .timersDone
  | some x =>
    rw [timersStep] at h
    split at h
    · cases h
    · next timer hat =>
      split_ifs at h with hdue <;> cases h
      · exact .timerCall hat hdue
      · exact .timerSkip

lemma ticketDone_eq {x : Nat} (h : ticketDone z rc timeNow x = .ok (e, z', rest)) :
    e = .idle ∧ z' = { z with tickets := (z.tickets.step owning (.delete x)).2.toNext } ∧
      rest = [⟨rc, .tickets timeNow z'.tickets.cursor⟩] := by
  rw [ticketDone] at h
  split at h <;> cases h
  exact ⟨rfl, rfl, rfl⟩

lemma stepped_ticketsStep {ticket : Option Nat}
    (h : ticketsStep z rc timeNow ticket = .ok (e, z', rest)) :
    Stepped z ⟨rc, .tickets timeNow ticket⟩ .go e z' rest := by
  cases ticket with
  | none =>
    cases h
    exact .ticketsDone
  | some x =>
    rw [ticketsStep] at h
    split at h
    · cases h
    · split at h
      · split at h
        · obtain ⟨rfl, rfl, rfl⟩ := ticketDone_eq h
          exact .ticketSkip
        · cases h
          exact .ticketCall
      · cases h
        exact .ticketsDone

variable {itemNbr : Nat}

lemma stepped_readerItem {handler : Nat} {item : PollItem} {reader : Reader}
    (hitem : z.pollset[itemNbr]? = some item) (hslot : z.readact[itemNbr]? = some (some reader))
    (hhandler : reader.handler = some handler)
    (h : readerItem z rc itemNbr item reader handler = .ok (e, z', rest)) :
    Stepped z ⟨rc, .items itemNbr⟩ .go e z' rest := by
  rw [readerItem] at h
  split at h
  · split at h
    · obtain ⟨z1, hend, h⟩ := bind_eq_ok.mp h
      cases h
      exact .readerEnd hslot hend
    · next hzero =>
      have herrors : reader.errors = 0 := not_not.mp hzero
      rw [herrors] at h
      exact .reader hitem hslot hhandler (fun _ _ => ⟨herrors, rfl⟩) (Except.ok.inj h)
  · next hfine =>
    have hcall : callItem (withErrors z itemNbr reader 0) rc itemNbr item.revents
        (.reader reader.sock ⟨handler, reader.arg⟩) = (e, z', rest) := Except.ok.inj h
    exact .reader hitem hslot hhandler (fun herr hstrict => absurd ⟨herr, hstrict⟩ hfine) hcall

lemma stepped_itemsStep (h : itemsStep z rc itemNbr = .ok (e, z', rest)) :
    Stepped z ⟨rc, .items itemNbr⟩ .go e z' rest := by
  rw [itemsStep] at h
  split at h
  · split at h
    · next hitem hslot => exact stepped_readerItem hitem hslot rfl h
    · next slot _ hnone _ hslot hpoller =>
      have hhandler : ∀ reader ∈ slot, reader.handler = none := by
        rintro ⟨sock, _ | handler, arg, errors, tolerant⟩ hreader
        · rfl
        · exact (hnone sock handler arg errors tolerant hreader).elim
      rw [pollerItem] at h
      split at h
      · cases h
      split_ifs at h
      · obtain ⟨z1, hend, h⟩ := bind_eq_ok.mp h
        cases h
        exact .pollerEnd ⟨hslot, hpoller⟩ hhandler hend
      · exact .poller ⟨hslot, hpoller⟩ hhandler (Except.ok.inj h)
      · exact .poller ⟨hslot, hpoller⟩ hhandler (Except.ok.inj h)
    · split at h <;> cases h
    · cases h
  · cases h
    exact .itemsDone

lemma frameStep_cases (h : frameStep z f label = .ok (e, z', rest)) :
    Stepped z f label e z' rest := by
  unfold frameStep at h
  split at h
  · exact stepped_turnStep (Except.ok.inj h)
  · exact stepped_timersStep h
  · obtain ⟨z1, hcalled, h⟩ := bind_eq_ok.mp h
    split at h
    · next hrc =>
      subst hrc
      cases h
      exact .timerBreak hcalled
    · cases h
      exact .timerNext hcalled
  · exact stepped_ticketsStep h
  · rw [ticketReturn] at h
    split at h
    · next hrc =>
      subst hrc
      cases h
      exact .ticketBreak
    · obtain ⟨rfl, rfl, rfl⟩ := ticketDone_eq h
      exact .ticketNext
  · obtain ⟨z1, hsweep, h⟩ := bind_eq_ok.mp h
    cases h
    exact .sweep hsweep
  · exact stepped_itemsStep h
  · cases h
    exact .itemNext
  · obtain ⟨z1, hdrain, h⟩ := bind_eq_ok.mp h
    cases h
    exact .zombies hdrain
  · next hguard _ _ _ _ _ _ _ _ =>
    cases h
    refine .still ?_
    unfold polled
    split
    · exact (hguard _ _ rfl rfl).elim
    · rfl

lemma callItem_cases {revents : Nat} {event : Event}
    (h : callItem z rc itemNbr revents event = (e, z', rest)) :
    z' = z ∧ (e = .idle ∧ rest = [⟨rc, .items (itemNbr + 1)⟩] ∨
      e = event ∧ rest = [⟨rc, .itemHandler itemNbr⟩]) := by
  rw [callItem] at h
  split at h <;> cases h
  · exact ⟨rfl, .inr ⟨rfl, rfl⟩⟩
  · exact ⟨rfl, .inl ⟨rfl, rfl⟩⟩

end

inductive Applied (z : Zloop) : Call → Event → Zloop → Prop where
  | reader {sock : Zloop.Sock} {handler : Option Nat} {arg : Nat} :
      Applied z (.reader sock handler arg) (.result 0) (z.reader sock handler arg)
  | readerEnd {sock : Zloop.Sock} {z' : Zloop} (h : z.readerEnd sock = .ok z') :
      Applied z (.readerEnd sock) .idle z'
  | readerSetTolerant {sock : Zloop.Sock} :
      Applied z (.readerSetTolerant sock) .idle (z.readerSetTolerant sock)
  | poller {item : PollItem} {action : Zloop.Action} {unknown : Bool} {rc : Int} {z' : Zloop}
      (h : z.poller item action unknown = (rc, z')) :
      Applied z (.poller item action unknown) (.result rc) z'
  | pollerEnd {item : PollItem} {z' : Zloop} (h : z.pollerEnd item = .ok z') :
      Applied z (.pollerEnd item) .idle z'
  | pollerSetTolerant {item : PollItem} :
      Applied z (.pollerSetTolerant item) .idle (z.pollerSetTolerant item)
  | timer {delay times : Nat} {action : Zloop.Action} {clock rc : Int} {z' : Zloop}
      (h : z.timer delay times action clock = .ok (rc, z')) :
      Applied z (.timer delay times action clock) (.result rc) z'
  | timerEnd {timerId : Int} {z' : Zloop} (h : z.timerEnd timerId = .ok z') :
      Applied z (.timerEnd timerId) (.result 0) z'
  | ticket {action : Zloop.Action} {clock : Int} {handle : Nat} {z' : Zloop}
      (h : z.ticket action clock = .ok (handle, z')) :
      Applied z (.ticket action clock) (.handle handle) z'
  | ticketReset {handle : Nat} {clock : Int} {z' : Zloop} (h : z.ticketReset handle clock = .ok z') :
      Applied z (.ticketReset handle clock) .idle z'
  | ticketDelete {handle : Nat} {z' : Zloop} (h : z.ticketDelete handle = .ok z') :
      Applied z (.ticketDelete handle) .idle z'
  | setTicketDelay {ticketDelay : Nat} :
      Applied z (.setTicketDelay ticketDelay) .idle { z with ticketDelay := ticketDelay }
  | setting {call : Call} {verbose nonstop : Bool} {maxTimers : Nat} :
      Applied z call .idle { z with verbose := verbose, nonstop := nonstop, maxTimers := maxTimers }

lemma apply_cases {z z' : Zloop} {call : Call} {e : Event} (h : apply z call = .ok (e, z')) :
    Applied z call e z' := by
  cases call with
  | readerEnd | pollerEnd | timerEnd | ticketReset | ticketDelete =>
    obtain ⟨z1, hz1, h⟩ := bind_eq_ok.mp h
    cases h
    constructor
    exact hz1
  | timer | ticket =>
    obtain ⟨⟨x, z1⟩, hz1, h⟩ := bind_eq_ok.mp h
    cases h
    constructor
    exact hz1
  | poller =>
    cases h
    constructor
    rfl
  | reader | readerSetTolerant | pollerSetTolerant | setTicketDelay | setVerbose | setNonstop
  | setMaxTimers | start | destroy =>
    cases h
    constructor

lemma Applied.event {z z' : Zloop} {call : Call} {e : Event} (h : Applied z call e z') :
    (∀ id action, e ≠ .timer id action) ∧ ∀ sock action, e ≠ .reader sock action := by
  cases h <;> simp

lemma callStep_cases {z : Zloop} {frames : List Frame} {call : Call} {e : Event} {s : State}
    (h : callStep z frames call = .ok (e, s)) :
    call = .start ∧ e = .idle ∧ s = ⟨some { z with terminated := false }, ⟨0, .guard⟩ :: frames⟩ ∨
      call = .destroy ∧ e = .idle ∧ s = ⟨none, frames⟩ ∨
      ∃ z', apply z call = .ok (e, z') ∧ s = ⟨some z', frames⟩ := by
  by_cases hstart : call = .start
  · subst hstart
    cases h
    exact .inl ⟨rfl, rfl, rfl⟩
  by_cases hdestroy : call = .destroy
  · subst hdestroy
    cases h
    exact .inr (.inl ⟨rfl, rfl, rfl⟩)
  have h' : (apply z call >>= fun x => pure (x.1, ⟨some x.2, frames⟩) : Except Fault (Event × State)) =
      .ok (e, s) := by
    cases call <;> first | exact h | exact absurd rfl hstart | exact absurd rfl hdestroy
  obtain ⟨⟨e1, z1⟩, happly, h'⟩ := bind_eq_ok.mp h'
  cases h'
  exact .inr (.inr ⟨z1, happly, rfl⟩)

lemma step_cases {s s' : State} {label : Label} {e : Event} (h : step s label = .ok (e, s')) :
    ∃ z, s.loop = some z ∧
      ((∃ call, label = .call call ∧ atCaller s.frames = true ∧
          callStep z s.frames call = .ok (e, s')) ∨
        (∃ f frames z' rest, s.frames = f :: frames ∧ frameStep z f label = .ok (e, z', rest) ∧
          s' = ⟨some z', rest ++ frames⟩ ∧ ∀ call, label ≠ .call call) ∨
        e = .idle ∧ s' = s) := by
  obtain ⟨loop, frames⟩ := s
  cases loop with
  | none => cases h
  | some z =>
    refine ⟨z, rfl, ?_⟩
    rw [step] at h
    dsimp only at h
    split at h
    · split at h
      · next hcaller => exact .inl ⟨_, rfl, hcaller, h⟩
      · cases h
        exact .inr (.inr ⟨rfl, rfl⟩)
    · cases h
      exact .inr (.inr ⟨rfl, rfl⟩)
    · next f frames hcall =>
      obtain ⟨⟨e1, z1, rest⟩, hframe, h⟩ := bind_eq_ok.mp h
      cases h
      exact .inr (.inl ⟨f, frames, z1, rest, rfl, hframe, rfl, hcall⟩)

lemma step_rule {s s' : State} {label : Label} {e : Event} {Q : Zloop → Prop}
    (h : step s label = .ok (e, s')) (hidle : ∀ z ∈ s.loop, e = .idle → Q z)
    (hstart : ∀ z ∈ s.loop, { z with terminated := false } ∈ s'.loop → e = .idle →
      Q { z with terminated := false })
    (happly : ∀ z ∈ s.loop, ∀ z' ∈ s'.loop, ∀ call, label = .call call → apply z call = .ok (e, z') → Q z')
    (hframe : ∀ z ∈ s.loop, ∀ z' ∈ s'.loop, ∀ f rest, s.frames.head? = some f →
      (∀ call, label ≠ .call call) → frameStep z f label = .ok (e, z', rest) → Q z') :
    ∀ z ∈ s'.loop, Q z := by
  obtain ⟨z, hz, ⟨call, hlabel, -, hcall⟩ | ⟨f, frames, z', rest, hframes, hstep, rfl, hlabel⟩ |
    ⟨he, rfl⟩⟩ := step_cases h
  · obtain ⟨-, he, rfl⟩ | ⟨-, -, rfl⟩ | ⟨z', hz', rfl⟩ := callStep_cases hcall
    · rintro _ ⟨⟩
      exact hstart z hz rfl he
    · nofun
    · rintro _ ⟨⟩
      exact happly z hz z' rfl call hlabel hz'
  · rintro _ ⟨⟩
    exact hframe z hz z' rfl f rest (hframes ▸ rfl) hlabel hstep
  · exact fun y hy => hidle y hy he

end Reactor

end Czmq
