import Czmq.Zloop.Schedule

/-! Tickets. Nothing sorts their list: a new or reset ticket goes to its end, with the latest time
if the sum does not overflow. When a handler returns, the pass deletes its ticket, reset or not. -/

namespace Czmq

open Option CursorList List Machine

namespace CursorList

variable {I : Type}

lemma mem_step_iff (fn : ListCallbacks I) (a : CursorList I) (op : ListOp I)
    {e : Nat × Option I} (he : e.1 ∉ a.touched op) :
    e ∈ (a.step fn op).2.entries ↔ e ∈ a.entries := by
  have hothers := congrArg (e ∈ ·) (step_others fn a op)
  simpa [others, he] using hothers

end CursorList

namespace Zloop

section
variable {z z' : Zloop}

lemma changeTicket_spec {handle : Nat} {change : Ticket → Ticket} (hz : z.Orderly)
    (h : z.changeTicket handle change = .ok z') :
    ∃ es ticket fs, z.tickets.entries = es ++ (handle, some ticket) :: fs ∧
      (es ++ fs).Sublist z.tickets.entries ∧ (handle, some ticket) ∈ z.tickets.entries ∧
      z'.tickets.entries = es ++ fs ++ [(handle, some (change ticket))] ∧
      z'.ticketDelay = z.ticketDelay := by
  obtain ⟨ticket, hat, rfl⟩ := changeTicket_eq h
  obtain ⟨es, fs, hsplit, hes, -⟩ := exists_split hz.tickets.nodup hat
  refine ⟨es, ticket, fs, hsplit, hsplit ▸ (Sublist.refl es).append (sublist_cons_self _ _),
    mem_of_itemAt hat, ?_, rfl⟩
  have hset := entries_set hz.tickets.nodup hsplit (change ticket)
  change (z.tickets.set handle (change ticket)).before handle ++
    (z.tickets.set handle (change ticket)).after handle ++ [(handle, _)] = _
  rw [before_eq hset hes, after_eq hset hes, itemAt_eq hset hes]

structure Swept (fresh : Nat) (a b : CursorList Ticket) : Prop where
  orderly : b.Orderly fresh
  sublist : b.entries.Sublist a.entries
  kept : ∀ e ∈ a.entries, (∀ ticket ∈ e.2, ticket.deleted = false) → e ∈ b.entries

lemma swept_sweepTickets (hz : z.Orderly) (h : z.sweepTickets = .ok z') :
    Swept z.fresh z.tickets z'.tickets ∧ z'.ticketDelay = z.ticketDelay := by
  obtain ⟨tickets, hloop, h⟩ := bind_eq_ok.mp h
  cases h
  refine ⟨Loop.untilDone_invariant (Swept z.fresh z.tickets) (Swept z.fresh z.tickets) ?_ ?_ hloop,
    rfl⟩
  swap; · exact ⟨hz.tickets.congr rfl, Sublist.refl _, fun e he _ => he⟩
  intro t ht r hr
  split at hr
  · cases hr
    exact ht
  · split at hr
    · cases hr
    · next ticket hat =>
      split at hr
      · next hdeleted =>
        cases hr
        refine ⟨(ht.orderly.delete owning _).congr rfl, ?_, fun e he hlive => ?_⟩
        · exact (entries_delete owning t _ ▸ before_append_after_sublist t _).trans ht.sublist
        · have hmem := ht.kept e he hlive
          refine (mem_step_iff owning t (.delete _) fun hh => ?_).mpr hmem
          have hitem := itemAt_of_mem ht.orderly.nodup hmem
          rw [mem_singleton.mp hh, hat] at hitem
          exact Bool.false_ne_true ((hlive ticket hitem.symm).symm.trans hdeleted)
      · cases hr
        exact ht

structure SameTickets (z z' : Zloop) : Prop where
  entries : z'.tickets.entries = z.tickets.entries
  delay : z'.ticketDelay = z.ticketDelay

lemma sameTickets_afterPoll (revents : List Nat) : SameTickets z (z.afterPoll revents) := by
  rw [afterPoll, polledSet]
  split <;> exact ⟨rfl, rfl⟩

end

end Zloop

namespace Zloop

/-- The time until which the reactor may wait: an hour, the earliest timer, or the first ticket. -/
def ticklessTime (z : Zloop) (clock : Int) : Int :=
  let tickless := z.timers.items.foldl
    (fun tickless timer => if tickless > timer.when then timer.when else tickless)
    (int64 (clock + 1000 * 3600))
  match z.tickets.entries.head?.bind Prod.snd with
  | some ticket => if tickless > ticket.when then ticket.when else tickless
  | none => tickless

/-- What `s_tickless` returns, with the clock at its begin and end. -/
def ticklessTimeout (z : Zloop) (clock clock' : Int) : Int :=
  let timeout := int64 (z.ticklessTime clock - clock')
  if timeout < 0 then 0 else timeout

def TicketsSorted (entries : List (Nat × Option Ticket)) : Prop :=
  entries.Pairwise fun e e' => ∀ ticket ∈ e.2, ∀ ticket' ∈ e'.2, ticket'.deleted = false →
    ticket.when ≤ ticket'.when

lemma foldl_earliest_le (timers : List Timer) (t : Int) :
    timers.foldl (fun t timer => if t > timer.when then timer.when else t) t ≤ t ∧
      ∀ timer ∈ timers,
        timers.foldl (fun t timer => if t > timer.when then timer.when else t) t ≤ timer.when := by
  induction timers generalizing t with
  | nil => exact ⟨le_rfl, fun _ h => absurd h not_mem_nil⟩
  | cons timer timers ih =>
    obtain ⟨hle, hall⟩ := ih (if t > timer.when then timer.when else t)
    have hfirst : (if t > timer.when then timer.when else t) ≤ t ∧
        (if t > timer.when then timer.when else t) ≤ timer.when := by
      split <;> omega
    exact ⟨hle.trans hfirst.1, forall_mem_cons.mpr ⟨hle.trans hfirst.2, hall⟩⟩

lemma ticklessTime_le {z : Zloop} (clock : Int) :
    (∀ timer ∈ z.timers.items, z.ticklessTime clock ≤ timer.when) ∧
      ∀ e ∈ z.tickets.entries.head?, ∀ ticket ∈ e.2, z.ticklessTime clock ≤ ticket.when := by
  have htimers := (foldl_earliest_le z.timers.items (int64 (clock + 1000 * 3600))).2
  rw [ticklessTime]
  cases hhead : z.tickets.entries.head?.bind Prod.snd with
  | none =>
    refine ⟨htimers, fun e he ticket ht => ?_⟩
    rw [mem_def.mp he, bind_some, mem_def.mp ht] at hhead
    cases hhead
  | some first =>
    constructor
    · intro timer htimer
      have := htimers timer htimer
      split <;> omega
    · intro e he ticket ht
      rw [mem_def.mp he, bind_some, mem_def.mp ht] at hhead
      cases hhead
      dsimp only
      split <;> omega

lemma TicketsSorted.head_le {entries : List (Nat × Option Ticket)} (h : TicketsSorted entries)
    (hsome : ∀ e ∈ entries, e.2.isSome) {e : Nat × Option Ticket} (he : e ∈ entries)
    {ticket : Ticket} (ht : ticket ∈ e.2) (hlive : ticket.deleted = false) :
    ∃ first ∈ entries.head?, ∃ t ∈ first.2, t.when ≤ ticket.when := by
  cases entries with
  | nil => exact absurd he not_mem_nil
  | cons first entries =>
    obtain ⟨t, hfirst⟩ := isSome_iff_exists.mp (hsome first mem_cons_self)
    refine ⟨first, rfl, t, hfirst, ?_⟩
    rcases mem_cons.mp he with rfl | he
    · cases hfirst.symm.trans ht
      exact le_rfl
    · exact rel_of_pairwise_cons h he t hfirst ticket ht hlive

end Zloop

namespace Reactor

open Zloop (Orderly Ticket Action SameTickets)

/-! ## What a step can do with tickets -/

def Serves (h : Nat) (f : Frame) : Prop := ∃ timeNow, f.pc = .ticketHandler timeNow h

/-- No handler is called, and tickets go only if deleted or their handler was running. -/
structure TicketsAside (z : Zloop) (f : Frame) (e : Event) (z' : Zloop) (rest : List Frame) :
    Prop where
  sublist : z'.tickets.entries.Sublist z.tickets.entries
  kept : ∀ x ∈ z.tickets.entries, (∀ ticket ∈ x.2, ticket.deleted = false) → ¬ Serves x.1 f →
    x ∈ z'.tickets.entries
  delay : z'.ticketDelay = z.ticketDelay
  event : ∀ action, e ≠ .ticket action
  serves : ∀ g ∈ rest, ∀ h, Serves h g → g = f

structure TicketCalled (z : Zloop) (f : Frame) (e : Event) (z' : Zloop) (rest : List Frame)
    (rc timeNow : Int) (h : Nat) (ticket : Ticket) : Prop where
  frame : f = ⟨rc, .tickets timeNow (some h)⟩
  item : z.tickets.itemAt h = some ticket
  due : ticket.when ≤ timeNow
  live : ticket.deleted = false
  event : e = .ticket ticket.action
  loop : z' = z
  rest : rest = [⟨rc, .ticketHandler timeNow h⟩]

section
variable {z z' : Zloop} {f : Frame} {e : Event} {rest : List Frame}

lemma TicketsAside.same (h : SameTickets z z') (he : ∀ action, e ≠ .ticket action)
    (hrest : ∀ g ∈ rest, ∀ x, ¬ Serves x g) : TicketsAside z f e z' rest :=
  ⟨h.entries ▸ Sublist.refl _, fun _ hx _ _ => h.entries ▸ hx, h.delay, he,
    fun g hg x hs => absurd hs (hrest g hg x)⟩

lemma TicketsAside.removed {rc timeNow : Int} {h : Nat} {next : Option Nat} (hz : z.Orderly)
    (hgoes : Serves h f ∨ ∃ ticket, z.tickets.itemAt h = some ticket ∧ ticket.deleted = true) :
    TicketsAside z f .idle { z with tickets := (z.tickets.step owning (.delete h)).2.toNext }
      [⟨rc, .tickets timeNow next⟩] := by
  refine ⟨?_, fun x hx hlive hserves => ?_, rfl, by simp, by simp [Serves]⟩
  ·
    rw [toNext_entries, entries_delete]
    exact before_append_after_sublist _ _
  ·
    rw [toNext_entries]
    refine (mem_step_iff owning z.tickets (.delete h) fun hxh => ?_).mpr hx
    obtain rfl := mem_singleton.mp hxh
    rcases hgoes with hgoes | ⟨ticket, hat, hdeleted⟩
    · exact hserves hgoes
    · have hitem := itemAt_of_mem hz.tickets.nodup hx
      rw [hat] at hitem
      exact Bool.false_ne_true ((hlive ticket hitem.symm).symm.trans hdeleted)

lemma tickets_ticketsStep {rc timeNow : Int} {ticket : Option Nat} (hz : z.Orderly)
    (h : ticketsStep z rc timeNow ticket = .ok (e, z', rest)) :
    TicketsAside z ⟨rc, .tickets timeNow ticket⟩ e z' rest ∨ ∃ rc' timeNow' x ticket',
      TicketCalled z ⟨rc, .tickets timeNow ticket⟩ e z' rest rc' timeNow' x ticket' := by
  cases ticket with
  | none =>
    cases h
    exact .inl (.same ⟨rfl, rfl⟩ (by simp) (by simp [Serves]))
  | some x =>
    rw [ticketsStep] at h
    split at h
    · cases h
    · next ticket hat =>
      split at h
      · next hdue =>
        split at h
        · next hdeleted =>
          obtain ⟨rfl, rfl, rfl⟩ := ticketDone_eq h
          exact .inl (.removed hz (.inr ⟨ticket, hat, hdeleted⟩))
        · next hlive =>
          cases h
          exact .inr ⟨_, _, _, ticket, rfl, hat, hdue, Bool.eq_false_iff.mpr hlive, rfl, rfl, rfl⟩
      · cases h
        exact .inl (.same ⟨rfl, rfl⟩ (by simp) (by simp [Serves]))

lemma tickets_callItem {y : Zloop} {rc : Int} {itemNbr revents : Nat} {event : Event}
    (h : callItem y rc itemNbr revents event = (e, z', rest)) (hsame : SameTickets z y)
    (he : ∀ action, event ≠ .ticket action) : TicketsAside z f e z' rest := by
  obtain ⟨rfl, ⟨rfl, rfl⟩ | ⟨rfl, rfl⟩⟩ := callItem_cases h
  · exact .same hsame (by simp) (by simp [Serves])
  · exact .same hsame he (by simp [Serves])

lemma frameStep_tickets {label : Label} (hz : z.Orderly)
    (h : frameStep z f label = .ok (e, z', rest)) :
    TicketsAside z f e z' rest ∨
      ∃ rc timeNow x ticket, TicketCalled z f e z' rest rc timeNow x ticket := by
  cases frameStep_cases h with
  | stop | itemsDone | timersDone | timerCall | timerSkip | ticketBreak =>
    exact .inl (.same ⟨rfl, rfl⟩ (by simp) (by simp [Serves]))
  | retry => exact .inl (.same (Zloop.sameTickets_afterPoll _) (by simp) (by simp [Serves]))
  | @shutDown _ t | @pass _ t =>
    have hsame : SameTickets z (z.afterPoll t.revents) := Zloop.sameTickets_afterPoll _
    exact .inl (.same ⟨hsame.entries, hsame.delay⟩ (by simp) (by simp [Serves]))
  | timerBreak hcalled | timerNext hcalled =>
    obtain ⟨_, -, rfl⟩ := Zloop.timerCalled_eq hcalled
    exact .inl (.same ⟨rfl, rfl⟩ (by simp) (by simp [Serves]))
  | ticketsDone | ticketCall | ticketSkip => exact tickets_ticketsStep hz h
  | ticketNext => exact .inl (.removed hz (.inl ⟨_, rfl⟩))
  | sweep hsweep =>
    obtain ⟨hswept, hdelay⟩ := Zloop.swept_sweepTickets hz hsweep
    refine .inl ⟨hswept.sublist, fun x hx hlive _ => hswept.kept x hx hlive, hdelay, by simp, ?_⟩
    rintro g hg x ⟨timeNow, hpc⟩
    obtain rfl := mem_singleton.mp hg
    split at hpc <;> cases hpc
  | reader _ _ _ _ hcall => exact .inl (tickets_callItem hcall ⟨rfl, rfl⟩ (by simp))
  | poller _ _ hcall => exact .inl (tickets_callItem hcall ⟨rfl, rfl⟩ (by simp))
  | readerEnd _ hend =>
    obtain ⟨_, _, rfl⟩ := Zloop.readerEnd_eq hend
    exact .inl (.same ⟨rfl, rfl⟩ (by simp) (by simp [Serves]))
  | pollerEnd _ _ hend =>
    obtain ⟨_, _, rfl⟩ := Zloop.pollerEnd_eq hend
    exact .inl (.same ⟨rfl, rfl⟩ (by simp) (by simp [Serves]))
  | itemNext =>
    refine .inl (.same ⟨rfl, rfl⟩ (by simp) ?_)
    rintro g hg x ⟨timeNow, hpc⟩
    obtain rfl := mem_singleton.mp hg
    split at hpc <;> cases hpc
  | zombies hdrain =>
    obtain ⟨_, _, rfl⟩ := Zloop.drainZombies_eq hdrain
    exact .inl (.same ⟨rfl, rfl⟩ (by simp) (by simp [Serves]))
  | still =>
    refine .inl ⟨Sublist.refl _, fun x hx _ _ => hx, rfl, by simp, fun g hg _ _ => ?_⟩
    exact mem_singleton.mp hg

inductive TicketsApplied (z : Zloop) (z' : Zloop) : Call → Prop where
  | added {action : Action} {clock : Int} (hentries : z'.tickets.entries = z.tickets.entries ++
      [(z.fresh, some ⟨z.ticketDelay, Zloop.int64 (clock + z.ticketDelay), action, false⟩)])
      (hset : z.ticketDelay ≠ 0) (hdelay : z'.ticketDelay = z.ticketDelay) :
      TicketsApplied z z' (.ticket action clock)
  | reset {handle : Nat} {clock : Int} (hreset : z.ticketReset handle clock = .ok z') :
      TicketsApplied z z' (.ticketReset handle clock)
  | deleted {handle : Nat} (hdelete : z.ticketDelete handle = .ok z') :
      TicketsApplied z z' (.ticketDelete handle)
  | set {ticketDelay : Nat} (hentries : z'.tickets.entries = z.tickets.entries)
      (hdelay : z'.ticketDelay = ticketDelay) : TicketsApplied z z' (.setTicketDelay ticketDelay)
  | same {call : Call} (hsame : SameTickets z z') : TicketsApplied z z' call

lemma apply_tickets {call : Call} (h : apply z call = .ok (e, z')) : TicketsApplied z z' call := by
  cases apply_cases h with
  | readerEnd h =>
    obtain ⟨_, _, rfl⟩ := Zloop.readerEnd_eq h
    exact .same ⟨rfl, rfl⟩
  | pollerEnd h =>
    obtain ⟨_, _, rfl⟩ := Zloop.pollerEnd_eq h
    exact .same ⟨rfl, rfl⟩
  | poller h => obtain rfl | rfl := Zloop.poller_eq h <;> exact .same ⟨rfl, rfl⟩
  | timer h => obtain ⟨-, rfl⟩ | ⟨-, rfl⟩ := Zloop.timer_eq h <;> exact .same ⟨rfl, rfl⟩
  | timerEnd h =>
    obtain ⟨-, h⟩ | ⟨-, rfl⟩ := Zloop.timerEnd_eq h
    · obtain ⟨_, rfl⟩ := Zloop.timerRemove_eq h
      exact .same ⟨rfl, rfl⟩
    · exact .same ⟨rfl, rfl⟩
  | ticket h =>
    obtain ⟨hset, rfl⟩ := Zloop.ticket_eq h
    exact .added rfl hset rfl
  | ticketReset h => exact .reset h
  | ticketDelete h => exact .deleted h
  | setTicketDelay => exact .set rfl rfl
  | reader | readerSetTolerant | pollerSetTolerant | setting => exact .same ⟨rfl, rfl⟩

end

/-! ## The order of the tickets -/

def ticketClock : Label → Option Int
  | .call (.ticket _ clock) | .call (.ticketReset _ clock) => some clock
  | _ => none

structure InTime (delay : Nat) (labels : List Label) (z : Zloop) : Prop where
  sorted : Zloop.TicketsSorted z.tickets.entries
  delays : ∀ e ∈ z.tickets.entries, ∀ ticket ∈ e.2, ticket.delay = delay
  bound : ∀ e ∈ z.tickets.entries, ∀ ticket ∈ e.2, ∀ clock ∈ labels.filterMap ticketClock,
    ticket.when ≤ clock + delay
  setting : z.ticketDelay = 0 ∨ z.ticketDelay = delay

section
variable {delay : Nat} {labels : List Label} {z z' : Zloop}

lemma InTime.sublist (hz : InTime delay labels z)
    (hsub : z'.tickets.entries.Sublist z.tickets.entries) (hdelay : z'.ticketDelay = z.ticketDelay) :
    InTime delay labels z' :=
  ⟨hz.sorted.sublist hsub, fun e he => hz.delays e (hsub.mem he),
    fun e he => hz.bound e (hsub.mem he), hdelay ▸ hz.setting⟩

lemma InTime.tail {label : Label} (hz : InTime delay (label :: labels) z) :
    InTime delay labels z := by
  refine ⟨hz.sorted, hz.delays, fun e he ticket ht clock hclock => ?_, hz.setting⟩
  refine hz.bound e he ticket ht clock ?_
  rw [filterMap_cons]
  split
  · exact hclock
  · exact mem_cons_of_mem _ hclock

lemma InTime.push (hz : InTime delay labels z) {es : List (Nat × Option Ticket)} {h : Nat}
    {ticket : Ticket} (hentries : z'.tickets.entries = es ++ [(h, some ticket)])
    (hes : es.Sublist z.tickets.entries) (hsetting : z'.ticketDelay = z.ticketDelay)
    (hdelay : ticket.delay = delay)
    (hlast : ticket.deleted = false → ∀ e ∈ es, ∀ t ∈ e.2, t.when ≤ ticket.when)
    (hbound : ∀ clock ∈ labels.filterMap ticketClock, ticket.when ≤ clock + delay) :
    InTime delay labels z' := by
  constructor
  · rw [hentries, Zloop.TicketsSorted, pairwise_append]
    refine ⟨hz.sorted.sublist hes, pairwise_singleton _ _, ?_⟩
    intro e he e' he' t ht t' ht' hlive
    obtain rfl := mem_singleton.mp he'
    cases ht'
    exact hlast hlive e he t ht
  · rw [hentries, forall_mem_append, forall_mem_singleton]
    refine ⟨fun e he => hz.delays e (hes.mem he), fun t ht => ?_⟩
    cases ht
    exact hdelay
  · rw [hentries, forall_mem_append, forall_mem_singleton]
    refine ⟨fun e he => hz.bound e (hes.mem he), fun t ht => ?_⟩
    cases ht
    exact hbound
  · exact hsetting ▸ hz.setting

structure ClockFits (delay : Nat) (labels : List Label) (clock : Int) : Prop where
  le : ∀ later ∈ labels.filterMap ticketClock, clock ≤ later
  low : -2 ^ 63 ≤ clock + delay
  high : clock + delay < 2 ^ 63

lemma InTime.apply {call : Call} {e : Event} (hz : InTime delay (.call call :: labels) z)
    (horderly : z.Orderly) (hdelay : ∀ d, call = .setTicketDelay d → d = delay)
    (hclock : ∀ clock ∈ ticketClock (.call call), ClockFits delay labels clock)
    (h : apply z call = .ok (e, z')) : InTime delay labels z' := by
  cases apply_tickets h with
  | @added action clock hentries hset hkept =>
    obtain hsetting : z.ticketDelay = delay := hz.setting.resolve_left hset
    have hfits := hclock clock rfl
    rw [hsetting, Zloop.int64_eq_self hfits.low hfits.high] at hentries
    refine hz.tail.push hentries (Sublist.refl _) hkept rfl (fun _ e he t ht => ?_) ?_
    · exact hz.bound e he t ht clock mem_cons_self
    · exact fun later hlater => Int.add_le_add_right (hfits.le later hlater) _
  | @reset handle clock hreset =>
    obtain ⟨es, ticket, fs, -, hes, hmem, hentries, hkept⟩ :=
      Zloop.changeTicket_spec horderly hreset
    have hfits := hclock clock rfl
    rw [hz.delays _ hmem ticket rfl, Zloop.int64_eq_self hfits.low hfits.high] at hentries
    refine hz.tail.push hentries hes hkept rfl (fun _ e he t ht => ?_) ?_
    · exact hz.bound e (hes.mem he) t ht clock mem_cons_self
    · exact fun later hlater => Int.add_le_add_right (hfits.le later hlater) _
  | @deleted handle hdelete =>
    obtain ⟨es, ticket, fs, -, hes, hmem, hentries, hkept⟩ :=
      Zloop.changeTicket_spec horderly hdelete
    refine hz.tail.push hentries hes hkept (hz.delays _ hmem ticket rfl) (fun hlive => ?_) ?_
    · cases hlive
    · exact hz.tail.bound _ hmem ticket rfl
  | @set ticketDelay hentries hset =>
    have hz := hz.tail
    exact ⟨hentries ▸ hz.sorted, hentries ▸ hz.delays, hentries ▸ hz.bound,
      .inr (hset.trans (hdelay _ rfl))⟩
  | same hsame => exact hz.tail.sublist (hsame.entries ▸ Sublist.refl _) hsame.delay

lemma inTime_step {s s' : State} {label : Label} {e : Event}
    (hs : ∀ z ∈ s.loop, z.Orderly ∧ InTime delay (label :: labels) z)
    (hdelay : ∀ d, label = .call (.setTicketDelay d) → d = delay)
    (hclock : ∀ clock ∈ ticketClock label, ClockFits delay labels clock)
    (h : step s label = .ok (e, s')) : ∀ z ∈ s'.loop, z.Orderly ∧ InTime delay labels z := by
  have horderly := orderly_step (fun z hz => (hs z hz).1) h
  refine step_rule h (fun z hz _ => ⟨(hs z hz).1, (hs z hz).2.tail⟩) (fun z hz hz' _ => ⟨horderly _ hz', ?_⟩)
    (fun z hz z' hz' call hlabel happly => ⟨horderly _ hz', ?_⟩)
    fun z hz z' hz' f rest _ _ hframe => ⟨horderly _ hz', ?_⟩
  · exact (hs z hz).2.tail.sublist (Sublist.refl _) rfl
  · subst hlabel
    exact (hs z hz).2.apply (hs z hz).1 (fun d hd => hdelay d (congrArg _ hd)) hclock happly
  · rcases frameStep_tickets (hs z hz).1 hframe with haside | ⟨rc, timeNow, x, ticket, hcalled⟩
    · exact (hs z hz).2.tail.sublist haside.sublist haside.delay
    · rw [hcalled.loop]
      exact (hs z hz).2.tail

lemma inTime_run {s s' : State} {es : List Event}
    (hs : ∀ z ∈ s.loop, z.Orderly ∧ InTime delay labels z)
    (hdelay : ∀ d, .call (.setTicketDelay d) ∈ labels → d = delay)
    (hsorted : (labels.filterMap ticketClock).Pairwise (· ≤ ·))
    (hrange : ∀ clock ∈ labels.filterMap ticketClock,
      -2 ^ 63 ≤ clock + (delay : Int) ∧ clock + (delay : Int) < 2 ^ 63)
    (h : run step s labels = .ok (es, s')) :
    ∀ z ∈ s'.loop, z.Orderly ∧ InTime delay [] z := by
  induction labels generalizing s es with
  | nil =>
    cases h
    exact hs
  | cons label labels ih =>
    obtain ⟨e, s1, es', hstep, hrest, rfl⟩ := run_cons_eq_ok h
    have hclocks : (label :: labels).filterMap ticketClock =
        (ticketClock label).toList ++ labels.filterMap ticketClock := by
      rw [filterMap_cons]
      cases ticketClock label <;> rfl
    rw [hclocks] at hsorted hrange
    rw [pairwise_append] at hsorted
    rw [forall_mem_append] at hrange
    refine ih ?_ (fun d hd => hdelay d (mem_cons_of_mem _ hd)) hsorted.2.1 hrange.2 hrest
    refine inTime_step hs (fun d hd => hdelay d (hd ▸ mem_cons_self)) ?_ hstep
    intro clock hclock
    have hmem := mem_toList.mpr hclock
    exact ⟨hsorted.2.2 clock hmem, (hrange.1 clock hmem).1, (hrange.1 clock hmem).2⟩

end

/-- In every run with one ticket delay and a clock that does not go back, in which clock and delay
add up to times, no ticket before a non-deleted one expires later, and the reactor does not wait
beyond the first expiry. -/
theorem tickets_in_order {delay : Nat} {labels : List Label} {es : List Event} {s : State} {z : Zloop}
    (hdelay : ∀ d, .call (.setTicketDelay d) ∈ labels → d = delay)
    (hsorted : (labels.filterMap ticketClock).Pairwise (· ≤ ·))
    (hrange : ∀ clock ∈ labels.filterMap ticketClock,
      -2 ^ 63 ≤ clock + (delay : Int) ∧ clock + (delay : Int) < 2 ^ 63)
    (hrun : run step init labels = .ok (es, s)) (hz : s.loop = some z) :
    Zloop.TicketsSorted z.tickets.entries ∧ ∀ clock clock' : Int,
      -2 ^ 63 ≤ z.ticklessTime clock - clock' → z.ticklessTime clock - clock' < 2 ^ 63 →
        (∀ timer ∈ z.timers.items, z.ticklessTimeout clock clock' ≤ max 0 (timer.when - clock')) ∧
        ∀ ticket ∈ z.tickets.items, ticket.deleted = false →
          z.ticklessTimeout clock clock' ≤ max 0 (ticket.when - clock') := by
  have hinit : ∀ z ∈ init.loop, z.Orderly ∧ InTime delay labels z := by
    intro y hy
    cases hy
    exact ⟨Zloop.orderly_new, Pairwise.nil, fun _ h => absurd h not_mem_nil,
      fun _ h => absurd h not_mem_nil, .inl rfl⟩
  obtain ⟨horderly, htime⟩ := inTime_run hinit hdelay hsorted hrange hrun z hz
  refine ⟨htime.sorted, fun clock clock' hlow hhigh => ?_⟩
  have htimeout : ∀ when : Int, z.ticklessTime clock ≤ when →
      z.ticklessTimeout clock clock' ≤ max 0 (when - clock') := by
    intro when hle
    rw [Zloop.ticklessTimeout, Zloop.int64_eq_self hlow hhigh]
    split <;> omega
  obtain ⟨htimers, hfirst⟩ := Zloop.ticklessTime_le clock
  refine ⟨fun timer ht => htimeout _ (htimers timer ht), fun ticket ht hlive => htimeout _ ?_⟩
  obtain ⟨e, he, hticket⟩ := mem_filterMap.mp ht
  obtain ⟨first, hhead, t, hin, hle⟩ :=
    htime.sorted.head_le horderly.tickets.isSome he hticket hlive
  exact (hfirst first hhead t hin).trans hle

def threeTickets : List Label :=
  [.call (.setTicketDelay 10), .call (.ticket ⟨1, 1⟩ 0), .call (.ticket ⟨2, 2⟩ 1),
    .call (.ticketReset 0 3), .call (.ticket ⟨3, 3⟩ 3), .call (.ticketDelete 1)]

theorem threeTickets_in_order : ∃ es s z, run step init threeTickets = .ok (es, s) ∧
    s.loop = some z ∧ z.tickets.items.map (·.when) = [13, 13, 11] ∧
    Zloop.TicketsSorted z.tickets.entries ∧ z.ticklessTimeout 4 4 ≤ max 0 (13 - 4) := by
  have hdelay : ∀ d, Label.call (.setTicketDelay d) ∈ threeTickets → d = 10 := by
    simp [threeTickets]
  have hfirst : (-2 ^ 63 : Int) ≤ 13 - 4 ∧ (13 : Int) - 4 < 2 ^ 63 := by decide
  obtain ⟨hsorted, htimeout⟩ := tickets_in_order hdelay (by decide) (by decide) rfl rfl
  refine ⟨_, _, _, rfl, rfl, rfl, hsorted, ?_⟩
  exact (htimeout 4 4 hfirst.1 hfirst.2).2 _ mem_cons_self rfl

/-- With a delay close to `2 ^ 63` the sum overflows: the later ticket expires first, and the
reactor waits for an hour although it is due. -/
theorem tickets_out_of_order : ∃ es s z,
    run step init [.call (.setTicketDelay (2 ^ 63 - 10)), .call (.ticket ⟨1, 1⟩ 0),
      .call (.ticket ⟨2, 2⟩ 20)] = .ok (es, s) ∧ s.loop = some z ∧
    z.tickets.items.map (·.when) = [2 ^ 63 - 10, 10 - 2 ^ 63] ∧
    ¬ Zloop.TicketsSorted z.tickets.entries ∧ z.ticklessTimeout 20 20 = 3600000 := by
  refine ⟨_, _, _, rfl, rfl, rfl, fun hsorted => ?_, rfl⟩
  have hle := rel_of_pairwise_cons hsorted (mem_singleton_self _) _ rfl _ rfl rfl
  exact absurd hle (by decide)

/-! ## A ticket that was reset -/

def invokes (h : Nat) (s : State) (label : Label) : Bool :=
  match s.frames, step s label with
  | ⟨_, .tickets _ (some x)⟩ :: _, .ok (.ticket _, _) => x == h
  | _, _ => false

/-- The ticket is not deleted, reset or called, and the reactor stays. -/
def Undisturbed (h : Nat) (s : State) : Label → Prop
  | .call (.ticketReset handle _) | .call (.ticketDelete handle) => handle ≠ h
  | .call .destroy => False
  | label => invokes h s label = false

instance (h : Nat) (s : State) (label : Label) : Decidable (Undisturbed h s label) := by
  unfold Undisturbed
  split <;> infer_instance

structure Pending (h : Nat) (ticket : Ticket) (s : State) : Prop where
  exists_loop : ∃ z, s.loop = some z ∧ z.Orderly ∧ (h, some ticket) ∈ z.tickets.entries
  serves : ∀ f ∈ s.frames, ¬ Serves h f

section
variable {h : Nat} {ticket : Ticket} {s s' : State} {label : Label} {e : Event}

lemma mem_tickets_apply {z z' : Zloop} {call : Call} (hz : z.Orderly)
    (hmem : (h, some ticket) ∈ z.tickets.entries) (hquiet : Undisturbed h s (.call call))
    (happly : apply z call = .ok (e, z')) : (h, some ticket) ∈ z'.tickets.entries := by
  have hchange : ∀ {handle change}, handle ≠ h → z.changeTicket handle change = .ok z' →
      (h, some ticket) ∈ z'.tickets.entries := by
    intro handle change hne hchange
    obtain ⟨es, t, fs, hsplit, -, -, hentries, -⟩ := Zloop.changeTicket_spec hz hchange
    rw [hsplit, mem_append, mem_cons] at hmem
    rw [hentries, append_assoc, mem_append, mem_append]
    rcases hmem with hmem | heq | hmem
    · exact .inl hmem
    · exact absurd (congrArg Prod.fst heq).symm hne
    · exact .inr (.inl hmem)
  cases apply_tickets happly with
  | added hentries =>
    rw [hentries]
    exact mem_append_left _ hmem
  | reset hchanged | deleted hchanged => exact hchange hquiet hchanged
  | set hentries => exact hentries ▸ hmem
  | same hsame => exact hsame.entries ▸ hmem

lemma pending_step (hs : Pending h ticket s) (hlive : ticket.deleted = false)
    (hquiet : Undisturbed h s label) (hstep : step s label = .ok (e, s')) : Pending h ticket s' := by
  obtain ⟨z, hz, horderly, hmem⟩ := hs.exists_loop
  have hafter : ∀ y ∈ s'.loop, y.Orderly :=
    orderly_step (fun y hy => by cases hz.symm.trans hy; exact horderly) hstep
  obtain ⟨y, hy, ⟨call, rfl, -, hcall⟩ | ⟨f, frames, z', rest, hframes, hframe, rfl, hgo⟩ |
    ⟨-, rfl⟩⟩ := step_cases hstep
  · cases hz.symm.trans hy
    obtain ⟨-, -, rfl⟩ | ⟨rfl, -, -⟩ | ⟨z', happly, rfl⟩ := callStep_cases hcall
    · refine ⟨⟨_, rfl, hafter _ rfl, hmem⟩, forall_mem_cons.mpr ⟨by simp [Serves], hs.serves⟩⟩
    · exact hquiet.elim
    · exact ⟨⟨z', rfl, hafter _ rfl, mem_tickets_apply horderly hmem hquiet happly⟩, hs.serves⟩
  · cases hz.symm.trans hy
    have hserves := hs.serves
    rw [hframes, forall_mem_cons] at hserves
    rcases frameStep_tickets horderly hframe with haside | ⟨rc, timeNow, x, t, hcalled⟩
    · refine ⟨⟨z', rfl, hafter _ rfl, haside.kept _ hmem ?_ hserves.1⟩, ?_⟩
      · rintro t ⟨⟩
        exact hlive
      · refine forall_mem_append.mpr ⟨fun g hg hg' => ?_, hserves.2⟩
        exact hserves.1 (haside.serves g hg h hg' ▸ hg')
    · have hne : x ≠ h := by
        rintro rfl
        have hinvokes : invokes x s label = true := by
          rw [invokes, hframes, hcalled.frame, hstep, hcalled.event]
          exact beq_self_eq_true x
        cases label with
        | call call => exact hgo call rfl
        | ret | turn | go => exact Bool.false_ne_true (hquiet.symm.trans hinvokes)
      refine ⟨⟨z', rfl, hafter _ rfl, hcalled.loop ▸ hmem⟩, ?_⟩
      rw [hcalled.rest]
      refine forall_mem_append.mpr ⟨?_, hserves.2⟩
      rintro g hg ⟨time, hpc⟩
      obtain rfl := mem_singleton.mp hg
      cases hpc
      exact hne rfl
  · exact hs

lemma Pending.due_of_invokes (hs : Pending h ticket s) {rc timeNow : Int} {frames : List Frame}
    {action : Action} (hframes : s.frames = ⟨rc, .tickets timeNow (some h)⟩ :: frames)
    (hstep : step s label = .ok (.ticket action, s')) :
    action = ticket.action ∧ ticket.when ≤ timeNow := by
  obtain ⟨z, hz, horderly, hmem⟩ := hs.exists_loop
  obtain ⟨y, hy, ⟨call, rfl, hcaller, -⟩ | ⟨f, frames', z', rest, hframes', hframe, rfl, -⟩ |
    ⟨he, -⟩⟩ := step_cases hstep
  · rw [hframes] at hcaller
    cases hcaller
  · cases hz.symm.trans hy
    obtain ⟨rfl, rfl⟩ := cons.inj (hframes.symm.trans hframes')
    rcases frameStep_tickets horderly hframe with haside | ⟨rc, timeNow, x, t, hcalled⟩
    · exact absurd rfl (haside.event action)
    · cases hcalled.frame
      have hitem := hcalled.item
      rw [itemAt_of_mem horderly.tickets.nodup hmem] at hitem
      cases hitem
      cases hcalled.event
      exact ⟨rfl, hcalled.due⟩
  · cases he

end

/-- In every run, a ticket that is reset while its handler is not running, to a time that does not
overflow, stays with that time until it is deleted, reset or called, and is not called before. -/
theorem reset_ticket_lives {pre post : List Label} {before es : List Event} {s₀ s₁ s : State}
    {z₀ : Zloop} {h : Nat} {ticket : Ticket} {clock : Int} {e : Event}
    (hpre : run step init pre = .ok (before, s₀)) (hz₀ : s₀.loop = some z₀)
    (hmem : (h, some ticket) ∈ z₀.tickets.entries) (hlive : ticket.deleted = false)
    (hcaller : atCaller s₀.frames = true) (hserves : ∀ f ∈ s₀.frames, ¬ Serves h f)
    (hlow : -2 ^ 63 ≤ clock + (ticket.delay : Int)) (hhigh : clock + (ticket.delay : Int) < 2 ^ 63)
    (hreset : step s₀ (.call (.ticketReset h clock)) = .ok (e, s₁))
    (hquiet : StepsMeet step (Undisturbed h) s₁ post)
    (hrun : run step s₁ post = .ok (es, s)) :
    (∃ z, s.loop = some z ∧
      (h, some { ticket with when := clock + ticket.delay }) ∈ z.tickets.entries) ∧
    ∀ rc timeNow frames label action s',
      s.frames = ⟨rc, .tickets timeNow (some h)⟩ :: frames → step s label = .ok (.ticket action, s') →
        action = ticket.action ∧ clock + ticket.delay ≤ timeNow := by
  have horderly : z₀.Orderly := orderly_run hpre z₀ hz₀
  have hpending : Pending h { ticket with when := clock + ticket.delay } s₁ := by
    have hafter : ∀ y ∈ s₁.loop, y.Orderly :=
      orderly_step (fun y hy => by cases hz₀.symm.trans hy; exact horderly) hreset
    obtain ⟨loop, frames⟩ := s₀
    obtain rfl : loop = some z₀ := hz₀
    rw [step] at hreset
    dsimp only at hreset
    rw [if_pos hcaller] at hreset
    obtain ⟨heq, -⟩ | ⟨heq, -⟩ | ⟨z', happly, rfl⟩ := callStep_cases hreset
    · cases heq
    · cases heq
    · refine ⟨⟨z', rfl, hafter _ rfl, ?_⟩, hserves⟩
      obtain ⟨z₁, hchange, heq⟩ := bind_eq_ok.mp happly
      cases heq
      obtain ⟨es, t, fs, -, -, hmem', hentries, -⟩ := Zloop.changeTicket_spec horderly hchange
      have hitem : z₀.tickets.itemAt h = some ticket :=
        itemAt_of_mem horderly.tickets.nodup hmem
      cases hitem.symm.trans (itemAt_of_mem horderly.tickets.nodup hmem')
      rw [hentries, Zloop.int64_eq_self hlow hhigh]
      exact mem_append_right _ mem_cons_self
  have hend : Pending h { ticket with when := clock + ticket.delay } s :=
    hquiet.run_invariant (Pending h { ticket with when := clock + ticket.delay })
      (fun _ _ _ _ hs hq hstep => pending_step hs hlive hq hstep) hpending hrun
  obtain ⟨z, hz, -, hin⟩ := hend.exists_loop
  exact ⟨⟨z, hz, hin⟩, fun rc timeNow frames label action s' hframes hstep =>
    hend.due_of_invokes hframes hstep⟩

def oneTicket (when : Int) : State :=
  ⟨some { Zloop.new with
    tickets := ⟨[(0, some ⟨10, when, ⟨1, 1⟩, false⟩)], none, []⟩
    ticketDelay := 10
    fresh := 1 }, []⟩

/-- The ticket is reset at 5 and called at 20. -/
theorem reset_ticket_lives_once : ∃ s,
    step (oneTicket 10) (.call (.ticketReset 0 5)) = .ok (.idle, oneTicket (5 + 10)) ∧
    (∃ es, run step (oneTicket 15) [.call .start, .turn (pass 20), .go] = .ok (es, s)) ∧
    (∃ z, s.loop = some z ∧ (0, some ⟨10, 5 + 10, ⟨1, 1⟩, false⟩) ∈ z.tickets.entries) ∧
    ∃ s', step s .go = .ok (.ticket ⟨1, 1⟩, s') := by
  have hpre : ∃ es, run step init [.call (.setTicketDelay 10), .call (.ticket ⟨1, 1⟩ 0)] =
      .ok (es, oneTicket 10) := ⟨_, rfl⟩
  have hquiet : StepsMeet step (Undisturbed 0) (oneTicket 15)
      [.call .start, .turn (pass 20), .go] := stepsMeet_of_checkSteps (by decide)
  have hreset : step (oneTicket 10) (.call (.ticketReset 0 5)) = .ok (.idle, oneTicket 15) := rfl
  obtain ⟨es, hpre⟩ := hpre
  have hlives := reset_ticket_lives hpre rfl mem_cons_self rfl rfl (by simp [oneTicket])
    (by decide) (by decide) hreset hquiet rfl
  exact ⟨_, hreset, ⟨_, rfl⟩, hlives.1, _, rfl⟩

/-- A ticket that is reset from its own handler is deleted when that returns. -/
theorem reset_ticket_lost : ∃ es s s' z,
    run step init [.call (.setTicketDelay 10), .call (.ticket ⟨1, 1⟩ 0), .call .start,
      .turn (pass 10), .go, .go, .call (.ticketReset 0 12)] = .ok (es, s) ∧
    step s (.ret 0) = .ok (.idle, s') ∧ s'.loop = some z ∧ z.tickets.entries = [] :=
  ⟨_, _, _, _, rfl, rfl, rfl, rfl⟩

end Reactor

end Czmq
