import Czmq.Zloop.Timers

/-! The lists of the reactor in every run. Handles are distinct and no item is missing, so that no
walk faults. Cancelling takes out all entries that match and no others, although the walk deletes
from its own list. -/

namespace Czmq

open Zlistx List CursorList

namespace CursorList

variable {I : Type} {a b : CursorList I} {fresh h : Nat}

structure Orderly (fresh : Nat) (a : CursorList I) : Prop where
  nodup : (handles a.entries).Nodup
  lt : ∀ h ∈ handles a.entries, h < fresh
  isSome : ∀ e ∈ a.entries, e.2.isSome

lemma orderly_empty (fresh : Nat) : (empty : CursorList I).Orderly fresh :=
  ⟨nodup_nil, fun _ h => absurd h not_mem_nil, fun _ h => absurd h not_mem_nil⟩

lemma Orderly.sublist (ha : a.Orderly fresh) (h : b.entries.Sublist a.entries) :
    b.Orderly fresh := by
  have hhandles : (handles b.entries).Sublist (handles a.entries) := h.map _
  exact ⟨ha.nodup.sublist hhandles, fun x hx => ha.lt x (hhandles.mem hx),
    fun e he => ha.isSome e (h.mem he)⟩

lemma Orderly.congr (ha : a.Orderly fresh) (h : b.entries = a.entries) : b.Orderly fresh :=
  ha.sublist (h ▸ Sublist.refl _)

lemma Orderly.mono {fresh' : Nat} (ha : a.Orderly fresh) (h : fresh ≤ fresh') :
    a.Orderly fresh' := ⟨ha.nodup, fun x hx => lt_of_lt_of_le (ha.lt x hx) h, ha.isSome⟩

lemma Orderly.addEnd {fn : ListCallbacks I} (ha : a.Orderly fresh) (hfn : fn.duplicator = none)
    (x : I) : (a.step fn (.addEnd fresh (some x))).2.Orderly (fresh + 1) := by
  have hentries : (a.step fn (.addEnd fresh (some x))).2.entries = a.entries ++ [(fresh, some x)] := by
    simp only [step, ListCallbacks.dup, hfn]
  obtain ⟨hnodup, hlt⟩ := handles_append_fresh (x := some x) ha.nodup ha.lt
  refine ⟨hentries ▸ hnodup, hentries ▸ hlt, ?_⟩
  · rw [hentries]
    intro e he
    rcases mem_append.mp he with he | he
    · exact ha.isSome e he
    · obtain rfl := mem_singleton.mp he
      rfl

lemma Orderly.map (ha : a.Orderly fresh) {f : Nat × Option I → Nat × Option I}
    (hb : b.entries = a.entries.map f) (hfst : ∀ e, (f e).1 = e.1)
    (hsome : ∀ e, e.2.isSome → (f e).2.isSome) : b.Orderly fresh := by
  have hhandles : handles b.entries = handles a.entries := by
    rw [handles, hb, map_map]
    exact map_congr_left fun e _ => hfst e
  refine ⟨hhandles ▸ ha.nodup, hhandles ▸ ha.lt, fun e he => ?_⟩
  rw [hb] at he
  obtain ⟨e0, he0, rfl⟩ := mem_map.mp he
  exact hsome e0 (ha.isSome e0 he0)

lemma Orderly.set (ha : a.Orderly fresh) (h : Nat) (x : I) : (a.set h x).Orderly fresh := by
  refine ha.map rfl (fun e => ?_) fun e he => ?_
  · split
    · next heq => exact heq.symm
    · rfl
  · split
    · rfl
    · exact he

lemma Orderly.delete (ha : a.Orderly fresh) (fn : ListCallbacks I) (h : Nat) :
    (a.step fn (.delete h)).2.Orderly fresh :=
  ha.sublist (entries_delete fn a h ▸ before_append_after_sublist a h)

lemma Orderly.detach (ha : a.Orderly fresh) (handle : Option Nat) :
    (a.detach handle).2.Orderly fresh := by
  rw [CursorList.detach]
  cases a.target handle with
  | none => exact ha
  | some h => exact ha.sublist (before_append_after_sublist a h)

variable {es fs : List (Nat × Option I)} {x : Option I}

lemma entries_set
    (hn : (handles a.entries).Nodup) (hsplit : a.entries = es ++ (h, x) :: fs) (y : I) :
    (a.set h y).entries = es ++ (h, some y) :: fs := by
  obtain ⟨hes, hfs⟩ := not_mem_handles hn hsplit
  have hother : ∀ gs : List (Nat × Option I), h ∉ handles gs →
      gs.map (fun e => if e.1 = h then (h, some y) else e) = gs := by
    intro gs hgs
    refine (map_congr_left fun e he => if_neg fun heq => ?_).trans (map_id gs)
    exact hgs (heq ▸ mem_handles he)
  rw [set, hsplit, map_append, map_cons, hother es hes, hother fs hfs, if_pos rfl]

lemma Orderly.moveEnd (ha : a.Orderly fresh) (fn : ListCallbacks I) {x : I}
    (hx : a.itemAt h = some x) : (a.step fn (.moveEnd h)).2.Orderly fresh := by
  obtain ⟨es, fs, hsplit, hes, -⟩ := exists_split ha.nodup hx
  have hentries : (a.step fn (.moveEnd h)).2.entries = es ++ fs ++ [(h, some x)] := by
    change a.before h ++ a.after h ++ [(h, a.itemAt h)] = _
    rw [before_eq hsplit hes, after_eq hsplit hes, hx]
  have hperm : (es ++ fs ++ [(h, some x)]).Perm a.entries := by
    rw [hsplit]
    exact (perm_append_singleton _ _).trans perm_middle.symm
  refine ⟨?_, ?_, ?_⟩ <;> rw [hentries]
  · exact (hperm.map _).nodup_iff.mpr ha.nodup
  · exact fun y hy => ha.lt y ((hperm.map _).mem_iff.mp hy)
  · exact fun e he => ha.isSome e (hperm.mem_iff.mp he)

lemma delete_toNext (fn : ListCallbacks I)
    (hsplit : a.entries = es ++ (h, x) :: fs) (hn : (handles a.entries).Nodup)
    (hc : a.cursor = some h) :
    (a.step fn (.delete h)).2.toNext.entries = es ++ fs ∧
      (a.step fn (.delete h)).2.toNext.cursor = fs.head?.map Prod.fst := by
  have hes := (not_mem_handles hn hsplit).1
  have hentries := delete_entries fn hn hsplit
  rw [hsplit, handles_append, nodup_append] at hn
  have hcursor : (a.step fn (.delete h)).2.cursor = es.getLast?.map Prod.fst := by
    rw [(step_delete fn a h).2]
    change (a.detachAt h).cursor = _
    rw [detachAt_eq hsplit hes]
    exact if_pos hc
  have hnext := congrArg Prod.snd (step_next_eq_goTo owning hentries hn.1 hcursor)
  refine ⟨toNext_entries.trans hentries, Eq.trans ?_ (congrArg CursorList.cursor hnext)⟩
  generalize (a.step fn (.delete h)).2 = b
  unfold step toNext
  cases b.cursor <;> rfl

end CursorList

namespace Zloop

section
variable {I : Type} {test : I → Bool}

def cancelled (test : I → Bool) (e : Nat × Option I) : Bool := e.2.any test

lemma untilDone_cancel {body : CursorList I × Bool → Except Fault ((CursorList I × Bool) ⊕ _)}
    (hdone : ∀ s : CursorList I × Bool, s.1.cursor = none → body s = .ok (.inr s))
    (hitem : ∀ (s : CursorList I × Bool) h x, s.1.cursor = some h → s.1.itemAt h = some x →
      body s = if test x then .ok (.inl ((s.1.step owning (.delete h)).2.toNext, true))
        else .ok (.inl (s.1.toNext, s.2)))
    (fs : List (Nat × Option I)) : ∀ (es : List (Nat × Option I)) (b : CursorList I) (found : Bool),
    b.entries = es ++ fs → (handles b.entries).Nodup → (∀ e ∈ fs, e.2.isSome) →
    b.cursor = fs.head?.map Prod.fst →
    ∃ b', Loop.untilDone .endlessLoop body (fs.length + 1) (b, found) =
        .ok (b', found || fs.any (cancelled test)) ∧
      b'.entries = es ++ fs.filter fun e => !cancelled test e := by
  induction fs with
  | nil =>
    intro es b found hb _ _ hc
    refine ⟨b, ?_, hb⟩
    rw [Loop.untilDone_inr (hdone (b, found) hc), any_nil, Bool.or_false]
  | cons e fs ih =>
    intro es b found hb hn hsome hc
    obtain ⟨h, x⟩ := e
    obtain ⟨x, rfl⟩ := Option.isSome_iff_exists.mp (hsome _ (mem_cons_self ..))
    have hfs : ∀ e ∈ fs, e.2.isSome := fun e he => hsome e (mem_cons_of_mem _ he)
    have hat : b.itemAt h = some x :=
      itemAt_of_mem hn (hb ▸ mem_append_right _ (mem_cons_self ..))
    have hbody := hitem (b, found) h x hc hat
    have hcancelled : cancelled test (h, some x) = test x := rfl
    cases ht : test x with
    | true =>
      -- the entry goes, and the cursor goes back to the one before and on from there
      obtain ⟨hentries, hcursor⟩ := delete_toNext owning hb hn hc
      rw [if_pos ht] at hbody
      have hn' : (handles (es ++ fs)).Nodup := by
        refine hn.sublist ?_
        rw [hb]
        exact ((Sublist.refl es).append (sublist_cons_self _ _)).map _
      obtain ⟨b', hloop, hb'⟩ := ih es _ true hentries (hentries ▸ hn') hfs hcursor
      refine ⟨b', ?_, ?_⟩
      · rw [length_cons, Loop.untilDone_inl hbody, hloop, any_cons, hcancelled, ht,
          Bool.true_or, Bool.or_true]
      · rw [hb', filter_cons_of_neg (by rw [hcancelled, ht]; exact Bool.false_ne_true)]
    | false =>
      rw [if_neg (by rw [ht]; exact Bool.false_ne_true)] at hbody
      have hes := (not_mem_handles hn hb).1
      have hentries : b.toNext.entries = (es ++ [(h, some x)]) ++ fs := by
        rw [toNext_entries, hb, append_assoc, singleton_append]
      obtain ⟨b', hloop, hb'⟩ := ih (es ++ [(h, some x)]) b.toNext found hentries
        (by rw [toNext_entries]; exact hn) hfs (toNext_cursor hc hb hes)
      refine ⟨b', ?_, ?_⟩
      · rw [length_cons, Loop.untilDone_inl hbody, hloop, any_cons, hcancelled, ht,
          Bool.false_or]
      · rw [hb', filter_cons_of_pos (by rw [hcancelled, ht]; rfl), append_assoc,
          singleton_append]

lemma endMatching_eq {a : CursorList I} {fresh : Nat} (ha : a.Orderly fresh) (test : I → Bool) :
    ∃ b, endMatching test a = .ok (b, a.entries.any (cancelled test)) ∧
      b.entries = a.entries.filter fun e => !cancelled test e := by
  refine untilDone_cancel (fun s hs => ?_) (fun s h x hs hx => ?_) a.entries [] a.toFirst false rfl
    ha.nodup ha.isSome rfl
  · simp only [hs]
  · simp only [hs, hx]

end

/-! ## All lists of the reactor -/

structure Orderly (z : Zloop) : Prop where
  readers : z.readers.Orderly z.fresh
  pollers : z.pollers.Orderly z.fresh
  timers : z.timers.Orderly z.fresh
  tickets : z.tickets.Orderly z.fresh
  zombies : z.zombies.Orderly z.fresh

lemma orderly_new : Orderly new := by
  constructor <;> exact orderly_empty 0

section
variable {z z' : Zloop}

lemma Orderly.mono (hz : z.Orderly) {fresh : Nat} (h : z.fresh ≤ fresh) :
    { z with fresh := fresh }.Orderly :=
  ⟨hz.readers.mono h, hz.pollers.mono h, hz.timers.mono h, hz.tickets.mono h, hz.zombies.mono h⟩

lemma Orderly.withSlots (hz : z.Orderly) (pollset : List PollItem) (readact : List (Option Reader))
    (pollact : List (Option Poller)) :
    { z with pollset := pollset, readact := readact, pollact := pollact }.Orderly := { hz with }

lemma Orderly.readerEnd (hz : z.Orderly) (sock : Sock) :
    ∃ readers, z.readerEnd sock = .ok { z with
        readers := readers
        needRebuild := z.needRebuild ||
          z.readers.entries.any (cancelled fun reader => reader.sock.addr == sock.addr) } ∧
      readers.entries =
        z.readers.entries.filter fun e => !cancelled (fun reader => reader.sock.addr == sock.addr) e := by
  obtain ⟨readers, he, hentries⟩ := endMatching_eq hz.readers fun reader => reader.sock.addr == sock.addr
  refine ⟨readers, ?_, hentries⟩
  rw [Zloop.readerEnd, he]
  rfl

lemma Orderly.pollerEnd (hz : z.Orderly) (item : PollItem) :
    ∃ pollers, z.pollerEnd item = .ok { z with
        pollers := pollers
        needRebuild := z.needRebuild || z.pollers.entries.any (cancelled (pollerMatches item)) } ∧
      pollers.entries = z.pollers.entries.filter fun e => !cancelled (pollerMatches item) e := by
  obtain ⟨pollers, he, hentries⟩ := endMatching_eq hz.pollers (pollerMatches item)
  refine ⟨pollers, ?_, hentries⟩
  rw [Zloop.pollerEnd, he]
  rfl

lemma orderly_readerEnd {sock : Sock} (hz : z.Orderly) (h : z.readerEnd sock = .ok z') :
    z'.Orderly := by
  obtain ⟨readers, he, hentries⟩ := hz.readerEnd sock
  cases he.symm.trans h
  exact { hz with readers := hz.readers.sublist (hentries ▸ filter_sublist) }

lemma orderly_pollerEnd {item : PollItem} (hz : z.Orderly) (h : z.pollerEnd item = .ok z') :
    z'.Orderly := by
  obtain ⟨pollers, he, hentries⟩ := hz.pollerEnd item
  cases he.symm.trans h
  exact { hz with pollers := hz.pollers.sublist (hentries ▸ filter_sublist) }

lemma orderly_markMatching {I : Type} {a : CursorList I} {fresh : Nat} (ha : a.Orderly fresh)
    (test : I → Bool) (mark : I → I) : (markMatching test mark a).Orderly fresh :=
  ha.map rfl (fun _ => rfl) fun _ he => Option.isSome_map.trans he

variable {timerId : Int}

lemma timerRemove_sublist (h : z.timerRemove timerId = .ok z') :
    ∃ timers, z' = { z with timers := timers } ∧ timers.entries.Sublist z.timers.entries := by
  obtain ⟨timers, hloop, h⟩ := bind_eq_ok.mp h
  cases h
  refine ⟨timers, rfl, ?_⟩
  refine Loop.untilDone_invariant (fun t : CursorList Timer => t.entries = z.timers.entries)
    (fun t : CursorList Timer => t.entries.Sublist z.timers.entries) ?_ ?_ hloop
  swap; · rfl
  intro t ht r hr
  split at hr
  · cases hr
    exact ht ▸ Sublist.refl _
  · next x _ =>
    split at hr
    · cases hr
    · split at hr
      · cases hr
        rw [Sum.elim_inr, entries_delete, ← ht]
        exact before_append_after_sublist t x
      · cases hr
        exact toNext_entries.trans ht

lemma orderly_timerRemove (hz : z.Orderly) (h : z.timerRemove timerId = .ok z') :
    z'.Orderly := by
  obtain ⟨timers, rfl, hsub⟩ := timerRemove_sublist h
  exact { hz with timers := hz.timers.sublist hsub }

lemma orderly_changeTicket {handle : Nat} {change : Ticket → Ticket} (hz : z.Orderly)
    (h : z.changeTicket handle change = .ok z') : z'.Orderly := by
  obtain ⟨ticket, hticket, rfl⟩ := changeTicket_eq h
  have hat : (z.tickets.set handle (change ticket)).itemAt handle = some (change ticket) := by
    refine itemAt_of_mem (e := (handle, some (change ticket)))
      (hz.tickets.set handle (change ticket)).nodup ?_
    exact mem_map.mpr ⟨_, mem_of_itemAt hticket, if_pos rfl⟩
  exact { hz with tickets := (hz.tickets.set handle _).moveEnd owning hat }

lemma orderly_timerCalled {x : Nat} (hz : z.Orderly) (h : z.timerCalled x = .ok z') :
    z'.Orderly := by
  obtain ⟨timer, -, rfl⟩ := timerCalled_eq h
  cases timer.afterCall with
  | none => exact { hz with timers := hz.timers.delete owning x }
  | some next => exact { hz with timers := hz.timers.set x _ }

lemma orderly_sweepTickets (hz : z.Orderly) (h : z.sweepTickets = .ok z') : z'.Orderly := by
  obtain ⟨tickets, hloop, h⟩ := bind_eq_ok.mp h
  cases h
  suffices hok : tickets.Orderly z.fresh from { hz with tickets := hok }
  refine Loop.untilDone_invariant (CursorList.Orderly z.fresh) (CursorList.Orderly z.fresh) ?_ ?_
    hloop
  swap; · exact hz.tickets.congr rfl
  intro t ht r hr
  split at hr
  · cases hr
    exact ht
  · next x _ =>
    split at hr
    · cases hr
    · split at hr
      · cases hr
        exact (ht.delete owning x).congr rfl
      · cases hr
        exact ht

lemma orderly_drainZombies (hz : z.Orderly) (h : z.drainZombies = .ok z') : z'.Orderly := by
  refine Loop.untilDone_invariant Orderly Orderly ?_ hz h
  intro y hy r hr
  split at hr
  · cases hr
    exact { hy with zombies := hy.zombies.congr rfl }
  · obtain ⟨y', hremove, hr⟩ := bind_eq_ok.mp hr
    cases hr
    have hfirst : y.zombies.toFirst.Orderly y.fresh := hy.zombies.congr rfl
    have hdetach : { y with zombies := (y.zombies.toFirst.detach none).2 }.Orderly :=
      { hy with zombies := hfirst.detach none }
    exact orderly_timerRemove hdetach hremove

lemma Orderly.toNextTimer (hz : z.Orderly) : { z with timers := z.timers.toNext }.Orderly :=
  { hz with timers := hz.timers.congr toNext_entries }

end

end Zloop

namespace Reactor

open Zloop (Orderly Reader Poller PollItem)

section
variable {z z' : Zloop} {f : Frame}

lemma orderly_apply {call : Call} {e : Event} (hz : z.Orderly) (h : apply z call = .ok (e, z')) :
    z'.Orderly := by
  cases apply_cases h with
  | reader => exact { hz.mono (Nat.le_succ _) with readers := hz.readers.addEnd rfl _ }
  | readerEnd h => exact Zloop.orderly_readerEnd hz h
  | readerSetTolerant => exact { hz with readers := Zloop.orderly_markMatching hz.readers _ _ }
  | poller h =>
    obtain rfl | rfl := Zloop.poller_eq h
    · exact hz
    · exact { hz.mono (Nat.le_succ _) with pollers := hz.pollers.addEnd rfl _ }
  | pollerEnd h => exact Zloop.orderly_pollerEnd hz h
  | pollerSetTolerant => exact { hz with pollers := Zloop.orderly_markMatching hz.pollers _ _ }
  | timer h =>
    obtain ⟨-, rfl⟩ | ⟨-, rfl⟩ := Zloop.timer_eq h
    · exact hz
    · exact { hz.mono (Nat.le_succ _) with timers := hz.timers.addEnd rfl _ }
  | timerEnd h =>
    obtain ⟨-, h⟩ | ⟨-, rfl⟩ := Zloop.timerEnd_eq h
    · exact Zloop.orderly_timerRemove hz h
    · exact { hz.mono (Nat.le_succ _) with zombies := hz.zombies.addEnd rfl _ }
  | ticket h =>
    obtain ⟨-, rfl⟩ := Zloop.ticket_eq h
    exact { hz.mono (Nat.le_succ _) with tickets := hz.tickets.addEnd rfl _ }
  | ticketReset h | ticketDelete h => exact Zloop.orderly_changeTicket hz h
  | setTicketDelay | setting => exact { hz with }

lemma orderly_toTickets (hz : z.Orderly) (rc timeNow : Int) :
    (toTickets z rc timeNow).2.1.Orderly := { hz with tickets := hz.tickets.congr rfl }

lemma orderly_afterPoll (hz : z.Orderly) (revents : List Nat) : (z.afterPoll revents).Orderly := by
  have hset : z.polledSet.Orderly := by
    rw [Zloop.polledSet]
    split
    · exact { hz with readers := hz.readers.congr rfl, pollers := hz.pollers.congr rfl }
    · exact hz
  exact { hset with timers := hset.timers.congr rfl, tickets := hset.tickets.congr rfl }

lemma orderly_frameStep {label : Label} {o : Outcome} (hz : z.Orderly)
    (h : frameStep z f label = .ok o) : o.2.1.Orderly := by
  obtain ⟨e, z', rest⟩ := o
  cases frameStep_cases h with
  | stop => exact { hz with }
  | retry => exact orderly_afterPoll hz _
  | @shutDown _ t =>
    have hpoll := orderly_afterPoll hz t.revents
    exact { hpoll with }
  | @pass _ t =>
    have hpoll := orderly_afterPoll hz t.revents
    exact { hpoll with timers := hpoll.timers.congr rfl }
  | @timersDone rc timeNow => exact orderly_toTickets hz rc timeNow
  | timerSkip => exact hz.toNextTimer
  | @timerBreak _ timeNow _ _ _ hcalled =>
    exact orderly_toTickets (Zloop.orderly_timerCalled hz hcalled) (-1) timeNow
  | timerNext hcalled => exact (Zloop.orderly_timerCalled hz hcalled).toNextTimer
  | ticketSkip | ticketNext =>
    exact { hz with tickets := (hz.tickets.delete owning _).congr toNext_entries }
  | sweep hsweep => exact Zloop.orderly_sweepTickets hz hsweep
  | reader _ _ _ _ hcall =>
    rw [(callItem_cases hcall).1]
    exact hz.withSlots ..
  | readerEnd _ hend => exact (Zloop.orderly_readerEnd (hz.withSlots ..) hend).withSlots ..
  | poller _ _ hcall =>
    rw [(callItem_cases hcall).1]
    exact hz.withSlots ..
  | pollerEnd _ _ hend => exact (Zloop.orderly_pollerEnd (hz.withSlots ..) hend).withSlots ..
  | zombies hdrain => exact Zloop.orderly_drainZombies hz hdrain
  | timerCall | ticketsDone | ticketCall | ticketBreak | itemsDone | itemNext | still => exact hz

end

lemma orderly_step {s s' : State} {label : Label} {e : Event} (hs : ∀ z ∈ s.loop, z.Orderly)
    (h : step s label = .ok (e, s')) : ∀ z ∈ s'.loop, z.Orderly :=
  step_rule h (fun z hz _ => hs z hz) (fun z hz _ _ => { hs z hz with })
    (fun z hz _ _ _ _ h => orderly_apply (hs z hz) h)
    fun z hz _ _ _ _ _ _ h => orderly_frameStep (hs z hz) h

lemma orderly_run {labels : List Label} {es : List Event} {s : State}
    (h : Machine.run step init labels = .ok (es, s)) : ∀ z ∈ s.loop, z.Orderly := by
  have hinit : ∀ z ∈ init.loop, z.Orderly := by
    intro z hz
    cases hz
    exact Zloop.orderly_new
  exact Machine.run_invariant (fun _ _ _ _ hs hstep => orderly_step hs hstep) hinit h

/-! ## Cancelling a pollitem -/

/-- The registrations of a pollitem: those with its socket or, without one, those of its descriptor
without a socket. -/
def registeredFor (item : PollItem) (poller : Poller) : Bool :=
  match item.socket with
  | some socket => poller.item.socket == some socket
  | none => poller.item.socket.isNone && poller.item.fd == item.fd

lemma pollerMatches_eq_iff (item : PollItem) (poller : Poller) :
    Zloop.pollerMatches item poller = registeredFor item poller ↔
      (item.socket = none → poller.item.fd = item.fd → poller.item.socket = none) := by
  unfold Zloop.pollerMatches registeredFor
  cases hs : item.socket with
  | some socket => simp [Bool.beq_comm]
  | none =>
    have hfd : (item.fd == poller.item.fd) = (poller.item.fd == item.fd) := BEq.comm
    rw [hfd]
    cases hp : poller.item.socket with
    | none => simp
    | some socket => simp

lemma filter_eq_filter_iff {α : Type} {p q : α → Bool} {l : List α} :
    l.filter p = l.filter q ↔ ∀ x ∈ l, p x = q x := by
  refine ⟨fun h x hx => ?_, filter_congr⟩
  have hmem : x ∈ l.filter p ↔ x ∈ l.filter q := by rw [h]
  rw [mem_filter, mem_filter] at hmem
  exact Bool.eq_iff_iff.mpr ⟨fun hp => (hmem.mp ⟨hx, hp⟩).2, fun hq => (hmem.mpr ⟨hx, hq⟩).2⟩

/-- Cancelling a pollitem takes out its registrations and leaves the others in order, unless it is a
descriptor that also stands beside the socket of a poller. -/
theorem pollerEnd_exact_iff {labels : List Label} {es : List Event} {z : Zloop} {frames : List Frame}
    (h : Machine.run step init labels = .ok (es, ⟨some z, frames⟩)) (item : PollItem) :
    (∃ z', z.pollerEnd item = .ok z' ∧ z'.pollers.entries =
        z.pollers.entries.filter fun e => !Zloop.cancelled (registeredFor item) e) ↔
      (item.socket = none → ∀ poller ∈ z.pollers.items, poller.item.fd = item.fd →
        poller.item.socket = none) := by
  have hz : z.Orderly := orderly_run h z rfl
  obtain ⟨pollers, he, hentries⟩ := hz.pollerEnd item
  -- the two tests agree on an entry iff they do on its poller
  have hagree : ∀ e ∈ z.pollers.entries, ∀ poller, e.2 = some poller →
      ((!Zloop.cancelled (Zloop.pollerMatches item) e) = (!Zloop.cancelled (registeredFor item) e) ↔
        (item.socket = none → poller.item.fd = item.fd → poller.item.socket = none)) := by
    intro e _ poller hpoller
    rw [← pollerMatches_eq_iff, Zloop.cancelled, Zloop.cancelled, hpoller]
    exact Bool.not_inj_iff
  constructor
  · rintro ⟨z', he', hz'⟩ hnone poller hmem
    cases he.symm.trans he'
    obtain ⟨e, hmem, hpoller⟩ := mem_filterMap.mp hmem
    have hsame := filter_eq_filter_iff.mp (hentries.symm.trans hz') e hmem
    exact (hagree e hmem poller hpoller).mp hsame hnone
  · intro hcond
    refine ⟨_, he, hentries.trans (filter_congr fun e hmem => ?_)⟩
    obtain ⟨poller, hpoller⟩ := Option.isSome_iff_exists.mp (hz.pollers.isSome e hmem)
    refine (hagree e hmem poller hpoller).mpr fun hnone => hcond hnone poller ?_
    exact mem_filterMap.mpr ⟨e, hmem, hpoller⟩

def mixedPollers : List Label :=
  [.call (.poller ⟨none, 5, 1, 0⟩ ⟨1, 0⟩ false), .call (.poller ⟨some 7, 0, 1, 0⟩ ⟨2, 0⟩ false),
    .call (.poller ⟨some 8, 0, 1, 0⟩ ⟨3, 0⟩ false), .call (.poller ⟨some 7, 0, 2, 0⟩ ⟨4, 0⟩ false)]

theorem pollerEnd_exact_mixed : ∃ es z frames,
    Machine.run step init mixedPollers = .ok (es, ⟨some z, frames⟩) ∧
      ∃ z', z.pollerEnd ⟨none, 5, 0, 0⟩ = .ok z' ∧ z'.pollers.entries =
        z.pollers.entries.filter fun e => !Zloop.cancelled (registeredFor ⟨none, 5, 0, 0⟩) e := by
  have hrun : ∃ es z frames, Machine.run step init mixedPollers = .ok (es, ⟨some z, frames⟩) ∧
      ∀ poller ∈ z.pollers.items, poller.item.fd = 5 → poller.item.socket = none :=
    ⟨_, _, _, rfl, by decide⟩
  obtain ⟨es, z, frames, hrun, hcond⟩ := hrun
  exact ⟨es, z, frames, hrun, (pollerEnd_exact_iff hrun ⟨none, 5, 0, 0⟩).mpr fun _ => hcond⟩

/-- Cancelling descriptor 0 cancels the pollers on sockets, whose descriptor is 0 too. -/
theorem pollerEnd_sockets : ∃ es z frames,
    Machine.run step init mixedPollers = .ok (es, ⟨some z, frames⟩) ∧
      (z.pollerEnd ⟨none, 0, 1, 0⟩).map (fun z' => z'.pollers.items.map (·.item.socket)) =
        .ok [none] ∧
      (z.pollers.entries.filter fun e => !Zloop.cancelled (registeredFor ⟨none, 0, 1, 0⟩) e) =
        z.pollers.entries :=
  ⟨_, _, _, rfl, by decide, rfl⟩

end Reactor

end Czmq
