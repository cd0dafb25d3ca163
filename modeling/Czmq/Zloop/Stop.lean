import Czmq.Zloop.Lists

/-! How `zloop_start` ends when a handler returns -1. Behind the timers come the tickets that are
due, whatever the timer's handler said. -/

namespace Czmq

open Zlistx CursorList List Machine

namespace Zloop

variable {z z' : Zloop}

/-! ## The loops of a pass return -/

def ahead {I : Type} (a : CursorList I) : Nat := a.cursor.elim 0 fun h => (a.after h).length + 1

lemma ahead_eq {I : Type} {a : CursorList I} {es fs : List (Nat × Option I)}
    (hsplit : a.entries = es ++ fs) (hn : (handles a.entries).Nodup)
    (hc : a.cursor = fs.head?.map Prod.fst) : ahead a = fs.length := by
  cases fs with
  | nil =>
    rw [ahead, hc]
    rfl
  | cons e fs =>
    rw [ahead, hc]
    exact congrArg (fun l => l.length + 1) (after_eq hsplit (not_mem_handles hn hsplit).1)

lemma Orderly.timerRemove (hz : z.Orderly) (timerId : Int) :
    ∃ z', z.timerRemove timerId = .ok z' := by
  -- the cursor is always on the first of the entries that are left to look at
  refine exists_bind_eq_ok (Loop.untilDone_returns (fun timers : CursorList Timer =>
    ∃ es fs, z.timers.entries = es ++ fs ∧ timers.entries = es ++ fs ∧
      timers.cursor = fs.head?.map Prod.fst) ahead ?_ ?_ ?_)
    fun _ => ⟨_, rfl⟩
  · rintro timers ⟨es, fs, hall, hentries, hc⟩
    have hn : (handles timers.entries).Nodup := by
      rw [hentries, ← hall]
      exact hz.timers.nodup
    cases fs with
    | nil =>
      refine .inl ⟨timers, ?_⟩
      rw [hc]
      rfl
    | cons e fs =>
      obtain ⟨h, x⟩ := e
      obtain ⟨timer, rfl⟩ := Option.isSome_iff_exists.mp
        (hz.timers.isSome _ (hall ▸ mem_append_right _ (mem_cons_self ..)))
      have hat : timers.itemAt h = some timer := itemAt_of_mem hn
        (hentries ▸ mem_append_right _ (mem_cons_self ..))
      rw [show timers.cursor = some h from hc]
      dsimp only
      rw [hat]
      by_cases hid : timer.timerId = timerId
      · exact .inl ⟨_, if_pos hid⟩
      · have hnext : timers.toNext.cursor = fs.head?.map Prod.fst :=
          toNext_cursor hc hentries (not_mem_handles hn hentries).1
        have hsplit : timers.toNext.entries = (es ++ [(h, some timer)]) ++ fs := by
          rw [toNext_entries, hentries, append_assoc, singleton_append]
        refine .inr ⟨timers.toNext, if_neg hid, ⟨es ++ [(h, some timer)], fs, ?_, hsplit, hnext⟩, ?_⟩
        · rw [hall, append_assoc, singleton_append]
        · rw [ahead_eq hsplit (by rw [toNext_entries]; exact hn) hnext,
            ahead_eq hentries hn hc]
          exact Nat.lt_succ_self _
  · exact ⟨[], z.timers.entries, rfl, rfl, rfl⟩
  · have hsplit : z.timers.toFirst.entries = [] ++ z.timers.entries := rfl
    rw [ahead_eq hsplit hz.timers.nodup rfl]
    exact Nat.lt_succ_self _

lemma Orderly.drainZombies (hz : z.Orderly) : ∃ z', z.drainZombies = .ok z' := by
  refine Loop.untilDone_returns Orderly (fun y => y.zombies.entries.length) (fun y hy => ?_) hz
    (Nat.lt_succ_self _)
  rw [toFirst_cursor]
  cases hentries : y.zombies.entries with
  | nil => exact .inl ⟨_, rfl⟩
  | cons e es =>
    have hdetach := detach_none (a := y.zombies.toFirst) hentries
    have hy' : { y with zombies := (y.zombies.toFirst.detach none).2 }.Orderly :=
      { hy with zombies := (hy.zombies.congr (b := y.zombies.toFirst) rfl).detach none }
    obtain ⟨z', he⟩ := hy'.timerRemove ((y.zombies.toFirst.detach none).1.getD 0)
    obtain ⟨timers, rfl, -⟩ := timerRemove_sublist he
    refine .inr ⟨_, ?_, orderly_timerRemove hy' he, ?_⟩
    · dsimp only [head?_cons]
      rw [he]
      rfl
    · show (y.zombies.toFirst.detach none).2.entries.length < _
      rw [hdetach.2]
      exact Nat.lt_succ_self _

lemma Orderly.sweepTickets (hz : z.Orderly) : ∃ z', z.sweepTickets = .ok z' := by
  -- the cursor is on the last ticket
  refine exists_bind_eq_ok (Loop.untilDone_returns (fun tickets : CursorList Ticket =>
    tickets.Orderly z.fresh ∧ tickets.cursor = tickets.entries.getLast?.map Prod.fst)
    (fun tickets => tickets.entries.length) ?_ ?_ ?_) fun _ => ⟨_, rfl⟩
  · rintro tickets ⟨htickets, hc⟩
    rcases eq_nil_or_concat' tickets.entries with hnil | ⟨es, ⟨h, x⟩, hsplit⟩
    · refine .inl ⟨tickets, ?_⟩
      rw [hc, hnil]
      rfl
    · have hmem : (h, x) ∈ tickets.entries := hsplit ▸ mem_append_right _ (mem_singleton_self _)
      obtain ⟨ticket, rfl⟩ := Option.isSome_iff_exists.mp (htickets.isSome _ hmem)
      have hat : tickets.itemAt h = some ticket := itemAt_of_mem htickets.nodup hmem
      rw [hsplit, getLast?_concat] at hc
      rw [hc]
      dsimp only [Option.map_some]
      rw [hat]
      by_cases hdeleted : ticket.deleted = true
      · have hsmaller : (tickets.step owning (.delete h)).2.toLast.entries.length < tickets.entries.length := by
          show (tickets.step owning (.delete h)).2.entries.length < _
          rw [delete_entries owning htickets.nodup hsplit, hsplit, append_nil, length_append]
          exact Nat.lt_succ_self _
        exact .inr ⟨_, if_pos hdeleted, ⟨(htickets.delete owning h).congr rfl, rfl⟩, hsmaller⟩
      · exact .inl ⟨_, if_neg hdeleted⟩
  · exact ⟨hz.tickets.congr rfl, rfl⟩
  · exact Nat.lt_succ_self _

end Zloop

namespace Reactor

open Zloop (Ticket)

variable {z : Zloop} {s s' : State} {frames : List Frame}

/-- The innermost `zloop_start` returns -1 to the given calls, whatever its guard finds, without
calling a handler. -/
def Quits (s : State) (frames : List Frame) : Prop :=
  ∀ t : Turn, ∃ k s', run step s (replicate k .go ++ [.turn t]) =
    .ok (replicate k .idle ++ [.started (-1)], s') ∧ s'.frames = frames

def Stops (s : State) (frames : List Frame) : Prop :=
  ∃ s1, step s (.ret (-1)) = .ok (.idle, s1) ∧ Quits s1 frames

/-- Nothing is left to call behind a handler: if it is a timer's, that is still there and all due
tickets have been deleted. -/
def NothingDue (z : Zloop) : Pc → Prop
  | .timerHandler timeNow h => (z.timers.itemAt h).isSome ∧
      ∀ ticket ∈ z.tickets.items.takeWhile fun ticket => ticket.when ≤ timeNow, ticket.deleted = true
  | _ => True

lemma quits_iff_of_idle (hgo : step s .go = .ok (.idle, s'))
    (hturn : ∀ t, step s (.turn t) = .ok (.idle, s)) : Quits s frames ↔ Quits s' frames := by
  constructor
  · intro h t
    obtain ⟨k, s'', hrun, hframes⟩ := h t
    cases k with
    | zero =>
      -- the label of a pass does not fit, and nothing is returned
      rw [replicate_zero, nil_append, run_cons_ok (hturn t)] at hrun
      cases hrun
    | succ k =>
      obtain ⟨e, s1, es, hstep, hrest, hevents⟩ := run_cons_eq_ok hrun
      cases hgo.symm.trans hstep
      obtain rfl := (cons.inj hevents).2
      exact ⟨k, s'', hrest, hframes⟩
  · intro h t
    obtain ⟨k, s'', hrun, hframes⟩ := h t
    refine ⟨k + 1, s'', ?_, hframes⟩
    rw [replicate_succ, cons_append, run_cons_ok hgo, hrun]
    rfl

lemma not_quits_of_event {e : Event} (hgo : step s .go = .ok (e, s')) (he : e ≠ .idle)
    (hturn : ∀ t, step s (.turn t) = .ok (.idle, s)) : ¬Quits s frames := by
  intro h
  obtain ⟨k, s'', hrun, -⟩ := h ⟨false, 0, [], false, false, 0⟩
  cases k with
  | zero =>
    rw [replicate_zero, nil_append, run_cons_ok (hturn _)] at hrun
    cases hrun
  | succ k =>
    obtain ⟨e', s1, es, hstep, -, hevents⟩ := run_cons_eq_ok hrun
    cases hgo.symm.trans hstep
    exact he (cons.inj hevents).1.symm

lemma quits_guard (z : Zloop) (frames : List Frame) : Quits ⟨some z, ⟨-1, .guard⟩ :: frames⟩ frames := by
  intro t
  have hleave : turnStep z (-1) t = leave z (-1) := by
    unfold turnStep
    split
    · rfl
    · exact if_pos rfl
  refine ⟨0, ⟨some { z with terminated := true }, frames⟩, ?_, rfl⟩
  have hstep : step ⟨some z, ⟨-1, .guard⟩ :: frames⟩ (.turn t) =
      .ok (.started (-1), ⟨some { z with terminated := true }, frames⟩) := by
    show (Except.ok (turnStep z (-1) t) >>= _) = _
    rw [hleave]
    rfl
  rw [replicate_zero, nil_append, run_cons_ok hstep]
  rfl

lemma quits_zombies (hz : z.Orderly) (frames : List Frame) :
    Quits ⟨some z, ⟨-1, .zombies⟩ :: frames⟩ frames := by
  obtain ⟨z', he⟩ := hz.drainZombies
  have hgo : step ⟨some z, ⟨-1, .zombies⟩ :: frames⟩ .go = .ok (.idle, ⟨some z', ⟨-1, .guard⟩ :: frames⟩) := by
    show (zombiesStep z (-1) >>= _) = _
    rw [zombiesStep, he]
    rfl
  exact (quits_iff_of_idle hgo fun _ => rfl).mpr (quits_guard z' frames)

lemma quits_items (hz : z.Orderly) (frames : List Frame) :
    Quits ⟨some z, ⟨-1, .items 0⟩ :: frames⟩ frames := by
  have hgo : step ⟨some z, ⟨-1, .items 0⟩ :: frames⟩ .go = .ok (.idle, ⟨some z, ⟨-1, .zombies⟩ :: frames⟩) := by
    show (itemsStep z (-1) 0 >>= _) = _
    rw [itemsStep, if_neg fun h => absurd h.2 (by decide)]
    rfl
  exact (quits_iff_of_idle hgo fun _ => rfl).mpr (quits_zombies hz frames)

lemma quits_sweep (hz : z.Orderly) (frames : List Frame) :
    Quits ⟨some z, ⟨-1, .sweep⟩ :: frames⟩ frames := by
  obtain ⟨z', he⟩ := hz.sweepTickets
  have hz' := Zloop.orderly_sweepTickets hz he
  have hgo : step ⟨some z, ⟨-1, .sweep⟩ :: frames⟩ .go =
      .ok (.idle, ⟨some z', ⟨-1, if z'.needRebuild then .guard else .items 0⟩ :: frames⟩) := by
    show (sweepStep z (-1) >>= _) = _
    rw [sweepStep, he]
    rfl
  refine (quits_iff_of_idle hgo fun _ => rfl).mpr ?_
  split
  · exact quits_guard z' frames
  · exact quits_items hz' frames

/-! ## The tickets behind a timer -/

lemma quits_tickets_iff (timeNow : Int) (frames : List Frame) (es : List (Nat × Option Ticket)) :
    ∀ {z : Zloop}, z.Orderly → z.tickets.entries = es → z.tickets.cursor = es.head?.map Prod.fst →
    (Quits ⟨some z, ⟨-1, .tickets timeNow z.tickets.cursor⟩ :: frames⟩ frames ↔
      ∀ ticket ∈ (es.filterMap Prod.snd).takeWhile fun ticket => ticket.when ≤ timeNow,
        ticket.deleted = true) := by
  induction es with
  | nil =>
    intro z hz hentries hc
    have hgo : step ⟨some z, ⟨-1, .tickets timeNow z.tickets.cursor⟩ :: frames⟩ .go =
        .ok (.idle, ⟨some z, ⟨-1, .sweep⟩ :: frames⟩) := by
      rw [hc]
      rfl
    rw [quits_iff_of_idle hgo fun _ => rfl]
    exact iff_of_true (quits_sweep hz frames) fun _ h => absurd h not_mem_nil
  | cons e es ih =>
    intro z hz hentries hc
    obtain ⟨h, x⟩ := e
    have hmem : (h, x) ∈ z.tickets.entries := hentries ▸ mem_cons_self ..
    obtain ⟨ticket, rfl⟩ := Option.isSome_iff_exists.mp (hz.tickets.isSome _ hmem)
    have hat : z.tickets.itemAt h = some ticket := itemAt_of_mem hz.tickets.nodup hmem
    replace hc : z.tickets.cursor = some h := hc
    rw [hc]
    have hstep : ∀ o, ticketsStep z (-1) timeNow (some h) = .ok o →
        step ⟨some z, ⟨-1, .tickets timeNow (some h)⟩ :: frames⟩ .go =
          .ok (o.1, ⟨some o.2.1, o.2.2 ++ frames⟩) := by
      intro o ho
      show (ticketsStep z (-1) timeNow (some h) >>= _) = _
      rw [ho]
      rfl
    rw [ticketsStep, hat] at hstep
    dsimp only at hstep
    have hitems : ((h, some ticket) :: es).filterMap Prod.snd = ticket :: es.filterMap Prod.snd := rfl
    rw [hitems]
    by_cases hdue : ticket.when ≤ timeNow
    · rw [takeWhile_cons_of_pos (by simpa using hdue), forall_mem_cons]
      rw [if_pos hdue] at hstep
      by_cases hdeleted : ticket.deleted = true
      · -- the ticket goes, and the next one is the first
        have hsplit : z.tickets.entries = [] ++ (h, some ticket) :: es := hentries
        obtain ⟨hentries', hc'⟩ := delete_toNext owning hsplit hz.tickets.nodup hc
        have hgo := hstep _ (by rw [if_pos hdeleted, ticketDone, hat])
        rw [quits_iff_of_idle hgo fun _ => rfl, and_iff_right hdeleted]
        have hz' : { z with tickets := (z.tickets.step owning (.delete h)).2.toNext }.Orderly :=
          { hz with tickets := (hz.tickets.delete owning h).congr toNext_entries }
        exact ih hz' hentries' hc'
      · have hgo := hstep _ (if_neg hdeleted)
        refine iff_of_false (not_quits_of_event hgo ?_ fun _ => rfl) fun hall => hdeleted hall.1
        exact fun h => by cases h
    · rw [takeWhile_cons_of_neg (by simpa using hdue)]
      have hgo := hstep _ (if_neg hdue)
      rw [quits_iff_of_idle hgo fun _ => rfl]
      exact iff_of_true (quits_sweep hz frames) fun _ h => absurd h not_mem_nil

lemma stops_iff_of_ret {s1 : State} (hret : step s (.ret (-1)) = .ok (.idle, s1)) :
    Stops s frames ↔ Quits s1 frames := by
  constructor
  · rintro ⟨s', hs', hquits⟩
    cases hret.symm.trans hs'
    exact hquits
  · exact fun hquits => ⟨s1, hret, hquits⟩

lemma stops_timerHandler_iff (hz : z.Orderly) (rc timeNow : Int) (h : Nat) (frames : List Frame) :
    Stops ⟨some z, ⟨rc, .timerHandler timeNow h⟩ :: frames⟩ frames ↔
      NothingDue z (.timerHandler timeNow h) := by
  have hret : step ⟨some z, ⟨rc, .timerHandler timeNow h⟩ :: frames⟩ (.ret (-1)) =
      (timerReturn z (-1) timeNow h >>= fun o => pure (o.1, ⟨some o.2.1, o.2.2 ++ frames⟩)) := rfl
  cases hat : z.timers.itemAt h with
  | none =>
    -- the timer has been removed, and its structure is read once more
    have hcalled : z.timerCalled h = .error .useAfterFree := by rw [Zloop.timerCalled, hat]
    rw [timerReturn, hcalled] at hret
    refine iff_of_false ?_ fun hdue => ?_
    · rintro ⟨s1, hs1, -⟩
      cases hret.symm.trans hs1
    · rw [NothingDue, hat] at hdue
      exact absurd hdue.1 Bool.false_ne_true
  | some timer =>
    obtain ⟨timers, hcalled⟩ : ∃ timers, z.timerCalled h = .ok { z with timers := timers } := by
      unfold Zloop.timerCalled
      rw [hat]
      dsimp only
      cases timer.afterCall <;> exact ⟨_, rfl⟩
    have hz1 := Zloop.orderly_timerCalled hz hcalled
    have hz2 := orderly_toTickets hz1 (-1) timeNow
    rw [timerReturn, hcalled] at hret
    rw [stops_iff_of_ret hret]
    refine (quits_tickets_iff timeNow frames z.tickets.entries hz2 rfl rfl).trans ?_
    rw [NothingDue, hat]
    exact (and_iff_right rfl).symm

/-- In every run, if a handler returns -1, the `zloop_start` that called it returns -1 without
calling another, exactly if the reactor has not been destroyed and nothing is due behind the
handler. -/
theorem stops_iff_nothingDue {labels : List Label} {es : List Event} {f : Frame}
    (hrun : run step init labels = .ok (es, s)) (hframes : s.frames = f :: frames)
    (hcaller : atCaller s.frames = true) :
    Stops s frames ↔ ∃ z, s.loop = some z ∧ NothingDue z f.pc := by
  have horderly := orderly_run hrun
  obtain ⟨loop, fs⟩ := s
  obtain rfl : fs = f :: frames := hframes
  obtain ⟨rc, pc⟩ := f
  cases loop with
  | none =>
    refine iff_of_false ?_ ?_
    · rintro ⟨s₁, hs₁, -⟩
      cases hs₁
    · rintro ⟨z, hz, -⟩
      cases hz
  | some z =>
    have hz := horderly z rfl
    have hiff : (∃ z', some z = some z' ∧ NothingDue z' pc) ↔ NothingDue z pc := by simp
    rw [hiff]
    cases pc with
    | timerHandler timeNow h => exact stops_timerHandler_iff hz rc timeNow h frames
    | ticketHandler timeNow h =>
      have hret : step ⟨some z, ⟨rc, .ticketHandler timeNow h⟩ :: frames⟩ (.ret (-1)) =
          .ok (.idle, ⟨some z, ⟨-1, .sweep⟩ :: frames⟩) := rfl
      exact iff_of_true ((stops_iff_of_ret hret).mpr (quits_sweep hz frames)) trivial
    | itemHandler itemNbr =>
      have hret : step ⟨some z, ⟨rc, .itemHandler itemNbr⟩ :: frames⟩ (.ret (-1)) =
          .ok (.idle, ⟨some z, ⟨-1, .zombies⟩ :: frames⟩) := rfl
      exact iff_of_true ((stops_iff_of_ret hret).mpr (quits_zombies hz frames)) trivial
    | guard | timers | tickets | sweep | items | zombies => cases hcaller

/-- A timer and a ticket due in the first pass, the ticket deleted or not, up to the timer's
handler. -/
def timerBeforeTicket (deleted : List Label) : List Label :=
  [.call (.setTicketDelay 5), .call (.ticket ⟨2, 2⟩ 0)] ++ deleted ++
    [.call (.timer 10 0 ⟨1, 1⟩ 0), .call .start, .turn (pass 10), .go]

theorem stops_iff_nothingDue_deleted : ∃ es s,
    run step init (timerBeforeTicket [.call (.ticketDelete 0)]) = .ok (es, s) ∧
      es.getLast? = some (.timer 1 ⟨1, 1⟩) ∧ Stops s [] := by
  obtain ⟨es, s, hrun⟩ : ∃ es s,
      run step init (timerBeforeTicket [.call (.ticketDelete 0)]) = .ok (es, s) := ⟨_, _, rfl⟩
  have hrun' := hrun
  cases hrun'
  exact ⟨_, _, hrun, rfl, (stops_iff_nothingDue hrun rfl rfl).mpr ⟨_, rfl, rfl, by decide⟩⟩

/-- The ticket's handler is called after the timer's has returned -1. -/
theorem ticket_called_after_stop :
    (run step init (timerBeforeTicket [] ++ [.ret (-1), .go])).map (fun p => p.1.drop 5) =
      .ok [.timer 1 ⟨1, 1⟩, .idle, .ticket ⟨2, 2⟩] := by
  decide +kernel

end Reactor

end Czmq
