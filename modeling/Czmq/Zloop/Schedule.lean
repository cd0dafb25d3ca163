import Czmq.Zloop.Lists
import Mathlib.Tactic.Positivity

/-! The schedule of a timer: its k-th call is in a pass that does not start before k delays have
gone by, if the sums of clock and delay are times: a delay goes up to `SIZE_MAX`. -/

namespace Czmq

open CursorList List Machine

namespace Zloop

section
variable {z z' z'' : Zloop}

structure Fewer (z z' : Zloop) : Prop where
  timers : z'.timers.entries.Sublist z.timers.entries
  lastTimerId : z'.lastTimerId = z.lastTimerId
  fresh : z.fresh ≤ z'.fresh

lemma Fewer.trans (h : Fewer z z') (h' : Fewer z' z'') : Fewer z z'' :=
  ⟨h'.timers.trans h.timers, h'.lastTimerId.trans h.lastTimerId, h.fresh.trans h'.fresh⟩

lemma Quiet.fewer (h : Quiet z z') : Fewer z z' :=
  ⟨h.timers ▸ Sublist.refl _, h.lastTimerId, h.fresh⟩

lemma Fewer.timersOk (h : Fewer z z') (hz : TimersOk z) : TimersOk z' :=
  hz.of_sublist h.timers h.lastTimerId h.fresh

lemma fewer_timerRemove {timerId : Int} (h : z.timerRemove timerId = .ok z') : Fewer z z' := by
  obtain ⟨timers, rfl, hsub⟩ := timerRemove_sublist h
  exact ⟨hsub, rfl, le_rfl⟩

lemma fewer_timerEnd {timerId : Int} (h : z.timerEnd timerId = .ok z') : Fewer z z' := by
  obtain ⟨-, h⟩ | ⟨-, rfl⟩ := timerEnd_eq h
  · exact fewer_timerRemove h
  · exact ⟨Sublist.refl _, rfl, Nat.le_succ _⟩

lemma fewer_drainZombies (h : z.drainZombies = .ok z') : Fewer z z' := by
  refine Loop.untilDone_invariant (Fewer z) (Fewer z) ?_ ⟨Sublist.refl _, rfl, le_rfl⟩ h
  intro y hy r hr
  split at hr
  · cases hr
    exact { hy with }
  · obtain ⟨y', hremove, hr⟩ := bind_eq_ok.mp hr
    cases hr
    have hremoved := fewer_timerRemove hremove
    exact hy.trans { hremoved with }

lemma TimersOk.unique (hz : TimersOk z) {h h' : Nat} {timer timer' : Timer}
    (hmem : (h, some timer) ∈ z.timers.entries) (hmem' : (h', some timer') ∈ z.timers.entries)
    (hid : timer'.timerId = timer.timerId) : h' = h ∧ timer' = timer := by
  obtain ⟨es, fs, hsplit⟩ := append_of_mem hmem
  have hnodup := hz.nodup
  rw [ids, hsplit, idsOf_append, nodup_append] at hnodup
  obtain ⟨-, hfs, hes⟩ := hnodup
  -- on neither side of the timer there is its number
  have hids : ∀ gs, (h', some timer') ∈ gs → timer.timerId ∈ idsOf gs := fun gs hgs =>
    mem_filterMap.mpr ⟨_, hgs, congrArg some hid⟩
  rw [hsplit] at hmem'
  rcases mem_append.mp hmem' with hin | hin
  · exact absurd rfl (hes _ (hids es hin) _ (mem_cons_self ..))
  · rcases mem_cons.mp hin with heq | hin
    · cases heq
      exact ⟨rfl, rfl⟩
    · exact absurd (hids fs hin) (nodup_cons.mp hfs).1

end

lemma int64_eq_self {x : Int} (hlow : -2 ^ 63 ≤ x) (hhigh : x < 2 ^ 63) : int64 x = x := by
  apply Int.bmod_eq_of_le <;> omega

/-- A timer registered at `clock` and called `j` times. -/
structure Due (clock : Int) (delay times j : Nat) (timer : Timer) : Prop where
  period : timer.delay = delay
  next : timer.when = clock + (j + 1) * delay
  left : timer.times = times - j
  lt : times ≠ 0 → j < times

lemma Due.afterCall {clock timeNow : Int} {delay times j : Nat} {timer t : Timer}
    (h : Due clock delay times j timer) (hclock : -2 ^ 63 ≤ clock)
    (hdue : timer.when ≤ timeNow) (hrange : timeNow + delay < 2 ^ 63)
    (ht : timer.afterCall = some t) : Due clock delay times (j + 1) t := by
  obtain ⟨hdelay, hwhen, htimes, hleft⟩ := h
  rw [Timer.afterCall] at ht
  split at ht
  · cases ht
  · next hlast =>
    cases ht
    have hnext : timer.when + timer.delay = clock + ((j + 1 : Nat) + 1) * delay := by
      rw [hwhen, hdelay]
      push_cast
      ring
    have hnonneg : 0 ≤ ((j + 1 : Nat) + 1 : Int) * delay := by positivity
    constructor
    · exact hdelay
    · show int64 (timer.when + timer.delay) = _
      rw [int64_eq_self (by omega) (by omega), hnext]
    · show timer.times - 1 = times - (j + 1)
      omega
    · omega

end Zloop

namespace Reactor

open Zloop (TimersOk Quiet Fewer Due Timer Reader Poller PollItem Action)

/-! ## What a step can do with timers -/

def calledTimer : List Frame → Option (Int × Nat)
  | ⟨_, .timerHandler timeNow h⟩ :: _ => some (timeNow, h)
  | _ => none

structure Aside (z : Zloop) (e : Event) (z' : Zloop) (rest : List Frame) : Prop where
  fewer : Fewer z z'
  event : ∀ id action, e ≠ .timer id action
  length : rest.length ≤ 1
  called : calledTimer rest = none

inductive TimerStep (z : Zloop) (f : Frame) : Event → Zloop → List Frame → Prop where
  | called {rc timeNow : Int} {h : Nat} {timer : Timer}
      (hf : f = ⟨rc, .timers timeNow (some h)⟩) (hat : z.timers.itemAt h = some timer)
      (hdue : timer.when ≤ timeNow) :
      TimerStep z f (.timer timer.timerId timer.action) z [⟨rc, .timerHandler timeNow h⟩]
  | returned {rc timeNow : Int} {h : Nat} {z1 z' : Zloop} {e : Event} {rest : List Frame}
      (hf : f = ⟨rc, .timerHandler timeNow h⟩) (hcalled : z.timerCalled h = .ok z1)
      (haside : Aside z1 e z' rest) : TimerStep z f e z' rest
  | aside {z' : Zloop} {e : Event} {rest : List Frame} (hf : calledTimer [f] = none)
      (haside : Aside z e z' rest) : TimerStep z f e z' rest
  | still : TimerStep z f .idle z [f]

section
variable {z z' : Zloop} {f : Frame} {e : Event} {rest : List Frame}

lemma Aside.of_quiet {frame : Frame} (hq : Quiet z z') (he : ∀ id action, e ≠ .timer id action)
    (hf : calledTimer [frame] = none) : Aside z e z' [frame] :=
  ⟨hq.fewer, he, le_rfl, hf⟩

lemma aside_callItem {y : Zloop} {rc : Int} {itemNbr revents : Nat} {event : Event}
    (h : callItem y rc itemNbr revents event = (e, z', rest)) (hq : Quiet z y)
    (he : ∀ id action, event ≠ .timer id action) : Aside z e z' rest := by
  obtain ⟨rfl, ⟨rfl, rfl⟩ | ⟨rfl, rfl⟩⟩ := callItem_cases h
  · exact .of_quiet hq (by simp) rfl
  · exact .of_quiet hq he rfl

lemma timerStep_frameStep {label : Label} (h : frameStep z f label = .ok (e, z', rest)) :
    TimerStep z f e z' rest := by
  cases frameStep_cases h with
  | stop => exact .aside rfl ⟨⟨Sublist.refl _, rfl, le_rfl⟩, by simp, Nat.zero_le _, rfl⟩
  | retry => exact .aside rfl (.of_quiet (Zloop.quiet_afterPoll _) (by simp) rfl)
  | @shutDown _ t =>
    have hq : Fewer z (z.afterPoll t.revents) := (Zloop.quiet_afterPoll _).fewer
    exact .aside rfl ⟨{ hq with }, by simp, Nat.zero_le _, rfl⟩
  | @pass _ t =>
    have hq : Quiet z (z.afterPoll t.revents) := Zloop.quiet_afterPoll _
    exact .aside rfl (.of_quiet { hq with } (by simp) rfl)
  | timerCall hat hdue => exact .called rfl hat hdue
  | timerSkip =>
    exact .aside rfl (.of_quiet ⟨toNext_entries, rfl, rfl, le_rfl⟩ (by simp) rfl)
  | timerBreak hcalled =>
    exact .returned rfl hcalled (.of_quiet ⟨rfl, rfl, rfl, le_rfl⟩ (by simp) rfl)
  | timerNext hcalled =>
    refine .returned rfl hcalled (.of_quiet ?_ (by simp) rfl)
    exact ⟨toNext_entries, rfl, rfl, le_rfl⟩
  | sweep hsweep =>
    obtain ⟨_, rfl⟩ := Zloop.sweepTickets_eq hsweep
    refine .aside rfl (.of_quiet ⟨rfl, rfl, rfl, le_rfl⟩ (by simp) ?_)
    split <;> rfl
  | reader _ _ _ _ hcall =>
    exact .aside rfl (aside_callItem hcall ⟨rfl, rfl, rfl, le_rfl⟩ (by simp))
  | poller _ _ hcall =>
    exact .aside rfl (aside_callItem hcall ⟨rfl, rfl, rfl, le_rfl⟩ (by simp))
  | readerEnd _ hend =>
    obtain ⟨_, _, rfl⟩ := Zloop.readerEnd_eq hend
    exact .aside rfl (.of_quiet ⟨rfl, rfl, rfl, le_rfl⟩ (by simp) rfl)
  | pollerEnd _ _ hend =>
    obtain ⟨_, _, rfl⟩ := Zloop.pollerEnd_eq hend
    exact .aside rfl (.of_quiet ⟨rfl, rfl, rfl, le_rfl⟩ (by simp) rfl)
  | itemNext =>
    refine .aside rfl (.of_quiet ⟨rfl, rfl, rfl, le_rfl⟩ (by simp) ?_)
    split <;> rfl
  | zombies hdrain =>
    exact .aside rfl ⟨Zloop.fewer_drainZombies hdrain, by simp, le_rfl, rfl⟩
  | timersDone | ticketsDone | ticketCall | ticketSkip | ticketBreak | ticketNext | itemsDone =>
    exact .aside rfl (.of_quiet ⟨rfl, rfl, rfl, le_rfl⟩ (by simp) rfl)
  | still => exact .still

end

/-! ## Every run -/

def starts : Label → Bool
  | .call .start => true
  | _ => false

def Unnested (s : State) (label : Label) : Prop := starts label = true → s.frames = []

structure TimersHeld (z : Zloop) (frames : List Frame) : Prop where
  timersOk : TimersOk z
  held : ∀ called ∈ calledTimer frames, called.2 < z.fresh

structure Plain (s : State) : Prop where
  single : s.frames.length ≤ 1
  timers : ∀ z ∈ s.loop, TimersHeld z s.frames

variable {s : State} {frames : List Frame}

lemma Plain.frames_eq {f : Frame} (hs : Plain s)
    (hframes : s.frames = f :: frames) : frames = [] := by
  have hsingle := hs.single
  rw [hframes] at hsingle
  exact length_eq_zero_iff.mp (Nat.le_zero.mp (Nat.le_of_succ_le_succ hsingle))

lemma TimersHeld.fewer {z z' : Zloop} {frames' : List Frame} (hz : TimersHeld z frames)
    (h : Fewer z z') (hcalled : calledTimer frames' = calledTimer frames) :
    TimersHeld z' frames' := by
  refine ⟨h.timersOk hz.timersOk, ?_⟩
  rw [hcalled]
  exact fun called hin => lt_of_lt_of_le (hz.held called hin) h.fresh

variable {e : Event}

lemma TimersHeld.apply {z z' : Zloop} {call : Call}
    (hz : TimersHeld z frames) (h : apply z call = .ok (e, z')) : TimersHeld z' frames := by
  obtain ⟨-, hq | ⟨_, _, _, _, _, htimer⟩ | ⟨_, hend⟩⟩ := apply_spec h
  · exact hz.fewer hq.fewer rfl
  · refine ⟨hz.timersOk.timer htimer, fun called hin => ?_⟩
    have hheld := hz.held called hin
    rcases Zloop.timer_spec htimer with ⟨-, rfl⟩ | ⟨-, -, -, hfresh, -⟩
    · exact hheld
    · omega
  · exact hz.fewer (Zloop.fewer_timerEnd hend) rfl

variable {label : Label}

lemma TimersHeld.frameStep {z z' : Zloop} {f : Frame}
    {rest : List Frame} (hz : TimersHeld z [f]) (h : frameStep z f label = .ok (e, z', rest)) :
    TimersHeld z' rest ∧ rest.length ≤ 1 := by
  cases timerStep_frameStep h with
  | called hf hat hdue =>
    refine ⟨⟨hz.timersOk, fun called hin => ?_⟩, le_rfl⟩
    cases hin
    exact hz.timersOk.fresh _ (Zlistx.mem_handles (mem_of_itemAt hat))
  | @returned _ _ _ z1 _ _ _ hf hcalled haside =>
    obtain ⟨timers, timer, rfl, -, hok, -⟩ := Zloop.timerCalled_spec hz.timersOk hcalled
    have hz1 : TimersHeld { z with timers := timers } [] := ⟨hok, fun called hin => by cases hin⟩
    exact ⟨hz1.fewer haside.fewer haside.called, haside.length⟩
  | aside hf haside =>
    exact ⟨hz.fewer haside.fewer (haside.called.trans hf.symm), haside.length⟩
  | still => exact ⟨hz, le_rfl⟩

variable {s' : State}

lemma plain_step (hs : Plain s)
    (hnest : Unnested s label) (h : step s label = .ok (e, s')) : Plain s' := by
  obtain ⟨z, hz, ⟨call, rfl, -, hcall⟩ | ⟨f, frames, z', rest, hframes, hframe, rfl, -⟩ |
    ⟨-, rfl⟩⟩ := step_cases h
  · have hheld := hs.timers z hz
    obtain ⟨rfl, -, rfl⟩ | ⟨-, -, rfl⟩ | ⟨z', happly, rfl⟩ := callStep_cases hcall
    · have hidle : s.frames = [] := hnest rfl
      refine ⟨by simp [hidle], fun y hy => ?_⟩
      cases hy
      refine hheld.fewer ⟨Sublist.refl _, rfl, le_rfl⟩ ?_
      rw [hidle]
      rfl
    · exact ⟨hs.single, fun y hy => by cases hy⟩
    · exact ⟨hs.single, fun y hy => by cases hy; exact hheld.apply happly⟩
  · have hheld := hs.timers z hz
    have hnil := hs.frames_eq hframes
    subst hnil
    rw [hframes] at hheld
    rw [append_nil]
    obtain ⟨hafter, hlength⟩ := hheld.frameStep hframe
    exact ⟨hlength, fun y hy => by cases hy; exact hafter⟩
  · exact hs

def passTime : List Frame → Option Int
  | ⟨_, .timers timeNow _⟩ :: _ | ⟨_, .timerHandler timeNow _⟩ :: _ => some timeNow
  | _ => none

def InRange (delay : Nat) (s : State) (_ : Label) : Prop :=
  ∀ timeNow ∈ passTime s.frames, timeNow + delay < 2 ^ 63

def isTimer (id : Int) : Event → Bool
  | .timer timerId _ => timerId == id
  | _ => false

def invocations (id : Int) (es : List Event) : Nat := es.countP (isTimer id)

lemma invocations_cons (id : Int) (e : Event) (es : List Event) :
    invocations id (e :: es) = invocations id [e] + invocations id es := by
  rw [← singleton_append]
  exact countP_append

lemma invocations_timer (id timerId : Int) (action : Action) :
    invocations id [.timer timerId action] = if timerId = id then 1 else 0 := by
  by_cases hid : timerId = id <;> simp [invocations, isTimer]

variable {id : Int}

/-- A timer after `k` calls, of which the last may not have put it off yet. -/
def DueAfter (clock : Int) (delay times k : Nat) (called : Option (Int × Nat)) (h : Nat)
    (timer : Timer) : Prop :=
  (∃ timeNow j, called = some (timeNow, h) ∧ k = j + 1 ∧ Due clock delay times j timer ∧
      timer.when ≤ timeNow) ∨
    (∀ timeNow, called ≠ some (timeNow, h)) ∧ Due clock delay times k timer

/-- What holds after `k` calls of the timer, as long as the reactor is there. -/
structure OnSchedule (id clock : Int) (delay times k : Nat) (z : Zloop) (frames : List Frame) :
    Prop where
  bound : id ≤ z.lastTimerId
  due : ∀ h timer, (h, some timer) ∈ z.timers.entries → timer.timerId = id →
    DueAfter clock delay times k (calledTimer frames) h timer

section
variable {id clock : Int} {delay times k : Nat} {z z' : Zloop} {frames frames' : List Frame}

lemma OnSchedule.congr (hs : OnSchedule id clock delay times k z frames)
    (hlast : z.lastTimerId ≤ z'.lastTimerId)
    (hmem : ∀ h timer, (h, some timer) ∈ z'.timers.entries → timer.timerId = id →
      (h, some timer) ∈ z.timers.entries)
    (hcalled : calledTimer frames' = calledTimer frames) :
    OnSchedule id clock delay times k z' frames' := by
  refine ⟨hs.bound.trans hlast, fun h timer hin hid => ?_⟩
  rw [hcalled]
  exact hs.due h timer (hmem h timer hin hid) hid

lemma OnSchedule.fewer (hs : OnSchedule id clock delay times k z frames) (h : Fewer z z')
    (hcalled : calledTimer frames' = calledTimer frames) :
    OnSchedule id clock delay times k z' frames' :=
  hs.congr h.lastTimerId.ge (fun _ _ hin _ => h.timers.mem hin) hcalled

lemma OnSchedule.apply {call : Call} {e : Event}
    (hs : OnSchedule id clock delay times k z frames) (h : apply z call = .ok (e, z')) :
    OnSchedule id clock delay times k z' frames := by
  obtain ⟨-, hq | ⟨d, n, action, c, rc, htimer⟩ | ⟨timerId, hend⟩⟩ := apply_spec h
  · exact hs.fewer hq.fewer rfl
  · rcases Zloop.timer_spec htimer with ⟨-, rfl⟩ | ⟨-, -, hlast, -, hentries⟩
    · exact hs
    · refine hs.congr (by omega) (fun h timer hin hid => ?_) rfl
      -- the new timer has a number of its own
      rw [hentries] at hin
      rcases mem_append.mp hin with hin | hin
      · exact hin
      · have hbound := hs.bound
        cases mem_singleton.mp hin
        dsimp only at hid
        omega
  · exact hs.fewer (Zloop.fewer_timerEnd hend) rfl

lemma OnSchedule.due_of_waiting (hs : OnSchedule id clock delay times k z frames)
    (hcalled : calledTimer frames = none) {h : Nat} {timer : Timer}
    (hin : (h, some timer) ∈ z.timers.entries) (hid : timer.timerId = id) :
    Due clock delay times k timer := by
  rcases hs.due h timer hin hid with ⟨τ, j, hτ, -⟩ | ⟨-, hk⟩
  · rw [hcalled] at hτ
    cases hτ
  · exact hk

def Keeps (id clock : Int) (delay times k : Nat) (e : Event) (z' : Zloop) (frames' : List Frame) :
    Prop :=
  (times ≠ 0 → k + invocations id [e] ≤ times) ∧
    OnSchedule id clock delay times (k + invocations id [e]) z' frames'

lemma Keeps.of_other {e : Event} (he : ∀ timerId action, e ≠ .timer timerId action)
    (hcount : times ≠ 0 → k ≤ times) (hs : OnSchedule id clock delay times k z' frames') :
    Keeps id clock delay times k e z' frames' := by
  have hnot : isTimer id e = false := by
    cases e with
    | timer timerId action => exact absurd rfl (he timerId action)
    | idle | ticket | reader | poller | started | result | handle => rfl
  have hzero : invocations id [e] = 0 := by simp [invocations, hnot]
  unfold Keeps
  rw [hzero]
  exact ⟨hcount, hs⟩

lemma OnSchedule.called {rc timeNow : Int} {h : Nat} {timer : Timer}
    (hs : OnSchedule id clock delay times k z [⟨rc, .timers timeNow (some h)⟩]) (hz : TimersOk z)
    (hcount : times ≠ 0 → k ≤ times) (hat : z.timers.itemAt h = some timer)
    (hdue : timer.when ≤ timeNow) :
    Keeps id clock delay times k (.timer timer.timerId timer.action) z
      [⟨rc, .timerHandler timeNow h⟩] := by
  have hmem := mem_of_itemAt hat
  unfold Keeps
  rw [invocations_timer]
  split
  · next hid =>
    have htimer := hs.due_of_waiting rfl hmem hid
    refine ⟨htimer.lt, hs.bound, fun h' timer' hin hid' => ?_⟩
    obtain ⟨rfl, rfl⟩ := hz.unique hmem hin (hid'.trans hid.symm)
    exact .inl ⟨timeNow, k, rfl, rfl, htimer, hdue⟩
  · next hid =>
    refine ⟨hcount, hs.bound, fun h' timer' hin hid' => .inr ⟨fun τ hτ => ?_, ?_⟩⟩
    · cases hτ
      have hitem := itemAt_of_mem hz.handles hin
      cases hat.symm.trans hitem
      exact hid hid'
    · exact hs.due_of_waiting rfl hin hid'

lemma OnSchedule.returned {rc timeNow : Int} {h : Nat}
    (hs : OnSchedule id clock delay times k z [⟨rc, .timerHandler timeNow h⟩]) (hz : TimersOk z)
    (hclock : -2 ^ 63 ≤ clock) (hrange : timeNow + delay < 2 ^ 63)
    (hreturn : z.timerCalled h = .ok z') (hcalled : calledTimer frames' = none) :
    OnSchedule id clock delay times k z' frames' := by
  obtain ⟨timers, timer, rfl, hat, -, hentries⟩ := Zloop.timerCalled_spec hz hreturn
  refine ⟨hs.bound, fun h' timer' hin hid => .inr ⟨fun τ hτ => ?_, ?_⟩⟩
  · rw [hcalled] at hτ
    cases hτ
  · rcases hentries _ hin with ⟨hold, hne⟩ | ⟨t, ht, heq⟩
    · rcases hs.due h' timer' hold hid with ⟨τ, j, hτ, -⟩ | ⟨-, hk⟩
      · cases hτ
        exact absurd rfl hne
      · exact hk
    · cases heq
      have hid' : timer.timerId = id := (Timer.afterCall_timerId ht).symm.trans hid
      rcases hs.due h timer (mem_of_itemAt hat) hid' with
        ⟨τ, j, hτ, rfl, hj, hdue⟩ | ⟨hnot, -⟩
      · cases hτ
        exact hj.afterCall hclock hdue hrange ht
      · exact absurd rfl (hnot timeNow)

lemma OnSchedule.frameStep {f : Frame} {label : Label} {e : Event}
    (hs : OnSchedule id clock delay times k z [f]) (hz : TimersOk z) (hclock : -2 ^ 63 ≤ clock)
    (hrange : ∀ timeNow ∈ passTime [f], timeNow + delay < 2 ^ 63)
    (hcount : times ≠ 0 → k ≤ times) (h : frameStep z f label = .ok (e, z', frames')) :
    Keeps id clock delay times k e z' frames' := by
  cases timerStep_frameStep h with
  | called hf hat hdue =>
    subst hf
    exact hs.called hz hcount hat hdue
  | @returned rc timeNow x z1 _ _ _ hf hcalled haside =>
    subst hf
    have hafter : OnSchedule id clock delay times k z1 frames' :=
      hs.returned hz hclock (hrange timeNow rfl) hcalled haside.called
    exact .of_other haside.event hcount (hafter.fewer haside.fewer rfl)
  | aside hf haside =>
    exact .of_other haside.event hcount (hs.fewer haside.fewer (haside.called.trans hf.symm))
  | still => exact .of_other (by simp) hcount hs

end

structure Scheduled (id clock : Int) (delay times k : Nat) (s : State) : Prop extends Plain s where
  count : times ≠ 0 → k ≤ times
  loop : ∀ z ∈ s.loop, OnSchedule id clock delay times k z s.frames

variable {clock : Int} {delay times : Nat}

lemma scheduled_step {k : Nat}
    (hclock : -2 ^ 63 ≤ clock) (hs : Scheduled id clock delay times k s)
    (hnest : Unnested s label) (hrange : InRange delay s label)
    (h : step s label = .ok (e, s')) :
    Scheduled id clock delay times (k + invocations id [e]) s' := by
  have hplain := plain_step hs.toPlain hnest h
  obtain ⟨z, hz, ⟨call, rfl, -, hcall⟩ | ⟨f, frames, z', rest, hframes, hframe, rfl, -⟩ |
    ⟨rfl, rfl⟩⟩ := step_cases h
  · obtain ⟨rfl, rfl, rfl⟩ | ⟨rfl, rfl, rfl⟩ | ⟨z', happly, rfl⟩ := callStep_cases hcall
    · have hidle : s.frames = [] := hnest rfl
      have hstart : OnSchedule id clock delay times k { z with terminated := false }
          (⟨0, .guard⟩ :: s.frames) := by
        refine (hs.loop z hz).fewer ⟨Sublist.refl _, rfl, le_rfl⟩ ?_
        rw [hidle]
        rfl
      exact ⟨hplain, hs.count, fun y hy => by cases hy; exact hstart⟩
    · exact ⟨hplain, hs.count, fun y hy => by cases hy⟩
    · obtain ⟨hcount, hafter⟩ := Keeps.of_other (apply_spec happly).1 hs.count
        ((hs.loop z hz).apply happly)
      exact ⟨hplain, hcount, fun y hy => by cases hy; exact hafter⟩
  · have hz' := hs.loop z hz
    have hnil := hs.frames_eq hframes
    subst hnil
    rw [append_nil] at hplain ⊢
    rw [hframes] at hz'
    obtain ⟨hcount, hafter⟩ := hz'.frameStep (hs.timers z hz).timersOk hclock
      (fun timeNow ht => hrange timeNow (hframes ▸ ht)) hs.count hframe
    exact ⟨hplain, hcount, fun y hy => by cases hy; exact hafter⟩
  · exact hs

lemma Scheduled.due_of_called {k : Nat}
    {action : Action} (hs : Scheduled id clock delay times k s)
    (h : step s label = .ok (.timer id action, s')) :
    ∃ timeNow, passTime s.frames = some timeNow ∧ clock + (k + 1) * delay ≤ timeNow := by
  obtain ⟨z, hz, ⟨call, -, -, hcall⟩ | ⟨f, frames, z', rest, hframes, hframe, -, -⟩ | ⟨he, -⟩⟩ :=
    step_cases h
  · obtain ⟨-, he, -⟩ | ⟨-, he, -⟩ | ⟨z', happly, -⟩ := callStep_cases hcall
    · cases he
    · cases he
    · exact absurd rfl ((apply_spec happly).1 id action)
  · have hz' := hs.loop z hz
    rw [hframes] at hz' ⊢
    generalize he : Event.timer id action = e at hframe
    cases timerStep_frameStep hframe with
    | @called rc timeNow x timer hf hat hdue =>
      cases he
      subst hf
      refine ⟨timeNow, rfl, ?_⟩
      rw [← (hz'.due_of_waiting rfl (mem_of_itemAt hat) rfl).next]
      exact hdue
    | returned _ _ haside => exact absurd he.symm (haside.event id action)
    | aside _ haside => exact absurd he.symm (haside.event id action)
    | still => cases he
  · cases he

lemma scheduled_run (hclock : -2 ^ 63 ≤ clock) {labels : List Label} {k : Nat} {es : List Event}
    (hs : Scheduled id clock delay times k s)
    (hnest : StepsMeet step Unnested s labels)
    (hrange : StepsMeet step (InRange delay) s labels)
    (h : run step s labels = .ok (es, s')) :
    Scheduled id clock delay times (k + invocations id es) s' := by
  induction labels generalizing k s es with
  | nil =>
    cases h
    exact hs
  | cons label labels ih =>
    obtain ⟨e, s1, es', hstep, hrest, rfl⟩ := run_cons_eq_ok h
    have hs1 := scheduled_step hclock hs hnest.head hrange.head hstep
    have hrun := ih hs1 (hnest.tail hstep) (hrange.tail hstep) hrest
    rw [invocations_cons, ← Nat.add_assoc]
    exact hrun

lemma scheduled_timer {action : Action}
    (hs : Plain s) (hlow : -2 ^ 63 ≤ clock) (hhigh : clock + delay < 2 ^ 63)
    (h : step s (.call (.timer delay times action clock)) = .ok (.result id, s')) (hid : id ≠ -1) :
    Scheduled id clock delay times 0 s' := by
  have hnest : Unnested s (.call (.timer delay times action clock)) := fun h => by cases h
  have hplain := plain_step hs hnest h
  obtain ⟨z, hz, ⟨call, hlabel, -, hcall⟩ | ⟨f, frames, z', rest, -, -, -, hnot⟩ | ⟨he, -⟩⟩ :=
    step_cases h
  · cases hlabel
    obtain ⟨hstart, -⟩ | ⟨hdestroy, -⟩ | ⟨z', happly, rfl⟩ := callStep_cases hcall
    · cases hstart
    · cases hdestroy
    · obtain ⟨⟨rc, z1⟩, htimer, happly⟩ := bind_eq_ok.mp happly
      cases happly
      rcases Zloop.timer_spec htimer with ⟨hrc, -⟩ | ⟨rfl, -, hlast, -, hentries⟩
      · exact absurd hrc hid
      · refine ⟨hplain, fun _ => Nat.zero_le _, fun y hy => ?_⟩
        cases hy
        refine ⟨hlast.ge, fun h timer hin heq => ?_⟩
        rw [hentries] at hin
        rcases mem_append.mp hin with hin | hin
        · -- the timers that were there have other numbers
          have hbound := (hs.timers z hz).timersOk.bound _ (Zloop.mem_ids.mpr ⟨h, timer, hin, rfl⟩)
          omega
        · cases mem_singleton.mp hin
          refine .inr ⟨fun timeNow hcalled => ?_, rfl, ?_, rfl, Nat.pos_of_ne_zero⟩
          · exact absurd ((hs.timers z hz).held _ hcalled) (lt_irrefl _)
          · rw [Nat.cast_zero, zero_add, one_mul]
            exact Zloop.int64_eq_self (by omega) hhigh
  · exact absurd rfl (hnot _)
  · cases he

def Running (id : Int) (z : Zloop) (frames : List Frame) : Prop :=
  ∃ timeNow h timer, calledTimer frames = some (timeNow, h) ∧
    (h, some timer) ∈ z.timers.entries ∧ timer.timerId = id

/-- In every run without nested starts in which clock and delay add up to times, the k-th call of a
timer is in a pass that starts k delays after its registration or later; it is called as often as it
was registered for at most, and then gone. -/
theorem timer_on_schedule {pre post : List Label} {before es : List Event} {s₀ s₁ s : State}
    {delay times : Nat} {action : Action} {clock id : Int}
    (hnest : StepsMeet step Unnested init
      (pre ++ .call (.timer delay times action clock) :: post))
    (hpre : run step init pre = .ok (before, s₀))
    (htimer : step s₀ (.call (.timer delay times action clock)) = .ok (.result id, s₁))
    (hid : id ≠ -1) (hlow : -2 ^ 63 ≤ clock) (hhigh : clock + delay < 2 ^ 63)
    (hrange : StepsMeet step (InRange delay) s₁ post)
    (hpost : run step s₁ post = .ok (es, s)) :
    (∀ label action' s', step s label = .ok (.timer id action', s') →
      ∃ timeNow, passTime s.frames = some timeNow ∧
        clock + (invocations id es + 1) * delay ≤ timeNow) ∧
    (times ≠ 0 → invocations id es ≤ times ∧
      (invocations id es = times → ∀ z ∈ s.loop, id ∈ z.ids → Running id z s.frames)) := by
  have hplain : Plain s₀ := hnest.left.run_invariant Plain
    (fun _ _ _ _ hs hmeet h => plain_step hs hmeet h)
    ⟨Nat.zero_le _, fun z hz => ⟨stateOk_init z hz, fun called hin => by cases hin⟩⟩ hpre
  have hstart := scheduled_timer hplain hlow hhigh htimer hid
  have hs := scheduled_run hlow hstart ((hnest.right hpre).tail htimer) hrange hpost
  rw [Nat.zero_add] at hs
  refine ⟨fun label action' s' h => ?_, fun htimes => ⟨hs.count htimes, fun hall z hz hin => ?_⟩⟩
  · exact hs.due_of_called h
  · obtain ⟨h, timer, hmem, heq⟩ := Zloop.mem_ids.mp hin
    rcases (hs.loop z hz).due h timer hmem heq with ⟨timeNow, j, hcalled, -⟩ | ⟨-, hdue⟩
    · exact ⟨timeNow, h, timer, hcalled, hmem, heq⟩
    · exact absurd (hdue.lt htimes) (by omega)

instance (s : State) (label : Label) : Decidable (Unnested s label) := by
  unfold Unnested
  infer_instance

instance (delay : Nat) (s : State) (label : Label) : Decidable (InRange delay s label) := by
  unfold InRange
  cases passTime s.frames with
  | none => exact isTrue fun timeNow h => by cases h
  | some timeNow => exact decidable_of_iff (timeNow + delay < 2 ^ 63) (by simp)

def twoCalls : List Label :=
  [.call .start, .turn (pass 10), .go, .ret 0, .go, .go, .go, .go, .go, .turn (pass 25)]

theorem timer_on_schedule_twice : ∃ s₁ es s,
    step init (.call (.timer 10 2 ⟨1, 1⟩ 0)) = .ok (.result 1, s₁) ∧
    run step s₁ twoCalls = .ok (es, s) ∧ invocations 1 es = 1 ∧
    (∃ action s', step s .go = .ok (.timer 1 action, s')) ∧
    ∃ timeNow, passTime s.frames = some timeNow ∧ (0 : Int) + (1 + 1) * 10 ≤ timeNow := by
  have hnest : StepsMeet step Unnested init
      ([] ++ .call (.timer 10 2 ⟨1, 1⟩ 0) :: twoCalls) :=
    stepsMeet_of_checkSteps (by decide)
  have hrange : StepsMeet step (InRange 10) init
      (.call (.timer 10 2 ⟨1, 1⟩ 0) :: twoCalls) :=
    stepsMeet_of_checkSteps (by decide)
  exact ⟨_, _, _, rfl, rfl, rfl, ⟨_, _, rfl⟩, (timer_on_schedule hnest rfl rfl (by decide) (by decide)
    (by decide) (hrange.tail rfl) rfl).1 .go _ _ rfl⟩

/-- A timer put off as far as a `size_t` can tell is called at once: the sum is the time before. -/
theorem timer_before_schedule :
    (run step init [.call (.timer (2 ^ 64 - 1) 1 ⟨1, 1⟩ 1000), .call .start,
      .turn (pass 1000), .go]).map Prod.fst = .ok [.result 1, .idle, .idle, .timer 1 ⟨1, 1⟩] := by
  decide

end Reactor

end Czmq
