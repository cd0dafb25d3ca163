import Czmq.Zloop.Schedule

/-! One pass through the timers. A timer that is registered puts the cursor back, and the pass comes
to all timers again: it ends if none of them is still due. -/

namespace Czmq

open Option CursorList List Machine

namespace Zloop

variable {z z' : Zloop}

lemma timerCalled_split {h : Nat} {timer : Timer} {es fs : List (Nat × Option Timer)}
    (hn : (Zlistx.handles z.timers.entries).Nodup)
    (hsplit : z.timers.entries = es ++ (h, some timer) :: fs) (hcalled : z.timerCalled h = .ok z') :
    z'.timers.entries = es ++ timer.afterCall.toList.map (fun next => (h, some next)) ++ fs ∧
      (z.timers.cursor = some h → z'.timers.toNext.cursor = fs.head?.map Prod.fst) ∧
      (z.timers.cursor = none → z'.timers.cursor = none) ∧ z'.lastTimerId = z.lastTimerId := by
  have hes := (not_mem_handles hn hsplit).1
  rw [timerCalled, itemAt_eq hsplit hes] at hcalled
  dsimp only at hcalled
  cases hafter : timer.afterCall with
  | none =>
    rw [hafter] at hcalled
    cases hcalled
    refine ⟨?_, fun hc => (delete_toNext owning hsplit hn hc).2, fun hc => ?_, rfl⟩
    · rw [delete_entries owning hn hsplit, toList_none, map_nil, append_nil]
    · rw [(step_delete owning z.timers h).2]
      change (z.timers.detachAt h).cursor = none
      rw [detachAt_eq hsplit hes, hc, if_neg (some_ne_none h).symm]
  | some next =>
    rw [hafter] at hcalled
    cases hcalled
    have hentries := entries_set hn hsplit next
    refine ⟨?_, fun hc => toNext_cursor hc hentries hes, id, rfl⟩
    rw [hentries, toList_some, map_singleton, append_assoc, singleton_append]

end Zloop

namespace Reactor

open Zloop (TimersOk Fewer Timer Action)

section
variable {z z' : Zloop} {s s' : State} {label : Label} {e : Event}

lemma timersOk_frameStep {f : Frame} {rest : List Frame} (hz : TimersOk z)
    (h : frameStep z f label = .ok (e, z', rest)) : TimersOk z' := by
  cases timerStep_frameStep h with
  | called => exact hz
  | returned hf hcalled haside =>
    obtain ⟨timers, timer, rfl, -, hok, -⟩ := Zloop.timerCalled_spec hz hcalled
    exact haside.fewer.timersOk hok
  | aside hf haside => exact haside.fewer.timersOk hz
  | still => exact hz

lemma timersOk_step (hs : StateOk s) (h : step s label = .ok (e, s')) : StateOk s' :=
  step_rule h (fun z hz _ => hs z hz) (fun z hz _ _ => { hs z hz with })
    (fun z hz _ _ _ _ h => by
      obtain ⟨-, hq | ⟨_, _, _, _, _, htimer⟩ | ⟨_, hend⟩⟩ := apply_spec h
      · exact hq.timersOk (hs z hz)
      · exact (hs z hz).timer htimer
      · exact (Zloop.fewer_timerEnd hend).timersOk (hs z hz))
    fun z hz _ _ _ _ _ _ h => timersOk_frameStep (hs z hz) h

end

/-! ## Timers in a pass -/

def calledIds (es : List Event) : List Int :=
  es.filterMap fun e => match e with
    | .timer timerId _ => some timerId
    | _ => none

lemma invocations_eq_count (id : Int) (es : List Event) :
    invocations id es = (calledIds es).count id := by
  induction es with
  | nil => rfl
  | cons e es ih =>
    rw [invocations_cons, ih]
    cases e with
    | timer timerId action =>
      rw [invocations_timer]
      change _ = (timerId :: calledIds es).count id
      rw [count_cons, Nat.add_comm]
      simp
    | idle | ticket | reader | poller | started | result | handle => exact Nat.zero_add _

section
variable (timeNow : Int) (called : List Int)

def Rested (e : Nat × Option Timer) : Prop :=
  ∀ timer ∈ e.2, timer.timerId ∈ called → timeNow < timer.when

def isWaiting (e : Nat × Option Timer) : Bool :=
  e.2.any fun timer => decide (timer.when ≤ timeNow) && decide (timer.timerId ∉ called)

def waiting (entries : List (Nat × Option Timer)) : Nat := entries.countP (isWaiting timeNow called)

/-- Where the pass is, with what is left of it: twice the timers to come, or all again behind a
handler. -/
inductive Scanning (bound : Nat) (a : CursorList Timer) : Pc → Nat → Prop where
  | timers {es fs : List (Nat × Option Timer)} (hsplit : a.entries = es ++ fs)
      (hc : a.cursor = fs.head?.map Prod.fst) (hrest : ∀ e ∈ fs, Rested timeNow called e) :
      Scanning bound a (.timers timeNow a.cursor) (2 * fs.length + 1)
  | handler {es fs : List (Nat × Option Timer)} {h : Nat} {timer : Timer}
      (hsplit : a.entries = es ++ (h, some timer) :: fs) (hin : timer.timerId ∈ called)
      (hnext : a.cursor = some h ∧ (∀ e ∈ fs, Rested timeNow called e) ∨
        a.cursor = none ∧ (∀ e ∈ es ++ fs, Rested timeNow called e) ∧
          ∀ next ∈ timer.afterCall, timeNow < next.when) :
      Scanning bound a (.timerHandler timeNow h) (2 * bound + 3)

structure Passing (bound : Nat) (z : Zloop) (pc : Pc) (cost : Nat) : Prop where
  nodup : called.Nodup
  le : ∀ id ∈ called, id ≤ z.lastTimerId
  scanning : ∃ k, Scanning timeNow called bound z.timers pc k ∧
    cost = waiting timeNow called z.timers.entries * (2 * bound + 4) + k

end

section
variable {timeNow : Int} {called : List Int}

lemma waiting_append (es fs : List (Nat × Option Timer)) :
    waiting timeNow called (es ++ fs) = waiting timeNow called es + waiting timeNow called fs :=
  countP_append

variable {h : Nat} {timer : Timer}

lemma isWaiting_of_mem (hin : timer.timerId ∈ called) :
    isWaiting timeNow called (h, some timer) = false := by
  simp [isWaiting, hin]

lemma waiting_cons_of_not {e : Nat × Option Timer} (he : isWaiting timeNow called e = false)
    (es : List (Nat × Option Timer)) :
    waiting timeNow called (e :: es) = waiting timeNow called es :=
  countP_cons_of_neg (Bool.eq_false_iff.mp he)

lemma waiting_concat_le (timeNow : Int) (called : List Int) (id : Int)
    (es : List (Nat × Option Timer)) :
    waiting timeNow (called ++ [id]) es ≤ waiting timeNow called es := by
  refine countP_mono_left fun e _ he => ?_
  obtain ⟨h, _ | timer⟩ := e
  · cases he
  · simp only [isWaiting, any_some, Bool.and_eq_true, decide_eq_true_eq] at he ⊢
    exact ⟨he.1, fun hin => he.2 (mem_append_left _ hin)⟩

variable {es fs : List (Nat × Option Timer)}

lemma waiting_called {entries : List (Nat × Option Timer)}
    (hsplit : entries = es ++ (h, some timer) :: fs) (hdue : timer.when ≤ timeNow)
    (hnot : timer.timerId ∉ called) :
    waiting timeNow (called ++ [timer.timerId]) entries + 1 ≤ waiting timeNow called entries := by
  have hwaits : isWaiting timeNow called (h, some timer) = true := by
    simp [isWaiting, hdue, hnot]
  have hcons : waiting timeNow called ((h, some timer) :: fs) = waiting timeNow called fs + 1 :=
    countP_cons_of_pos hwaits
  have hes := waiting_concat_le timeNow called timer.timerId es
  have hfs := waiting_concat_le timeNow called timer.timerId fs
  rw [hsplit, waiting_append, waiting_append,
    waiting_cons_of_not (isWaiting_of_mem (mem_append_right _ mem_cons_self))]
  omega

/-! ## Steps of a pass -/

variable {bound cost k : Nat} {z z' : Zloop} {pc : Pc} {e : Event} {rest : List Frame} {rc : Int}

structure GoesOn (timeNow : Int) (called : List Int) (bound : Nat) (z : Zloop) (e : Event)
    (z' : Zloop) (pc : Pc) (cost : Nat) : Prop where
  passing : Passing timeNow (called ++ calledIds [e]) bound z' pc cost
  waits : waiting timeNow (called ++ calledIds [e]) z'.timers.entries + (calledIds [e]).length ≤
    waiting timeNow called z.timers.entries

lemma GoesOn.of_idle {pc' : Pc} (hz : Passing timeNow called bound z pc cost)
    (he : calledIds [e] = []) (hlast : z.lastTimerId ≤ z'.lastTimerId)
    (hscan : Scanning timeNow called bound z'.timers pc' k)
    (hwaits : waiting timeNow called z'.timers.entries ≤ waiting timeNow called z.timers.entries) :
    GoesOn timeNow called bound z e z' pc'
      (waiting timeNow called z'.timers.entries * (2 * bound + 4) + k) := by
  constructor
  · rw [he, append_nil]
    exact ⟨hz.nodup, fun id hid => (hz.le id hid).trans hlast, k, hscan, rfl⟩
  · rwa [he, append_nil]

lemma Passing.call (hz : Passing timeNow called bound z pc cost) (hok : TimersOk z)
    (hsplit : z.timers.entries = es ++ (h, some timer) :: fs) (hc : z.timers.cursor = some h)
    (hrest : ∀ e ∈ (h, some timer) :: fs, Rested timeNow called e) (hdue : timer.when ≤ timeNow) :
    GoesOn timeNow called bound z (.timer timer.timerId timer.action) z (.timerHandler timeNow h)
      (waiting timeNow (called ++ [timer.timerId]) z.timers.entries * (2 * bound + 4) +
        (2 * bound + 3)) := by
  have hnot : timer.timerId ∉ called := fun hin =>
    absurd (hrest _ mem_cons_self timer rfl hin) (Int.not_lt.mpr hdue)
  have hids := hok.nodup
  rw [Zloop.ids, hsplit, Zloop.idsOf_append, nodup_append] at hids
  refine ⟨⟨?_, ?_, _, .handler hsplit (mem_append_right _ mem_cons_self) (.inl ⟨hc, ?_⟩),
    rfl⟩, waiting_called hsplit hdue hnot⟩
  · refine nodup_append.mpr ⟨hz.nodup, nodup_singleton _, fun a ha b hb heq => ?_⟩
    exact hnot (mem_singleton.mp hb ▸ heq ▸ ha)
  · refine forall_mem_append.mpr ⟨hz.le, forall_mem_singleton.mpr (hok.bound _ ?_)⟩
    refine mem_filterMap.mpr ⟨(h, some timer), ?_, rfl⟩
    rw [hsplit]
    exact mem_append_right _ mem_cons_self
  · intro f hf t ht hin
    rcases mem_append.mp hin with hin | hid
    · exact hrest f (mem_cons_of_mem _ hf) t ht hin
    · refine ((nodup_cons.mp hids.2.1).1 (mem_filterMap.mpr ⟨f, hf, ?_⟩)).elim
      rw [mem_def.mp ht]
      exact congrArg some (mem_singleton.mp hid)

lemma cost_lt {w w' k' : Nat} (hw : w' ≤ w) (hk : k' < k) :
    w' * (2 * bound + 4) + k' < w * (2 * bound + 4) + k :=
  Nat.add_lt_add_of_le_of_lt (Nat.mul_le_mul_right _ hw) hk

def Ahead (timeNow : Int) (called : List Int) (bound : Nat) (z : Zloop) (cost : Nat) (rc : Int)
    (o : Outcome) : Prop :=
  (o.1 = .idle ∧ (∃ ticket, o.2.2 = [⟨rc, .tickets timeNow ticket⟩]) ∧ 1 ≤ cost) ∨
    ∃ pc cost', o.2.2 = [⟨rc, pc⟩] ∧ GoesOn timeNow called bound z o.1 o.2.1 pc cost' ∧
      cost' < cost ∧ o.2.1.timers.entries.length ≤ z.timers.entries.length

lemma Passing.go {x : Option Nat} {o : Outcome}
    (hz : Passing timeNow called bound z (.timers timeNow x) cost) (hok : TimersOk z)
    (h : timersStep z rc timeNow x = .ok o) : Ahead timeNow called bound z cost rc o := by
  obtain ⟨k, hscan, rfl⟩ := hz.scanning
  cases hscan with
  | @timers es fs hsplit hc hrest =>
    cases fs with
    | nil =>
      rw [hc] at h
      cases h
      exact .inl ⟨rfl, ⟨_, rfl⟩, Nat.le_add_left _ _⟩
    | cons entry fs =>
      obtain ⟨x, item⟩ := entry
      have hx := (not_mem_handles hok.handles hsplit).1
      have hat : z.timers.itemAt x = item := itemAt_eq hsplit hx
      change z.timers.cursor = some x at hc
      rw [hc, timersStep, hat] at h
      right
      cases item with
      | none => cases h
      | some timer =>
        dsimp only at h
        split at h
        · next hdue =>
          cases h
          have hgoes := hz.call hok hsplit hc hrest hdue
          refine ⟨_, _, rfl, hgoes, ?_, le_rfl⟩
          have hmul := Nat.mul_le_mul_right (2 * bound + 4) hgoes.waits
          change (waiting timeNow (called ++ [timer.timerId]) z.timers.entries + 1) * _ ≤ _ at hmul
          rw [Nat.succ_mul] at hmul
          omega
        · cases h
          have hentries : z.timers.toNext.entries = (es ++ [(x, some timer)]) ++ fs := by
            rw [toNext_entries, hsplit, append_assoc, singleton_append]
          have hscan : Scanning timeNow called bound z.timers.toNext
              (.timers timeNow z.timers.toNext.cursor) (2 * fs.length + 1) :=
            .timers hentries (toNext_cursor hc hsplit hx)
              fun f hf => hrest f (mem_cons_of_mem _ hf)
          have hsame : z.timers.toNext.entries = z.timers.entries := toNext_entries
          refine ⟨_, _, rfl, .of_idle hz rfl le_rfl hscan (hsame ▸ le_rfl), ?_,
            (congrArg length hsame).le⟩
          exact cost_lt (hsame ▸ le_rfl) (by rw [length_cons]; omega)

lemma Scanning.of_split {a : CursorList Timer}
    (hsplit : a.entries = es ++ fs) (hlen : a.entries.length ≤ bound)
    (hc : a.cursor = fs.head?.map Prod.fst) (hrest : ∀ e ∈ fs, Rested timeNow called e) :
    ∃ k, Scanning timeNow called bound a (.timers timeNow a.cursor) k ∧ k < 2 * bound + 3 := by
  refine ⟨_, .timers hsplit hc hrest, ?_⟩
  rw [hsplit, length_append] at hlen
  omega

lemma waiting_afterCall (hin : timer.timerId ∈ called) :
    waiting timeNow called (es ++ timer.afterCall.toList.map (fun next => (h, some next)) ++ fs) =
      waiting timeNow called (es ++ (h, some timer) :: fs) := by
  rw [waiting_append, waiting_append, waiting_append, waiting_cons_of_not (isWaiting_of_mem hin)]
  cases hafter : timer.afterCall with
  | none => rfl
  | some next =>
    have hnext : next.timerId ∈ called := Timer.afterCall_timerId hafter ▸ hin
    rw [toList_some, map_singleton, waiting_cons_of_not (isWaiting_of_mem hnext)]
    rfl

lemma scanning_timerCalled (hok : TimersOk z) (hlen : z.timers.entries.length ≤ bound)
    (hscan : Scanning timeNow called bound z.timers (.timerHandler timeNow h) k)
    (hcalled : z.timerCalled h = .ok z') :
    ∃ k', Scanning timeNow called bound z'.timers.toNext (.timers timeNow z'.timers.toNext.cursor) k' ∧
      k' < k ∧ waiting timeNow called z'.timers.entries = waiting timeNow called z.timers.entries ∧
      z'.timers.entries.length ≤ z.timers.entries.length ∧ z'.lastTimerId = z.lastTimerId := by
  cases hscan with
  | @handler es fs _ timer hsplit hin hnext =>
    obtain ⟨hentries, hbehind, hfront, hlast⟩ := Zloop.timerCalled_split hok.handles hsplit hcalled
    have hshort : z'.timers.entries.length ≤ z.timers.entries.length := by
      rw [hentries, hsplit]
      have hle : timer.afterCall.toList.length ≤ 1 := by cases timer.afterCall <;> simp
      simp only [length_append, length_map, length_cons]
      omega
    have hwaits : waiting timeNow called z'.timers.entries = waiting timeNow called z.timers.entries := by
      rw [hentries, hsplit, waiting_afterCall hin]
    have hsame : z'.timers.toNext.entries = z'.timers.entries := toNext_entries
    have hscan : ∃ k', Scanning timeNow called bound z'.timers.toNext
        (.timers timeNow z'.timers.toNext.cursor) k' ∧ k' < 2 * bound + 3 := by
      rcases hnext with ⟨hc, hrest⟩ | ⟨hc, hrest, hnext⟩
      · exact Scanning.of_split (hsame.trans hentries) (hsame ▸ hshort.trans hlen) (hbehind hc) hrest
      · refine Scanning.of_split (nil_append _).symm (hsame ▸ hshort.trans hlen) ?_ ?_
        · rw [toNext, hfront hc]
          rfl
        · rw [hsame, hentries]
          intro e he
          rcases mem_append.mp he with he | he
          · rcases mem_append.mp he with he | he
            · exact hrest e (mem_append_left _ he)
            · obtain ⟨next, hmem, rfl⟩ := mem_map.mp he
              intro t ht _
              cases ht
              exact hnext next (mem_toList.mp hmem)
          · exact hrest e (mem_append_right _ he)
    obtain ⟨k', hscan, hk⟩ := hscan
    exact ⟨k', hscan, hk, hwaits, hshort, hlast⟩

lemma Passing.ret {o : Outcome}
    (hz : Passing timeNow called bound z (.timerHandler timeNow h) cost) (hok : TimersOk z)
    (hlen : z.timers.entries.length ≤ bound) (hret : timerReturn z rc timeNow h = .ok o) :
    Ahead timeNow called bound z cost rc o := by
  obtain ⟨z1, hcalled, hret⟩ := bind_eq_ok.mp hret
  obtain ⟨k, hscan, rfl⟩ := hz.scanning
  obtain ⟨k', hscan', hk, hwaits, hshort, hlast⟩ := scanning_timerCalled hok hlen hscan hcalled
  split at hret
  · cases hret
    exact .inl ⟨rfl, ⟨_, rfl⟩, by omega⟩
  · cases hret
    have hsame : z1.timers.toNext.entries = z1.timers.entries := toNext_entries
    have hle : waiting timeNow called z1.timers.toNext.entries ≤
        waiting timeNow called z.timers.entries := by rw [hsame, hwaits]
    refine .inr ⟨_, _, rfl, .of_idle hz rfl hlast.ge hscan' hle, cost_lt hle hk, ?_⟩
    exact (congrArg length hsame).le.trans hshort

/-! ## Handlers -/

/-- The timers that the pass has come by are not due, that of a running handler included once it is
put off. -/
def Passed (timeNow : Int) (h : Nat) (timers : CursorList Timer) : Prop :=
  (∀ e ∈ timers.before h, ∀ timer ∈ e.2, timeNow < timer.when) ∧
    ∀ timer ∈ timers.itemAt h, ∀ next ∈ timer.afterCall, timeNow < next.when

/-- A step of the pass. When a handler registers a timer, neither that one nor one that the pass has
come by is due. -/
def Fair (z : Zloop) : Pc → Label → Prop
  | .timers _ _, .go | .timerHandler _ _, .ret _ => True
  | .timerHandler timeNow h, .call (.timer delay _ _ clock) =>
    timeNow < Zloop.int64 (clock + delay) ∧ Passed timeNow h z.timers
  | .timerHandler _ _, .call (.timerEnd _) => z.terminated = false
  | .timerHandler _ _, .call .start => False
  | .timerHandler _ _, .call _ => True
  | _, _ => False

def addsTimer : Label → Bool
  | .call (.timer ..) => true
  | _ => false

lemma calledIds_of_ne (he : ∀ id action, e ≠ .timer id action) : calledIds [e] = [] := by
  cases e with
  | timer id action => exact absurd rfl (he id action)
  | idle | ticket | reader | poller | started | result | handle => rfl

lemma Scanning.register {a b : CursorList Timer} {timer : Nat × Option Timer}
    (hn : (Zlistx.handles a.entries).Nodup)
    (hscan : Scanning timeNow called bound a (.timerHandler timeNow h) k)
    (hpassed : Passed timeNow h a) (hentries : b.entries = a.entries ++ [timer])
    (hc : b.cursor = none) (hnew : ∀ t ∈ timer.2, timeNow < t.when) :
    Scanning timeNow called bound b (.timerHandler timeNow h) k := by
  cases hscan with
  | @handler es fs _ t hsplit hin hnext =>
    obtain ⟨hbefore, hafter⟩ := hpassed
    have hes := (not_mem_handles hn hsplit).1
    rw [before_eq hsplit hes] at hbefore
    rw [itemAt_eq hsplit hes] at hafter
    rw [hsplit, append_assoc] at hentries
    refine .handler hentries hin (.inr ⟨hc, ?_, hafter t rfl⟩)
    refine forall_mem_append.mpr ⟨fun e he t ht _ => hbefore e he t ht,
      forall_mem_append.mpr ⟨?_, forall_mem_singleton.mpr fun t ht _ => hnew t ht⟩⟩
    rcases hnext with ⟨-, hrest⟩ | ⟨-, hrest, -⟩
    · exact hrest
    · exact fun e he => hrest e (mem_append_right _ he)

lemma Passing.apply {call : Call}
    (hz : Passing timeNow called bound z (.timerHandler timeNow h) cost) (hok : TimersOk z)
    (hfair : Fair z (.timerHandler timeNow h) (.call call)) (happly : apply z call = .ok (e, z')) :
    GoesOn timeNow called bound z e z' (.timerHandler timeNow h) cost ∧
      z'.timers.entries.length ≤ z.timers.entries.length + (addsTimer (.call call)).toNat := by
  have hidle : calledIds [e] = [] := calledIds_of_ne (apply_spec happly).1
  obtain ⟨k, hscan, hcost⟩ := hz.scanning
  have hkept : z'.timers = z.timers → z'.lastTimerId = z.lastTimerId →
      GoesOn timeNow called bound z e z' (.timerHandler timeNow h) cost ∧
        z'.timers.entries.length ≤ z.timers.entries.length + (addsTimer (.call call)).toNat := by
    intro htimers hlast
    rw [hcost, ← htimers]
    refine ⟨.of_idle hz hidle hlast.ge (htimers ▸ hscan) (htimers ▸ le_rfl), Nat.le_add_right _ _⟩
  rcases apply_timers happly with ⟨htimers, -, hlast, -⟩ |
    ⟨delay, times, action, clock, id, rfl, htimer⟩ | ⟨timerId, rfl, hend⟩
  · exact hkept htimers hlast
  · obtain ⟨-, rfl⟩ | ⟨-, heq⟩ := Zloop.timer_eq htimer
    · exact hkept rfl rfl
    · have hentries : z'.timers.entries = z.timers.entries ++ [(z.fresh, some
          ⟨z.lastTimerId + 1, action, delay, times, Zloop.int64 (clock + delay)⟩)] := heq ▸ rfl
      have hwaits : waiting timeNow called z'.timers.entries =
          waiting timeNow called z.timers.entries := by
        rw [hentries, waiting_append, waiting_cons_of_not]
        · rfl
        · simp [isWaiting, Int.not_le.mpr hfair.1]
      have hscan' := hscan.register hok.handles hfair.2 hentries (heq ▸ rfl) fun t ht => by
        cases ht
        exact hfair.1
      rw [hcost, ← hwaits]
      refine ⟨.of_idle hz hidle ?_ hscan' hwaits.le, ?_⟩
      · rw [heq]
        exact Int.le_add_of_nonneg_right zero_le_one
      · rw [hentries, length_append]
        exact le_rfl
  · obtain ⟨hterm, -⟩ | ⟨-, rfl⟩ := Zloop.timerEnd_eq hend
    · cases hterm.symm.trans hfair
    · exact hkept rfl rfl

end

/-! ## Whole passes -/

/-- A step of the pass of the `depth + 1`-st `zloop_start`. -/
def FairStep (depth : Nat) (s : State) (label : Label) : Prop :=
  match s.loop, s.frames with
  | some z, ⟨_, pc⟩ :: frames => frames.length = depth ∧ Fair z pc label
  | _, _ => False

def advances : Label → Bool
  | .go | .ret _ => true
  | _ => false

section
variable {timeNow : Int} {called : List Int} {bound cost : Nat} {z : Zloop} {frames : List Frame}
variable {s s' : State} {label : Label} {e : Event}

structure InPass (timeNow : Int) (called : List Int) (bound : Nat) (frames : List Frame) (z : Zloop)
    (cost : Nat) (s : State) : Prop where
  orderly : z.Orderly
  timersOk : TimersOk z
  exists_frame : ∃ rc pc, s = ⟨some z, ⟨rc, pc⟩ :: frames⟩ ∧ Passing timeNow called bound z pc cost

lemma timersStep_ok {rc : Int} (hz : z.Orderly) {es fs : List (Nat × Option Timer)}
    (hsplit : z.timers.entries = es ++ fs) (hc : z.timers.cursor = fs.head?.map Prod.fst) :
    ∃ o, timersStep z rc timeNow z.timers.cursor = .ok o := by
  cases fs with
  | nil =>
    rw [hc]
    exact ⟨_, rfl⟩
  | cons entry fs =>
    obtain ⟨h, item⟩ := entry
    have hsome := hz.timers.isSome (h, item) (hsplit ▸ mem_append_right _ mem_cons_self)
    obtain ⟨timer, rfl⟩ := isSome_iff_exists.mp hsome
    have hat : z.timers.itemAt h = some timer :=
      itemAt_eq hsplit (not_mem_handles hz.timers.nodup hsplit).1
    change z.timers.cursor = some h at hc
    rw [hc, timersStep, hat]
    dsimp only
    split <;> exact ⟨_, rfl⟩

lemma timerReturn_ok {rc : Int} (hz : z.Orderly) {es fs : List (Nat × Option Timer)} {h : Nat}
    {timer : Timer} (hsplit : z.timers.entries = es ++ (h, some timer) :: fs) :
    ∃ o, timerReturn z rc timeNow h = .ok o := by
  have hat : z.timers.itemAt h = some timer :=
    itemAt_eq hsplit (not_mem_handles hz.timers.nodup hsplit).1
  have hcalled : ∃ z1, z.timerCalled h = .ok z1 := by
    rw [Zloop.timerCalled, hat]
    dsimp only
    split <;> exact ⟨_, rfl⟩
  obtain ⟨z1, hcalled⟩ := hcalled
  rw [timerReturn, hcalled]
  split <;> exact ⟨_, rfl⟩

lemma InPass.advance (hs : InPass timeNow called bound frames z cost s)
    (hfair : FairStep frames.length s label) (hadvances : advances label = true) :
    ∃ e s', step s label = .ok (e, s') := by
  obtain ⟨rc, pc, rfl, hz⟩ := hs.exists_frame
  obtain ⟨k, hscan, -⟩ := hz.scanning
  have hgo : ∀ o, frameStep z ⟨rc, pc⟩ label = .ok o →
      ∃ e s', step ⟨some z, ⟨rc, pc⟩ :: frames⟩ label = .ok (e, s') := by
    intro o ho
    cases label with
    | go | ret =>
      refine ⟨o.1, ⟨some o.2.1, o.2.2 ++ frames⟩, ?_⟩
      rw [step]
      dsimp only
      rw [ho]
      rfl
    | call | turn => cases hadvances
  cases hscan with
  | timers hsplit hc hrest =>
    obtain ⟨o, ho⟩ := timersStep_ok hs.orderly hsplit hc
    cases label with
    | go => exact hgo o ho
    | call | ret | turn => exact hfair.2.elim
  | handler hsplit hin hnext =>
    cases label with
    | ret rc' =>
      obtain ⟨o, ho⟩ := timerReturn_ok hs.orderly hsplit
      exact hgo o ho
    | call | turn => cases hadvances
    | go => exact hfair.2.elim

/-- The pass is over, or goes on and costs less if the step is one of the reactor. -/
inductive PassStep (timeNow : Int) (called : List Int) (bound : Nat) (frames : List Frame) (z : Zloop)
    (cost : Nat) (label : Label) (e : Event) (s' : State) : Prop where
  | ended (hidle : calledIds [e] = []) (hcost : (advances label).toNat ≤ cost)
      (hover : ∀ label', ¬ FairStep frames.length s' label')
  | goesOn {z' : Zloop} {cost' : Nat}
      (hs : InPass timeNow (called ++ calledIds [e]) bound frames z' cost' s')
      (hcost : cost' + (advances label).toNat ≤ cost)
      (hwaits : waiting timeNow (called ++ calledIds [e]) z'.timers.entries + (calledIds [e]).length ≤
        waiting timeNow called z.timers.entries)
      (hlen : z'.timers.entries.length ≤ z.timers.entries.length + (addsTimer label).toNat)

lemma PassStep.of_ahead {rc : Int} {o : Outcome} (horderly : o.2.1.Orderly) (hok : TimersOk o.2.1)
    (h : Ahead timeNow called bound z cost rc o) (hlabel : advances label = true) :
    PassStep timeNow called bound frames z cost label o.1 ⟨some o.2.1, o.2.2 ++ frames⟩ := by
  obtain ⟨e, z', rest⟩ := o
  rcases h with ⟨he, ⟨ticket, hrest⟩, hcost⟩ | ⟨pc, cost', hrest, hgoes, hcost, hlen⟩
  ·
    subst he hrest
    refine .ended rfl ?_ fun label' hfair => ?_
    · rwa [hlabel]
    · cases label' <;> exact hfair.2.elim
  ·
    subst hrest
    refine .goesOn ⟨horderly, hok, rc, pc, rfl, hgoes.passing⟩ ?_ hgoes.waits
      (hlen.trans (Nat.le_add_right _ _))
    rw [hlabel]
    exact hcost

lemma InPass.passStep (hs : InPass timeNow called bound frames z cost s)
    (hfair : FairStep frames.length s label)
    (hlen : z.timers.entries.length + (addsTimer label).toNat ≤ bound)
    (hstep : step s label = .ok (e, s')) : PassStep timeNow called bound frames z cost label e s' := by
  obtain ⟨rc, pc, rfl, hz⟩ := hs.exists_frame
  have horderly : ∀ y ∈ s'.loop, y.Orderly :=
    orderly_step (fun y hy => by cases hy; exact hs.orderly) hstep
  have hok : StateOk s' := timersOk_step (fun y hy => by cases hy; exact hs.timersOk) hstep
  obtain ⟨k, hscan, -⟩ := hz.scanning
  cases hscan with
  | timers =>
    cases label with
    | go =>
      obtain ⟨o, ho, heq⟩ := bind_eq_ok.mp hstep
      cases heq
      exact .of_ahead (horderly _ rfl) (hok _ rfl) (hz.go hs.timersOk ho) rfl
    | call | ret | turn => exact hfair.2.elim
  | @handler _ _ h _ =>
    cases label with
    | ret rc' =>
      obtain ⟨o, ho, heq⟩ := bind_eq_ok.mp hstep
      cases heq
      exact .of_ahead (horderly _ rfl) (hok _ rfl) (hz.ret hs.timersOk hlen ho) rfl
    | call call =>
      obtain ⟨rfl, -⟩ | ⟨-, rfl, rfl⟩ | ⟨z', happly, rfl⟩ := callStep_cases hstep
      · exact hfair.2.elim
      · exact .ended rfl (Nat.zero_le _) fun label' hfair => hfair.elim
      · obtain ⟨hgoes, hlen'⟩ := hz.apply hs.timersOk hfair.2 happly
        exact .goesOn ⟨horderly _ rfl, hok _ rfl, rc, _, rfl, hgoes.passing⟩ le_rfl hgoes.waits hlen'
    | go | turn => exact hfair.2.elim

structure PassRun (called : List Int) (waits cost : Nat) (frames : List Frame) (labels : List Label)
    (es : List Event) (s : State) : Prop where
  nodup : (called ++ calledIds es).Nodup
  calls : (calledIds es).length ≤ waits
  steps : labels.countP advances ≤ cost
  advance : ∀ label, FairStep frames.length s label → advances label = true →
    ∃ e s', step s label = .ok (e, s')

lemma countP_cons {labels : List Label} (p : Label → Bool) (label : Label) :
    (label :: labels).countP p = labels.countP p + (p label).toNat := by
  rw [List.countP_cons]
  cases p label <;> rfl

lemma calledIds_cons (e : Event) (es : List Event) :
    calledIds (e :: es) = calledIds [e] ++ calledIds es := filterMap_append (l := [e])

lemma InPass.passRun {labels : List Label} {es : List Event}
    (hs : InPass timeNow called bound frames z cost s)
    (hlen : z.timers.entries.length + labels.countP addsTimer ≤ bound)
    (hfair : StepsMeet step (FairStep frames.length) s labels)
    (hrun : run step s labels = .ok (es, s')) :
    PassRun called (waiting timeNow called z.timers.entries) cost frames labels es s' := by
  -- induction on the labels: what each of them costs is taken off from the rest
  induction labels generalizing called z cost s es with
  | nil =>
    cases hrun
    obtain ⟨rc, pc, -, hz⟩ := hs.exists_frame
    exact ⟨(append_nil called).symm ▸ hz.nodup, Nat.zero_le _, Nat.zero_le _,
      fun label hl hadvances => hs.advance hl hadvances⟩
  | cons label labels ih =>
    obtain ⟨e, s1, es', hstep, hrest, rfl⟩ := run_cons_eq_ok hrun
    rw [countP_cons] at hlen
    cases hs.passStep hfair.head (by omega) hstep with
    | ended hidle hcost hover =>
      cases labels with
      | nil =>
        cases hrest
        obtain ⟨rc, pc, -, hz⟩ := hs.exists_frame
        refine ⟨?_, ?_, ?_, fun label' hl => absurd hl (hover label')⟩
        · rw [hidle, append_nil]
          exact hz.nodup
        · rw [hidle]
          exact Nat.zero_le _
        · rwa [countP_cons, countP_nil, Nat.zero_add]
      | cons label' labels => exact absurd (hfair.tail hstep).head (hover label')
    | goesOn hs' hcost hwaits hlen' =>
      have hrun' := ih hs' (by omega) (hfair.tail hstep) hrest
      refine ⟨?_, ?_, ?_, hrun'.advance⟩
      · rw [calledIds_cons, ← append_assoc]
        exact hrun'.nodup
      · have hcalls := hrun'.calls
        rw [calledIds_cons, length_append]
        omega
      · have hsteps := hrun'.steps
        rw [countP_cons]
        omega

end

/-- In every run, a pass through `n` timers ends after a number of steps that depends on `n` alone
and calls no handler twice, if no more timers are registered than handlers called and, with each,
neither it nor a timer that the pass has come by is due. -/
theorem timer_pass_ends {pre labels : List Label} {before es : List Event} {s₀ s₁ : State}
    {z₀ : Zloop} {rc timeNow : Int} {frames : List Frame}
    (hpre : run step init pre = .ok (before, s₀)) (hz₀ : s₀.loop = some z₀)
    (hframes : s₀.frames = ⟨rc, .timers timeNow z₀.timers.cursor⟩ :: frames)
    (hfirst : z₀.timers.cursor = z₀.timers.entries.head?.map Prod.fst)
    (hfair : StepsMeet step (FairStep frames.length) s₀ labels)
    (hrun : run step s₀ labels = .ok (es, s₁))
    (hone : labels.countP addsTimer ≤ (calledIds es).length) :
    (∀ id, invocations id es ≤ 1) ∧
    labels.countP advances ≤ z₀.timers.entries.length * (4 * z₀.timers.entries.length + 6) + 1 ∧
    ∀ label, FairStep frames.length s₁ label → advances label = true →
      ∃ e s, step s₁ label = .ok (e, s) := by
  have hok : StateOk s₀ := run_invariant (fun _ _ _ _ hs hstep => timersOk_step hs hstep)
    stateOk_init hpre
  have hs₀ : s₀ = ⟨some z₀, ⟨rc, .timers timeNow z₀.timers.cursor⟩ :: frames⟩ := by
    rw [← hz₀, ← hframes]
  have hscan : Scanning timeNow [] (z₀.timers.entries.length + labels.countP addsTimer) z₀.timers
      (.timers timeNow z₀.timers.cursor) (2 * z₀.timers.entries.length + 1) :=
    .timers (nil_append _).symm hfirst fun _ _ _ _ hin => absurd hin not_mem_nil
  have hin : InPass timeNow [] (z₀.timers.entries.length + labels.countP addsTimer) frames z₀ _ s₀ :=
    ⟨orderly_run hpre z₀ hz₀, hok z₀ hz₀, rc, _, hs₀,
      nodup_nil, fun _ h => absurd h not_mem_nil, _, hscan, rfl⟩
  obtain ⟨hnodup, hcalls, hsteps, hadvance⟩ := hin.passRun le_rfl hfair hrun
  refine ⟨fun id => ?_, ?_, hadvance⟩
  · rw [invocations_eq_count]
    exact nodup_iff_count_le_one.mp hnodup id
  · have hwaits : waiting timeNow [] z₀.timers.entries ≤ z₀.timers.entries.length :=
      countP_le_length
    -- as many timers are registered as are called, which are those that are due
    calc labels.countP advances
        ≤ waiting timeNow [] z₀.timers.entries *
            (2 * (z₀.timers.entries.length + labels.countP addsTimer) + 4) +
            (2 * z₀.timers.entries.length + 1) := hsteps
      _ ≤ z₀.timers.entries.length * (4 * z₀.timers.entries.length + 4) +
            (2 * z₀.timers.entries.length + 1) :=
          Nat.add_le_add_right (Nat.mul_le_mul hwaits (by omega)) _
      _ = z₀.timers.entries.length * (4 * z₀.timers.entries.length + 6) + 1 := by ring

instance (timeNow : Int) (h : Nat) (timers : CursorList Timer) :
    Decidable (Passed timeNow h timers) := inferInstanceAs (Decidable (_ ∧ _))

instance (z : Zloop) (pc : Pc) (label : Label) : Decidable (Fair z pc label) :=
  match pc, label with
  | .timers _ _, .go | .timerHandler _ _, .ret _ => .isTrue trivial
  | .timerHandler _ _, .call call => match call with
    | .timer _ _ _ _ => inferInstanceAs (Decidable (_ ∧ _))
    | .timerEnd _ => inferInstanceAs (Decidable (_ = _))
    | .start => .isFalse id
    | .reader _ _ _ | .readerEnd _ | .readerSetTolerant _ | .poller _ _ _ | .pollerEnd _
    | .pollerSetTolerant _ | .ticket _ _ | .ticketReset _ _ | .ticketDelete _ | .setTicketDelay _
    | .setVerbose _ | .setNonstop _ | .setMaxTimers _ | .destroy => .isTrue trivial
  | .timers _ _, .call _ | .timers _ _, .ret _ | .timers _ _, .turn _ | .timerHandler _ _, .go
  | .timerHandler _ _, .turn _ | .guard, _ | .tickets _ _, _ | .ticketHandler _ _, _ | .sweep, _
  | .items _, _ | .itemHandler _, _ | .zombies, _ => .isFalse id

instance (depth : Nat) (s : State) (label : Label) : Decidable (FairStep depth s label) := by
  unfold FairStep
  split <;> infer_instance

def twoTimers : List Label :=
  [.call (.timer 10 0 ⟨1, 1⟩ 0), .call (.timer 10 0 ⟨2, 2⟩ 0), .call .start, .turn (pass 10)]

def passWithTimer : List Label :=
  [.go, .call (.timer 5 1 ⟨3, 3⟩ 10), .ret 0, .go, .go, .ret 0, .go, .go]

theorem timer_pass_ends_two : ∃ before s₀ es s₁, run step init twoTimers = .ok (before, s₀) ∧
    run step s₀ passWithTimer = .ok (es, s₁) ∧ calledIds es = [1, 2] ∧
    (∀ id, invocations id es ≤ 1) ∧ passWithTimer.countP advances ≤ 2 * (4 * 2 + 6) + 1 := by
  have hrun : ∃ before s₀ z₀ es s₁, run step init twoTimers = .ok (before, s₀) ∧
      s₀.loop = some z₀ ∧ s₀.frames = [⟨0, .timers 10 z₀.timers.cursor⟩] ∧
      z₀.timers.cursor = z₀.timers.entries.head?.map Prod.fst ∧ z₀.timers.entries.length = 2 ∧
      checkSteps step (FairStep 0) s₀ passWithTimer = true ∧
      run step s₀ passWithTimer = .ok (es, s₁) ∧ calledIds es = [1, 2] :=
    ⟨_, _, _, _, _, rfl, rfl, rfl, rfl, rfl, by decide, rfl, rfl⟩
  obtain ⟨before, s₀, z₀, es, s₁, hpre, hz₀, hframes, hfirst, htwo, hfair, hpass, hids⟩ := hrun
  obtain ⟨honce, hsteps, -⟩ := timer_pass_ends hpre hz₀ hframes hfirst
    (stepsMeet_of_checkSteps hfair) hpass (hids ▸ by decide)
  rw [htwo] at hsteps
  exact ⟨before, s₀, es, s₁, hpre, hpass, hids, honce, hsteps⟩

/-- A timer without delay whose handler registers another one: the pass comes back to it each time. -/
theorem timer_pass_restarts : ∃ before s₀ es s₁,
    run step init [.call (.timer 0 0 ⟨1, 1⟩ 0), .call .start, .turn (pass 0)] =
      .ok (before, s₀) ∧
    run step s₀ [.go, .call (.timer 0 0 ⟨2, 2⟩ 0), .ret 0, .go,
      .call (.timer 0 0 ⟨2, 2⟩ 0), .ret 0, .go, .call (.timer 0 0 ⟨2, 2⟩ 0), .ret 0] = .ok (es, s₁) ∧
    calledIds es = [1, 1, 1] ∧ s₁.frames = s₀.frames :=
  ⟨_, _, _, _, rfl, rfl, rfl, rfl⟩

end Reactor

end Czmq
