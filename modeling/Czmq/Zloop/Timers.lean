import Czmq.Zloop.Steps
import Mathlib.Order.Interval.Set.Infinite

/-! Timers that end. `zloop_timer_end` leaves the timer in its list while the reactor may run, and a
pass looks at the timers to kill last. The timer is silent if no pass can come to it in between. -/

namespace Czmq

open Zlistx CursorList List Machine

namespace CursorList

variable {I : Type} {a : CursorList I} {h : Nat} {es fs : List (Nat × Option I)} {x : Option I}

@[simp] lemma toFirst_cursor : a.toFirst.cursor = a.entries.head?.map Prod.fst := rfl

@[simp] lemma toNext_entries : a.toNext.entries = a.entries := by
  rw [toNext]
  cases a.cursor <;> rfl

lemma toNext_cursor (hc : a.cursor = some h) (hsplit : a.entries = es ++ (h, x) :: fs) (hn : h ∉ handles es) :
    a.toNext.cursor = fs.head?.map Prod.fst := by
  rw [toNext, hc]
  change (a.after h).head?.map Prod.fst = _
  rw [after_eq hsplit hn]

lemma entries_delete (fn : ListCallbacks I) (a : CursorList I) (h : Nat) :
    (a.step fn (.delete h)).2.entries = a.before h ++ a.after h := (step_delete fn a h).1

lemma before_append_after_sublist (a : CursorList I) (h : Nat) :
    (a.before h ++ a.after h).Sublist a.entries := by
  have hjoin : a.before h ++ a.entries.dropWhile (·.1 != h) = a.entries :=
    takeWhile_append_dropWhile
  calc (a.before h ++ a.after h).Sublist (a.before h ++ a.entries.dropWhile (·.1 != h)) :=
        (Sublist.refl _).append (tail_sublist _)
    _ = a.entries := hjoin

lemma mem_of_itemAt {x : I} (hx : a.itemAt h = some x) : (h, some x) ∈ a.entries := by
  obtain ⟨⟨h', x'⟩, hfind, rfl⟩ := Option.bind_eq_some_iff.mp hx
  have hh : h' = h := by simpa using find?_some hfind
  subst hh
  exact mem_of_find?_eq_some hfind

lemma not_mem_handles
    (hn : (handles a.entries).Nodup) (hsplit : a.entries = es ++ (h, x) :: fs) :
    h ∉ handles es ∧ h ∉ handles fs := by
  rw [hsplit, handles_append, nodup_append] at hn
  exact ⟨fun hh => hn.2.2 _ hh _ (mem_cons_self ..) rfl, (nodup_cons.mp hn.2.1).1⟩

lemma exists_split {x : I} (hn : (handles a.entries).Nodup) (hx : a.itemAt h = some x) :
    ∃ es fs, a.entries = es ++ (h, some x) :: fs ∧ h ∉ handles es ∧
      h ∉ handles fs := by
  obtain ⟨es, fs, hsplit⟩ := append_of_mem (mem_of_itemAt hx)
  exact ⟨es, fs, hsplit, not_mem_handles hn hsplit⟩

lemma delete_entries (fn : ListCallbacks I)
    (hn : (handles a.entries).Nodup) (hsplit : a.entries = es ++ (h, x) :: fs) :
    (a.step fn (.delete h)).2.entries = es ++ fs := by
  have hes := (not_mem_handles hn hsplit).1
  rw [entries_delete, before_eq hsplit hes, after_eq hsplit hes]

lemma handles_append_fresh {fresh : Nat} (hn : (handles es).Nodup)
    (hlt : ∀ h ∈ handles es, h < fresh) :
    (handles (es ++ [(fresh, x)])).Nodup ∧ ∀ h ∈ handles (es ++ [(fresh, x)]), h < fresh + 1 := by
  rw [handles_append, nodup_append]
  refine ⟨⟨hn, nodup_singleton _, fun y hy w hw => ?_⟩, fun y hy => ?_⟩
  · obtain rfl := mem_singleton.mp hw
    exact Nat.ne_of_lt (hlt y hy)
  · rcases mem_append.mp hy with hy | hy
    · exact Nat.lt_succ_of_lt (hlt y hy)
    · obtain rfl := mem_singleton.mp hy
      exact Nat.lt_succ_self _

lemma itemAt_of_mem {e : Nat × Option I} (hn : (handles a.entries).Nodup)
    (he : e ∈ a.entries) : a.itemAt e.1 = e.2 := by
  obtain ⟨es, fs, hsplit⟩ := append_of_mem he
  exact itemAt_eq hsplit (not_mem_handles hn hsplit).1

lemma detach_none {e : Nat × Option I} (he : a.entries = e :: es) :
    (a.detach none).1 = e.2 ∧ (a.detach none).2.entries = es := by
  have htarget : a.target none = some e.1 := by rw [target, he]; rfl
  have hsplit : a.entries = [] ++ (e.1, e.2) :: es := he
  rw [detach, htarget]
  refine ⟨itemAt_eq hsplit not_mem_nil, ?_⟩
  change a.before e.1 ++ a.after e.1 = es
  rw [before_eq hsplit not_mem_nil, after_eq hsplit not_mem_nil, nil_append]

end CursorList

namespace Zloop

def idsOf (entries : List (Nat × Option Timer)) : List Int :=
  entries.filterMap fun e => e.2.map (·.timerId)

lemma idsOf_append (es fs : List (Nat × Option Timer)) : idsOf (es ++ fs) = idsOf es ++ idsOf fs :=
  filterMap_append

def ids (z : Zloop) : List Int := idsOf z.timers.entries

lemma mem_ids {z : Zloop} {id : Int} :
    id ∈ z.ids ↔ ∃ h timer, (h, some timer) ∈ z.timers.entries ∧ timer.timerId = id := by
  simp [ids, idsOf]

structure TimersOk (z : Zloop) : Prop where
  handles : (Zlistx.handles z.timers.entries).Nodup
  fresh : ∀ h ∈ Zlistx.handles z.timers.entries, h < z.fresh
  nodup : z.ids.Nodup
  bound : ∀ id ∈ z.ids, id ≤ z.lastTimerId

structure Quiet (z z' : Zloop) : Prop where
  timers : z'.timers.entries = z.timers.entries
  zombies : z'.zombies.entries = z.zombies.entries
  lastTimerId : z'.lastTimerId = z.lastTimerId
  fresh : z.fresh ≤ z'.fresh

section
variable {z z' : Zloop}

lemma Quiet.ids (h : Quiet z z') : z'.ids = z.ids := by
  rw [Zloop.ids, Zloop.ids, h.timers]

lemma Quiet.timersOk (h : Quiet z z') (hz : TimersOk z) : TimersOk z' := by
  constructor
  · rw [h.timers]; exact hz.handles
  · rw [h.timers]; exact fun x hx => lt_of_lt_of_le (hz.fresh x hx) h.fresh
  · rw [h.ids]; exact hz.nodup
  · rw [h.ids, h.lastTimerId]; exact hz.bound

lemma quiet_afterPoll (revents : List Nat) : Quiet z (z.afterPoll revents) := by
  rw [afterPoll, polledSet]
  split <;> exact ⟨rfl, rfl, rfl, le_rfl⟩

lemma ids_sublist (h : z'.timers.entries.Sublist z.timers.entries) : z'.ids.Sublist z.ids :=
  h.filterMap _

lemma TimersOk.of_sublist (hz : TimersOk z)
    (h : z'.timers.entries.Sublist z.timers.entries) (hlast : z'.lastTimerId = z.lastTimerId)
    (hfresh : z.fresh ≤ z'.fresh) : TimersOk z' := by
  have hhandles : (Zlistx.handles z'.timers.entries).Sublist (Zlistx.handles z.timers.entries) :=
    h.map _
  constructor
  · exact hz.handles.sublist hhandles
  · exact fun x hx => lt_of_lt_of_le (hz.fresh x (hhandles.mem hx)) hfresh
  · exact hz.nodup.sublist (ids_sublist h)
  · exact fun id hid => hlast ▸ hz.bound id ((ids_sublist h).mem hid)

/-! ## What changes the timers -/

variable {action : Action} {clock : Int}

lemma timer_spec {delay times : Nat} {rc : Int}
    (h : z.timer delay times action clock = .ok (rc, z')) :
    rc = -1 ∧ z' = z ∨ rc = z.lastTimerId + 1 ∧ z'.zombies = z.zombies ∧
      z'.lastTimerId = z.lastTimerId + 1 ∧ z'.fresh = z.fresh + 1 ∧
      z'.timers.entries = z.timers.entries ++ [(z.fresh, some
        ⟨z.lastTimerId + 1, action, delay, times, int64 (clock + delay)⟩)] := by
  rcases timer_eq h with ⟨hrc, rfl⟩ | ⟨hrc, rfl⟩
  · exact .inl ⟨hrc, rfl⟩
  · exact .inr ⟨hrc, rfl, rfl, rfl, rfl⟩

lemma TimersOk.timer {delay times : Nat} {rc : Int} (hz : TimersOk z)
    (h : z.timer delay times action clock = .ok (rc, z')) : TimersOk z' := by
  rcases timer_spec h with ⟨-, rfl⟩ | ⟨-, -, hlast, hfresh, hentries⟩
  · exact hz
  · have hids : z'.ids = z.ids ++ [z.lastTimerId + 1] := by
      rw [ids, hentries, idsOf_append]
      rfl
    obtain ⟨hnodup, hlt⟩ := handles_append_fresh hz.handles hz.fresh
    refine ⟨hentries ▸ hnodup, hentries ▸ hfresh ▸ hlt, ?_, ?_⟩
    · rw [hids, nodup_append]
      refine ⟨hz.nodup, nodup_singleton _, fun x hx y hy => ?_⟩
      obtain rfl := mem_singleton.mp hy
      have := hz.bound x hx
      omega
    · rw [hids, hlast]
      intro x hx
      rcases mem_append.mp hx with hx | hx
      · have := hz.bound x hx
        omega
      · exact (mem_singleton.mp hx).le

def without (timerId : Int) (entries : List (Nat × Option Timer)) : List (Nat × Option Timer) :=
  entries.filter fun e => e.2.map (·.timerId) ≠ some timerId

variable {timerId : Int}

lemma without_eq_self {entries : List (Nat × Option Timer)} (h : timerId ∉ idsOf entries) :
    without timerId entries = entries := by
  refine filter_eq_self.mpr fun e he => decide_eq_true fun hid => h ?_
  exact mem_filterMap.mpr ⟨e, he, hid⟩

lemma timerRemove_spec (hz : TimersOk z) (h : z.timerRemove timerId = .ok z') :
    ∃ timers, z' = { z with timers := timers } ∧
      timers.entries = without timerId z.timers.entries := by
  obtain ⟨timers, hloop, h⟩ := bind_eq_ok.mp h
  cases h
  refine ⟨timers, rfl, ?_⟩
  refine Loop.untilDone_invariant (fun t : CursorList Timer => t.entries = z.timers.entries ∧
    ∃ es fs, z.timers.entries = es ++ fs ∧ t.cursor = fs.head?.map Prod.fst ∧
      timerId ∉ idsOf es)
    (fun t : CursorList Timer => t.entries = without timerId z.timers.entries) ?_ ?_ hloop
  swap; · exact ⟨rfl, [], z.timers.entries, rfl, rfl, not_mem_nil⟩
  rintro t ⟨ht, es, fs, hsplit, hc, hes⟩ r hr
  have hids := hz.nodup
  rw [ids, hsplit, idsOf_append] at hids
  cases fs with
  | nil =>
    rw [hc] at hr
    cases hr
    rw [append_nil] at hsplit
    rw [Sum.elim_inr, ht, hsplit, without_eq_self hes]
  | cons e fs =>
    obtain ⟨h, x⟩ := e
    have hn := (not_mem_handles hz.handles hsplit).1
    have hsplit' : t.entries = es ++ (h, x) :: fs := ht.trans hsplit
    have hc' : t.cursor = some h := hc
    simp only [hc', itemAt_eq hsplit' hn] at hr
    cases x with
    | none => cases hr
    | some timer =>
      dsimp only at hr
      split at hr
      · next hid =>
        cases hr
        subst hid
        have hfs := (nodup_cons.mp (nodup_append.mp hids).2.1).1
        rw [Sum.elim_inr, delete_entries owning (ht ▸ hz.handles) hsplit', hsplit, without,
          filter_append, filter_cons_of_neg (by simp)]
        exact congrArg₂ (· ++ ·) (without_eq_self hes).symm (without_eq_self hfs).symm
      · next hid =>
        cases hr
        refine ⟨toNext_entries.trans ht, es ++ [(h, some timer)], fs, ?_, ?_, ?_⟩
        · rw [hsplit, append_assoc, singleton_append]
        · exact toNext_cursor hc' hsplit' hn
        · rw [idsOf_append, mem_append, not_or]
          exact ⟨hes, fun hh => hid (mem_singleton.mp hh).symm⟩

lemma TimersOk.timerRemove (hz : TimersOk z)
    (h : z.timerRemove timerId = .ok z') : TimersOk z' := by
  obtain ⟨timers, rfl, hentries⟩ := timerRemove_spec hz h
  refine hz.of_sublist ?_ rfl le_rfl
  exact hentries ▸ filter_sublist

lemma not_mem_idsOf_without (timerId : Int) (entries : List (Nat × Option Timer)) :
    timerId ∉ idsOf (without timerId entries) := by
  intro h
  obtain ⟨e, he, hid⟩ := mem_filterMap.mp h
  exact of_decide_eq_true (mem_filter.mp he).2 hid

lemma Timer.afterCall_timerId {timer t : Timer} (h : timer.afterCall = some t) :
    t.timerId = timer.timerId := by
  rw [Timer.afterCall] at h
  split at h
  · cases h
  · cases h
    rfl

lemma timerCalled_spec {x : Nat} (hz : TimersOk z) (h : z.timerCalled x = .ok z') :
    ∃ timers timer, z' = { z with timers := timers } ∧ z.timers.itemAt x = some timer ∧
      TimersOk { z with timers := timers } ∧ ∀ e ∈ timers.entries,
        e ∈ z.timers.entries ∧ e.1 ≠ x ∨ ∃ t, timer.afterCall = some t ∧ e = (x, some t) := by
  obtain ⟨timer, htimer, rfl⟩ := timerCalled_eq h
  obtain ⟨es, fs, hsplit, hes, hfs⟩ := exists_split hz.handles htimer
  refine ⟨_, timer, rfl, htimer, ?_⟩
  cases ht : timer.afterCall with
  | none =>
    refine ⟨hz.of_sublist ?_ rfl le_rfl, fun e he => .inl ?_⟩
    · exact entries_delete owning _ x ▸ before_append_after_sublist _ x
    · rw [delete_entries owning hz.handles hsplit] at he
      rw [hsplit]
      rcases mem_append.mp he with he | he
      · exact ⟨mem_append_left _ he, fun hx => hes (hx ▸ mem_handles he)⟩
      · exact ⟨mem_append_right _ (mem_cons_of_mem _ he), fun hx => hfs (hx ▸ mem_handles he)⟩
  | some t =>
    have hhandle : handles (z.timers.set x t).entries = handles z.timers.entries := by
      rw [handles, CursorList.set, map_map]
      refine map_congr_left fun e he => ?_
      by_cases hx : e.1 = x <;> simp [hx]
    have hids : idsOf (z.timers.set x t).entries = idsOf z.timers.entries := by
      rw [idsOf, CursorList.set, filterMap_map]
      refine filterMap_congr fun e he => ?_
      by_cases hx : e.1 = x
      · have hitem := itemAt_of_mem hz.handles he
        rw [hx, htimer] at hitem
        simp [hx, ← hitem, Timer.afterCall_timerId ht]
      · simp [hx]
    refine ⟨⟨?_, ?_, ?_, ?_⟩, fun e he => ?_⟩
    · exact hhandle ▸ hz.handles
    · exact fun h hh => hz.fresh h (hhandle ▸ hh)
    · rw [ids, hids]
      exact hz.nodup
    · rw [ids, hids]
      exact hz.bound
    · obtain ⟨e0, he0, rfl⟩ := mem_map.mp he
      split
      · exact .inr ⟨t, rfl, rfl⟩
      · next hx => exact .inl ⟨he0, hx⟩

lemma drainZombies_spec (hz : TimersOk z) (h : z.drainZombies = .ok z') :
    TimersOk z' ∧ z'.lastTimerId = z.lastTimerId ∧ z'.ids ⊆ z.ids ∧
      ∀ id ∈ z.zombies.items, id ∉ z'.ids := by
  refine Loop.untilDone_invariant (fun y : Zloop => TimersOk y ∧ y.lastTimerId = z.lastTimerId ∧
    y.ids ⊆ z.ids ∧ ∀ id ∈ z.zombies.items, id ∉ y.ids ∨ id ∈ y.zombies.items)
    (fun y : Zloop => TimersOk y ∧ y.lastTimerId = z.lastTimerId ∧ y.ids ⊆ z.ids ∧
      ∀ id ∈ z.zombies.items, id ∉ y.ids) ?_ ?_ h
  swap; · exact ⟨hz, rfl, Subset.refl _, fun id hid => .inr hid⟩
  rintro y ⟨hy, hlast, hsub, hkill⟩ r hr
  rw [toFirst_cursor] at hr
  cases hz : y.zombies.entries with
  | nil =>
    rw [hz] at hr
    cases hr
    refine ⟨{ hy with }, hlast, hsub, fun id hid => ?_⟩
    refine (hkill id hid).resolve_right fun hmem => ?_
    rw [items, hz] at hmem
    cases hmem
  | cons e es =>
    have hdetach := detach_none (a := y.zombies.toFirst) hz
    rw [hz] at hr
    obtain ⟨y', hremove, hr⟩ := bind_eq_ok.mp hr
    cases hr
    have hy' : { y with zombies := (y.zombies.toFirst.detach none).2 }.timerRemove (e.2.getD 0) =
        .ok y' := by
      rw [← hdetach.1]
      exact hremove
    have hok : TimersOk { y with zombies := (y.zombies.toFirst.detach none).2 } :=
      { hy with }
    obtain ⟨timers, rfl, hentries⟩ := timerRemove_spec hok hy'
    have hids : idsOf timers.entries ⊆ y.ids :=
      (hentries ▸ filter_sublist.filterMap _ : (idsOf timers.entries).Sublist y.ids).subset
    refine ⟨hok.timerRemove hy', hlast, Subset.trans hids hsub, fun id hid => ?_⟩
    rcases hkill id hid with hnot | hmem
    · exact .inl fun hm => hnot (hids hm)
    · rw [items, hz] at hmem
      obtain ⟨e', he', hid'⟩ := mem_filterMap.mp hmem
      rcases mem_cons.mp he' with rfl | he'
      · left
        rw [ids, hentries, hid']
        exact not_mem_idsOf_without id _
      · right
        rw [items, hdetach.2]
        exact mem_filterMap.mpr ⟨e', he', hid'⟩

end

end Zloop

namespace Reactor

open Zloop (TimersOk Quiet Reader Poller PollItem Action)

def Waits (id : Int) (z : Zloop) : Pc → Prop
  | .guard => False
  | .timers timeNow _ => ∀ e ∈ z.timers.entries, ∀ timer ∈ e.2, timer.timerId = id →
      timeNow < timer.when
  | .timerHandler timeNow h => ∀ e ∈ z.timers.entries, ∀ timer ∈ e.2, timer.timerId = id →
      if e.1 = h then ∀ t ∈ timer.afterCall, timeNow < t.when else timeNow < timer.when
  | _ => True

def Silent (id : Int) (z : Zloop) (frames : List Frame) : Prop :=
  id ≤ z.lastTimerId ∧
    (id ∉ z.ids ∨ id ∈ z.zombies.items ∧ ∀ f ∈ frames.head?, Waits id z f.pc)

/-- `zloop_start` is not called with timers to kill, a timer that ends has been there and is not due
again in the current pass, and no pass is cut short by a change of the poll set while there are
timers to kill. -/
def Calm (s : State) : Label → Prop
  | .call .start => ∀ z ∈ s.loop, z.zombies.entries = []
  | .call (.timerEnd id) => ∀ z ∈ s.loop, id ≤ z.lastTimerId ∧
      (z.terminated = false → ∀ f ∈ s.frames.head?, Waits id z f.pc)
  | .go => ∀ z ∈ s.loop, ∀ f ∈ s.frames.head?, f.pc = .sweep → z.needRebuild = true →
      z.zombies.entries = []
  | _ => True

section
variable {id : Int} {z z' : Zloop} {f f' : Frame} {frames : List Frame}

lemma waits_congr (h : z'.timers.entries = z.timers.entries) (pc : Pc) :
    Waits id z' pc ↔ Waits id z pc := by
  cases pc <;> simp only [Waits, h]

lemma silent_of_gone (hlast : id ≤ z.lastTimerId) (h : id ∉ z.ids) (frames : List Frame) :
    Silent id z frames := ⟨hlast, .inl h⟩

lemma Silent.quiet {frames' : List Frame} (hs : Silent id z frames) (hq : Quiet z z')
    (hw : (∀ f ∈ frames.head?, Waits id z f.pc) → ∀ f ∈ frames'.head?, Waits id z f.pc) :
    Silent id z' frames' := by
  refine ⟨hq.lastTimerId ▸ hs.1, ?_⟩
  rw [hq.ids, items, hq.zombies]
  rcases hs.2 with h | ⟨hmem, h⟩
  · exact .inl h
  · exact .inr ⟨hmem, fun f hf => (waits_congr hq.timers _).mpr (hw h f hf)⟩

lemma Silent.quiet_gone (hs : Silent id z (f :: frames)) (hq : Quiet z z') (hf : f.pc = .guard)
    (frames' : List Frame) : Silent id z' frames' := by
  rcases hs.2 with h | ⟨-, h⟩
  · exact silent_of_gone (hq.lastTimerId ▸ hs.1) (hq.ids ▸ h) _
  · have := h f rfl
    rw [hf] at this
    exact this.elim

structure Kept (id : Int) (frames : List Frame) (o : Outcome) : Prop where
  timersOk : TimersOk o.2.1
  silent : Silent id o.2.1 (o.2.2 ++ frames)
  event : ∀ action, o.1 ≠ .timer id action

lemma Kept.of_quiet {e : Event} (hz : TimersOk z) (hs : Silent id z (f :: frames))
    (hq : Quiet z z') (he : ∀ action, e ≠ .timer id action)
    (hw : Waits id z f.pc → Waits id z f'.pc) : Kept id frames (e, z', [f']) :=
  ⟨hq.timersOk hz, hs.quiet hq fun h g hg => by cases hg; exact hw (h f rfl), he⟩

variable {rc : Int}

lemma kept_timerCall {timeNow : Int} {x : Nat} {timer : Zloop.Timer} (hz : TimersOk z)
    (hs : Silent id z (⟨rc, .timers timeNow (some x)⟩ :: frames))
    (hat : z.timers.itemAt x = some timer) (hdue : timer.when ≤ timeNow) :
    Kept id frames (.timer timer.timerId timer.action, z, [⟨rc, .timerHandler timeNow x⟩]) := by
  have hmem := mem_of_itemAt hat
  have hid : timer.timerId ≠ id := by
    rintro rfl
    rcases hs.2 with hgone | ⟨-, hwait⟩
    · exact hgone (Zloop.mem_ids.mpr ⟨x, timer, hmem, rfl⟩)
    · exact absurd (hwait _ rfl _ hmem timer rfl rfl) (by omega)
  refine Kept.of_quiet hz hs ⟨rfl, rfl, rfl, le_rfl⟩ ?_ ?_
  · intro action he
    cases he
    exact hid rfl
  · intro hwait e he t ht hte
    split
    · next hx =>
      have hitem := itemAt_of_mem hz.handles he
      rw [hx, hat, Option.mem_def.mp ht] at hitem
      cases hitem
      exact absurd hte hid
    · exact hwait e he t ht hte

lemma Silent.timerCalled {timeNow : Int} {x : Nat} (hz : TimersOk z)
    (hs : Silent id z (⟨rc, .timerHandler timeNow x⟩ :: frames)) (h : z.timerCalled x = .ok z')
    (rc' : Int) : TimersOk z' ∧ Silent id z' (⟨rc', .timers timeNow none⟩ :: frames) := by
  obtain ⟨timers, timer, rfl, htimer, hok, hentries⟩ := Zloop.timerCalled_spec hz h
  have hmem := mem_of_itemAt htimer
  refine ⟨hok, hs.1, ?_⟩
  rcases hs.2 with hgone | ⟨hz, hwait⟩
  · left
    rw [Zloop.mem_ids]
    rintro ⟨x', t, ht, rfl⟩
    rcases hentries _ ht with ⟨hold, -⟩ | ⟨t', ht', he⟩
    · exact hgone (Zloop.mem_ids.mpr ⟨x', t, hold, rfl⟩)
    · cases he
      rw [Zloop.Timer.afterCall_timerId ht'] at hgone
      exact hgone (Zloop.mem_ids.mpr ⟨x, timer, hmem, rfl⟩)
  · refine .inr ⟨hz, fun g hg => ?_⟩
    cases hg
    intro e he t ht hid
    rcases hentries e he with ⟨hold, hne⟩ | ⟨t', ht', rfl⟩
    · have := hwait _ rfl e hold t ht hid
      rwa [if_neg hne] at this
    · cases ht
      have := hwait _ rfl _ hmem timer rfl ((Zloop.Timer.afterCall_timerId ht').symm.trans hid)
      rw [if_pos rfl] at this
      exact this t ht'

lemma kept_sweep (hz : TimersOk z) (hs : Silent id z (f :: frames))
    (hcalm : z.needRebuild = true → z.zombies.entries = []) (h : z.sweepTickets = .ok z') :
    Kept id frames (.idle, z', [⟨rc, if z'.needRebuild then .guard else .items 0⟩]) := by
  obtain ⟨tickets, rfl⟩ := Zloop.sweepTickets_eq h
  have hq : Quiet z { z with tickets := tickets } := ⟨rfl, rfl, rfl, le_rfl⟩
  by_cases hr : z.needRebuild = true
  · refine ⟨hq.timersOk hz, ?_, by simp⟩
    rcases hs.2 with hgone | ⟨hmem, -⟩
    · exact silent_of_gone (hq.lastTimerId ▸ hs.1) (hq.ids ▸ hgone) _
    · rw [items, hcalm hr] at hmem
      cases hmem
  · refine Kept.of_quiet hz hs hq (by simp) fun _ => ?_
    rw [if_neg hr]
    trivial

lemma kept_callItem {y : Zloop} {itemNbr revents : Nat} {e event : Event}
    {rest : List Frame} (hz : TimersOk z) (hs : Silent id z (f :: frames))
    (h : callItem y rc itemNbr revents event = (e, z', rest)) (hq : Quiet z y)
    (he : ∀ action, event ≠ .timer id action) : Kept id frames (e, z', rest) := by
  obtain ⟨rfl, ⟨rfl, rfl⟩ | ⟨rfl, rfl⟩⟩ := callItem_cases h
  · exact Kept.of_quiet hz hs hq (by simp) fun _ => trivial
  · exact Kept.of_quiet hz hs hq he fun _ => trivial

lemma kept_frameStep {label : Label} {o : Outcome} (hz : TimersOk z)
    (hs : Silent id z (f :: frames)) (hcalm : Calm ⟨some z, f :: frames⟩ label)
    (h : frameStep z f label = .ok o) : Kept id frames o := by
  obtain ⟨e, z', rest⟩ := o
  -- from the guard on, the timer has gone
  have hguard : ∀ {y e rest}, f.pc = .guard → (∀ action, e ≠ Event.timer id action) → Quiet z y →
      Kept id frames (e, y, rest) := fun hf he hq => ⟨hq.timersOk hz, hs.quiet_gone hq hf _, he⟩
  cases frameStep_cases h with
  | stop => exact hguard rfl (by simp) ⟨rfl, rfl, rfl, le_rfl⟩
  | retry => exact hguard rfl (by simp) (Zloop.quiet_afterPoll _)
  | @shutDown _ t =>
    have hq : Quiet z (z.afterPoll t.revents) := Zloop.quiet_afterPoll _
    exact hguard rfl (by simp) { hq with }
  | @pass _ t =>
    have hq : Quiet z (z.afterPoll t.revents) := Zloop.quiet_afterPoll _
    exact hguard rfl (by simp) { hq with }
  | timerCall hat hdue => exact kept_timerCall hz hs hat hdue
  | timerSkip =>
    exact Kept.of_quiet hz hs ⟨toNext_entries, rfl, rfl, le_rfl⟩ (by simp) fun hw => hw
  | timerBreak hcalled =>
    obtain ⟨hz1, hs1⟩ := hs.timerCalled hz hcalled (-1)
    exact Kept.of_quiet hz1 hs1 ⟨rfl, rfl, rfl, le_rfl⟩ (by simp) fun _ => trivial
  | timerNext hcalled =>
    obtain ⟨hz1, hs1⟩ := hs.timerCalled hz hcalled 0
    exact Kept.of_quiet hz1 hs1 ⟨toNext_entries, rfl, rfl, le_rfl⟩ (by simp) fun hw => hw
  | sweep hsweep => exact kept_sweep hz hs (hcalm z rfl _ rfl rfl) hsweep
  | reader _ _ _ _ hcall => exact kept_callItem hz hs hcall ⟨rfl, rfl, rfl, le_rfl⟩ (by simp)
  | poller _ _ hcall => exact kept_callItem hz hs hcall ⟨rfl, rfl, rfl, le_rfl⟩ (by simp)
  | readerEnd _ hend =>
    obtain ⟨_, _, rfl⟩ := Zloop.readerEnd_eq hend
    exact Kept.of_quiet hz hs ⟨rfl, rfl, rfl, le_rfl⟩ (by simp) fun _ => trivial
  | pollerEnd _ _ hend =>
    obtain ⟨_, _, rfl⟩ := Zloop.pollerEnd_eq hend
    exact Kept.of_quiet hz hs ⟨rfl, rfl, rfl, le_rfl⟩ (by simp) fun _ => trivial
  | itemNext =>
    refine Kept.of_quiet hz hs ⟨rfl, rfl, rfl, le_rfl⟩ (by simp) fun _ => ?_
    split <;> trivial
  | zombies hdrain =>
    obtain ⟨hok, hlast, hsub, hkill⟩ := Zloop.drainZombies_spec hz hdrain
    refine ⟨hok, silent_of_gone (hlast ▸ hs.1) ?_ _, by simp⟩
    rcases hs.2 with hgone | ⟨hmem, -⟩
    · exact fun h => hgone (hsub h)
    · exact hkill id hmem
  | timersDone | ticketsDone | ticketCall | ticketSkip | ticketBreak | ticketNext | itemsDone =>
    exact Kept.of_quiet hz hs ⟨rfl, rfl, rfl, le_rfl⟩ (by simp) fun _ => trivial
  | still => exact Kept.of_quiet hz hs ⟨rfl, rfl, rfl, le_rfl⟩ (by simp) fun hw => hw

/-! ## Calls -/

lemma apply_timers {call : Call} {e : Event} (h : apply z call = .ok (e, z')) :
    (z'.timers = z.timers ∧ z'.zombies = z.zombies ∧ z'.lastTimerId = z.lastTimerId ∧
        z.fresh ≤ z'.fresh) ∨
      (∃ delay times action clock rc, call = .timer delay times action clock ∧
        z.timer delay times action clock = .ok (rc, z')) ∨
      ∃ timerId, call = .timerEnd timerId ∧ z.timerEnd timerId = .ok z' := by
  cases apply_cases h with
  | timer h => exact .inr (.inl ⟨_, _, _, _, _, rfl, h⟩)
  | timerEnd h => exact .inr (.inr ⟨_, rfl, h⟩)
  | readerEnd h =>
    obtain ⟨_, _, rfl⟩ := Zloop.readerEnd_eq h
    exact .inl ⟨rfl, rfl, rfl, le_rfl⟩
  | pollerEnd h =>
    obtain ⟨_, _, rfl⟩ := Zloop.pollerEnd_eq h
    exact .inl ⟨rfl, rfl, rfl, le_rfl⟩
  | poller h =>
    obtain rfl | rfl := Zloop.poller_eq h
    · exact .inl ⟨rfl, rfl, rfl, le_rfl⟩
    · exact .inl ⟨rfl, rfl, rfl, Nat.le_succ _⟩
  | ticket h =>
    obtain ⟨-, rfl⟩ := Zloop.ticket_eq h
    exact .inl ⟨rfl, rfl, rfl, Nat.le_succ _⟩
  | ticketReset h | ticketDelete h =>
    obtain ⟨_, -, rfl⟩ := Zloop.changeTicket_eq h
    exact .inl ⟨rfl, rfl, rfl, le_rfl⟩
  | reader => exact .inl ⟨rfl, rfl, rfl, Nat.le_succ _⟩
  | readerSetTolerant | pollerSetTolerant | setTicketDelay | setting =>
    exact .inl ⟨rfl, rfl, rfl, le_rfl⟩

lemma apply_spec {call : Call} {e : Event} (h : apply z call = .ok (e, z')) :
    (∀ id action, e ≠ .timer id action) ∧
      (Quiet z z' ∨ (∃ delay times action clock rc,
        z.timer delay times action clock = .ok (rc, z')) ∨
        ∃ timerId, z.timerEnd timerId = .ok z') := by
  refine ⟨(apply_cases h).event.1, ?_⟩
  obtain ⟨htimers, hzombies, hrest⟩ | ⟨_, _, _, _, _, -, h⟩ | ⟨_, -, h⟩ := apply_timers h
  · exact .inl ⟨congrArg _ htimers, congrArg _ hzombies, hrest.1, hrest.2⟩
  · exact .inr (.inl ⟨_, _, _, _, _, h⟩)
  · exact .inr (.inr ⟨_, h⟩)

lemma Waits.mono {pc : Pc} (h : ∀ e ∈ z'.timers.entries, ∀ timer ∈ e.2, timer.timerId = id →
    e ∈ z.timers.entries) (hw : Waits id z pc) : Waits id z' pc := by
  cases pc with
  | timers timeNow x => exact fun e he t ht hte => hw e (h e he t ht hte) t ht hte
  | timerHandler timeNow x => exact fun e he t ht hte => hw e (h e he t ht hte) t ht hte
  | guard => exact hw
  | tickets | ticketHandler | sweep | items | itemHandler | zombies => trivial

lemma Silent.timer {delay times : Nat} {action : Action} {clock : Int}
    (hs : Silent id z frames) (h : z.timer delay times action clock = .ok (rc, z')) :
    Silent id z' frames := by
  rcases Zloop.timer_spec h with ⟨-, rfl⟩ | ⟨-, hzombies, hlast, -, hentries⟩
  · exact hs
  · have hle := hs.1
    have hne : z.lastTimerId + 1 ≠ id := by omega
    refine ⟨by omega, ?_⟩
    rcases hs.2 with hgone | ⟨hmem, hwait⟩
    · left
      rw [Zloop.ids, hentries, Zloop.idsOf_append, mem_append, not_or]
      exact ⟨hgone, fun hm => hne (mem_singleton.mp hm).symm⟩
    · refine .inr ⟨hzombies ▸ hmem, fun f hf => (hwait f hf).mono fun e he t ht hte => ?_⟩
      rw [hentries] at he
      rcases mem_append.mp he with he | he
      · exact he
      · obtain rfl := mem_singleton.mp he
        cases ht
        exact absurd hte hne

lemma timerEnd_spec {timerId : Int} (hz : TimersOk z) (h : z.timerEnd timerId = .ok z') :
    TimersOk z' ∧ z'.timers.entries.Sublist z.timers.entries ∧ z'.lastTimerId = z.lastTimerId ∧
      z.zombies.items ⊆ z'.zombies.items ∧
      (timerId ∉ z'.ids ∨ z.terminated = false ∧ timerId ∈ z'.zombies.items ∧
        z'.timers = z.timers) := by
  obtain ⟨-, h⟩ | ⟨hterm, rfl⟩ := Zloop.timerEnd_eq h
  · have hok := hz.timerRemove h
    obtain ⟨timers, rfl, hentries⟩ := Zloop.timerRemove_spec hz h
    refine ⟨hok, hentries ▸ filter_sublist, rfl, Subset.refl _, .inl ?_⟩
    rw [Zloop.ids, hentries]
    exact Zloop.not_mem_idsOf_without timerId _
  · have hitems : (z.zombies.step borrowing
        (.addEnd z.fresh (some timerId))).2.items = z.zombies.items ++ [timerId] := by
      simp [items, CursorList.step, ListCallbacks.dup, borrowing]
    refine ⟨⟨hz.handles, fun x hx => Nat.lt_succ_of_lt (hz.fresh x hx), hz.nodup, hz.bound⟩,
      Sublist.refl _, rfl, ?_, .inr ⟨hterm, ?_, rfl⟩⟩
    · rw [hitems]
      exact subset_append_left _ _
    · rw [hitems]
      exact mem_append_right _ (mem_singleton_self _)

lemma kept_apply {call : Call} {e : Event} (hz : TimersOk z) (hs : Silent id z frames)
    (h : apply z call = .ok (e, z')) : Kept id frames (e, z', []) := by
  obtain ⟨he, hq | ⟨_, _, _, _, _, htimer⟩ | ⟨_, hend⟩⟩ := apply_spec h
  · exact ⟨hq.timersOk hz, hs.quiet hq fun hw => hw, he id⟩
  · exact ⟨hz.timer htimer, hs.timer htimer, he id⟩
  · obtain ⟨hok, hentries, hlast, hzombies, -⟩ := timerEnd_spec hz hend
    refine ⟨hok, ⟨hlast ▸ hs.1, ?_⟩, he id⟩
    rcases hs.2 with hgone | ⟨hmem, hwait⟩
    · exact .inl fun h => hgone ((Zloop.ids_sublist hentries).mem h)
    · exact .inr ⟨hzombies hmem, fun f hf => (hwait f hf).mono fun e he _ _ _ => hentries.mem he⟩

end

/-! ## Runs -/

def Settled (id : Int) (s : State) : Prop := ∀ z ∈ s.loop, TimersOk z ∧ Silent id z s.frames

lemma settled_step {id : Int} {s s' : State} {label : Label} {e : Event} (hs : Settled id s)
    (hcalm : Calm s label) (h : step s label = .ok (e, s')) :
    Settled id s' ∧ ∀ action, e ≠ .timer id action := by
  obtain ⟨loop, frames⟩ := s
  obtain ⟨z, rfl, ⟨call, rfl, -, hcall⟩ | ⟨f, frames, z', rest, rfl, hframe, rfl, -⟩ | ⟨rfl, rfl⟩⟩ :=
    step_cases h
  · obtain ⟨hz, hsilent⟩ := hs z rfl
    obtain ⟨rfl, rfl, rfl⟩ | ⟨-, rfl, rfl⟩ | ⟨z', happly, rfl⟩ := callStep_cases hcall
    · refine ⟨fun y hy => ?_, by simp⟩
      cases hy
      refine ⟨{ hz with }, silent_of_gone hsilent.1 ?_ _⟩
      rcases hsilent.2 with hgone | ⟨hmem, -⟩
      · exact hgone
      · rw [items, hcalm z rfl] at hmem
        cases hmem
    · exact ⟨fun y hy => (by cases hy), by simp⟩
    · have hkept := kept_apply hz hsilent happly
      refine ⟨fun y hy => ?_, hkept.event⟩
      cases hy
      exact ⟨hkept.timersOk, hkept.silent⟩
  · obtain ⟨hz, hsilent⟩ := hs z rfl
    have hkept := kept_frameStep hz hsilent hcalm hframe
    refine ⟨fun y hy => ?_, hkept.event⟩
    cases hy
    exact ⟨hkept.timersOk, hkept.silent⟩
  · exact ⟨hs, by simp⟩

def StateOk (s : State) : Prop := ∀ z ∈ s.loop, TimersOk z

lemma stateOk_init : StateOk init := by
  intro z hz
  cases hz
  constructor <;> simp [Zloop.new, empty, Zloop.ids, Zloop.idsOf]

lemma stateOk_step {s s' : State} {label : Label} {e : Event} (hs : StateOk s)
    (hcalm : Calm s label) (h : step s label = .ok (e, s')) : StateOk s' := by
  cases hl : s.loop with
  | none => rw [step, hl] at h; cases h
  | some z =>
    obtain ⟨id, hle, hnot⟩ :=
      (Set.Iic_infinite z.lastTimerId).exists_notMem_finset z.ids.toFinset
    have hsettled : Settled id s := fun y hy => by
      cases hl.symm.trans hy
      exact ⟨hs z hl, silent_of_gone hle (by simpa using hnot) _⟩
    exact fun y hy => ((settled_step hsettled hcalm h).1 y hy).1

lemma settled_timerEnd {s s' : State} {id : Int} (hs : StateOk s)
    (hcalm : Calm s (.call (.timerEnd id))) (h : step s (.call (.timerEnd id)) = .ok (.result 0, s')) :
    Settled id s' := by
  obtain ⟨loop, frames⟩ := s
  cases loop with
  | none => cases h
  | some z =>
    rw [step] at h
    dsimp only at h
    split at h
    · obtain ⟨⟨e, z'⟩, happly, h⟩ := bind_eq_ok.mp h
      cases h
      obtain ⟨z1, hend, happly⟩ := bind_eq_ok.mp happly
      cases happly
      intro y hy
      cases hy
      obtain ⟨hle, hwait⟩ := hcalm z rfl
      obtain ⟨hok, -, hlast, -, hgone⟩ := timerEnd_spec (hs z rfl) hend
      refine ⟨hok, hlast ▸ hle, hgone.imp_right fun hkept => ⟨hkept.2.1, fun f hf => ?_⟩⟩
      exact (waits_congr (by rw [hkept.2.2]) _).mpr (hwait hkept.1 f hf)
    · cases h

/-- In every run of calm steps, a timer that was ended is not called any more. -/
theorem not_called_of_timerEnd {pre post : List Label} {id : Int} {before es : List Event}
    {s₀ s₁ s : State}
    (hmeet : StepsMeet step Calm init (pre ++ .call (.timerEnd id) :: post))
    (hpre : run step init pre = .ok (before, s₀))
    (hend : step s₀ (.call (.timerEnd id)) = .ok (.result 0, s₁))
    (hpost : run step s₁ post = .ok (es, s)) (action : Action) :
    Event.timer id action ∉ es := by
  have hok : StateOk s₀ := hmeet.left.run_invariant StateOk
    (fun _ _ _ _ hs hcalm h => stateOk_step hs hcalm h) stateOk_init hpre
  have hrest := hmeet.right hpre
  have hsettled := settled_timerEnd hok hrest.head hend
  have hevents := (hrest.tail hend).run_answers (Settled id) (fun e => ∀ action, e ≠ .timer id action)
    (fun _ _ _ _ hs hcalm h => settled_step hs hcalm h) hsettled hpost
  exact fun hmem => hevents.2 _ hmem action rfl

instance (id : Int) (z : Zloop) (pc : Pc) : Decidable (Waits id z pc) := by
  cases pc <;> unfold Waits <;> infer_instance

instance (s : State) (label : Label) : Decidable (Calm s label) := by
  unfold Calm
  split <;> infer_instance

def pass (timeNow : Int) : Turn := ⟨false, 0, [], false, false, timeNow⟩

def toHandler : List Label := [.call (.timer 10 0 ⟨1, 1⟩ 0), .call .start, .turn (pass 10), .go]

def fromHandler : List Label := [.ret 0, .go, .go, .go, .go, .go, .turn (pass 50), .go]

/-- The timer ends itself. -/
theorem not_called_of_timerEnd_self : ∃ before s₀ s₁ es s,
    run step init toHandler = .ok (before, s₀) ∧
      step s₀ (.call (.timerEnd 1)) = .ok (.result 0, s₁) ∧
      run step s₁ fromHandler = .ok (es, s) ∧ ∀ action, Event.timer 1 action ∉ es := by
  have hmeet : StepsMeet step Calm init
      (toHandler ++ .call (.timerEnd 1) :: fromHandler) :=
    stepsMeet_of_checkSteps (by decide)
  exact ⟨_, _, _, _, _, rfl, rfl, rfl, not_called_of_timerEnd hmeet rfl rfl rfl⟩

/-- Two timers are due in one pass; the first ends the second, which is called all the same. -/
theorem called_after_timerEnd :
    (run step init [.call (.timer 10 0 ⟨1, 1⟩ 0), .call (.timer 10 0 ⟨2, 2⟩ 0), .call .start,
      .turn (pass 10), .go, .call (.timerEnd 2), .ret 0, .go]).map Prod.fst =
      .ok [.result 1, .result 2, .idle, .idle, .timer 1 ⟨1, 1⟩, .result 0, .idle, .timer 2 ⟨2, 2⟩] := by
  decide

end Reactor

end Czmq
