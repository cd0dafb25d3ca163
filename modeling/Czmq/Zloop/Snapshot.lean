import Czmq.Zloop.Readers

/-! The arrays that a pass of the reactor works with are copies, made anew where `need_rebuild` asks
for it. `zloop_reader_set_tolerant` and `zloop_poller_set_tolerant` do not ask. -/

namespace Czmq

open List Machine

namespace Zloop

def Reader.uncounted (reader : Reader) : Reader := { reader with errors := 0 }

def Poller.uncounted (poller : Poller) : Poller := { poller with errors := 0 }

/-- Entry by entry the arrays are the readers and then the pollers, but for counted errors. -/
structure Mirrors (z : Zloop) : Prop where
  pollset : z.pollset.map (fun item => (item.socket, item.fd)) =
    z.readers.items.map (fun reader => (reader.sock.handle, 0)) ++
      z.pollers.items.map fun poller => (poller.item.socket, poller.item.fd)
  readact : z.readact.map (Option.map Reader.uncounted) =
    z.readers.items.map (fun reader => some reader.uncounted) ++ z.pollers.items.map fun _ => none
  pollact : z.pollact.map (Option.map Poller.uncounted) =
    z.readers.items.map (fun _ => none) ++ z.pollers.items.map fun poller => some poller.uncounted

section
variable {z : Zloop} {itemNbr : Nat}

lemma mirrors_afterPoll (h : z.needRebuild = false → z.Mirrors) (revents : List Nat) :
    (z.afterPoll revents).Mirrors := by
  have hset : z.polledSet.Mirrors := by
    cases hrebuild : z.needRebuild with
    | false =>
      rw [polledSet_eq_self hrebuild]
      exact h hrebuild
    | true =>
      rw [polledSet, if_pos hrebuild]
      constructor <;> simp [rebuildPollset, CursorList.items, Function.comp_def]
  refine ⟨Eq.trans (ext_getElem? fun i => ?_) hset.pollset, hset.readact, hset.pollact⟩
  simp [afterPoll]
  rfl

lemma Mirrors.congr (h : z.Mirrors) {readers : CursorList Reader} {pollers : CursorList Poller}
    (hreaders : readers.items = z.readers.items) (hpollers : pollers.items = z.pollers.items)
    (needRebuild : Bool) :
    { z with readers := readers, pollers := pollers, needRebuild := needRebuild }.Mirrors := by
  constructor <;> dsimp only <;> rw [hreaders, hpollers]
  exacts [h.pollset, h.readact, h.pollact]

lemma Mirrors.exists_reader (h : z.Mirrors) {reader : Reader}
    (hslot : z.readact[itemNbr]? = some (some reader)) :
    ∃ reader' ∈ z.readers.items, reader'.uncounted = reader.uncounted := by
  have hmem : some reader.uncounted ∈ z.readact.map (Option.map Reader.uncounted) :=
    mem_map_of_mem (mem_of_getElem? hslot)
  rw [h.readact] at hmem
  simpa using hmem

lemma Mirrors.exists_poller (h : z.Mirrors) {poller : Poller}
    (hslot : z.pollact[itemNbr]? = some (some poller)) :
    ∃ poller' ∈ z.pollers.items, poller'.uncounted = poller.uncounted := by
  have hmem : some poller.uncounted ∈ z.pollact.map (Option.map Poller.uncounted) :=
    mem_map_of_mem (mem_of_getElem? hslot)
  rw [h.pollact] at hmem
  simpa using hmem

variable {I J : Type} {test : I → Bool} {a b : CursorList I}

lemma any_cancelled_iff : a.entries.any (cancelled test) = true ↔ ∃ x ∈ a.items, test x = true := by
  simp only [CursorList.items, any_eq_true, mem_filterMap, cancelled, Option.any_eq_true]
  aesop

lemma items_eq_of_not_any (hentries : b.entries = a.entries.filter fun e => !cancelled test e)
    (hnone : a.entries.any (cancelled test) = false) : b.items = a.items := by
  rw [CursorList.items, hentries, filter_eq_self.mpr, CursorList.items]
  simpa using hnone

lemma map_markMatching_iff {mark : I → I} {f : I → J} :
    (markMatching test mark a).items.map f = a.items.map f ↔
      ∀ x ∈ a.items, test x = true → f (mark x) = f x := by
  have hitems : (markMatching test mark a).items =
      a.items.map fun x => if test x then mark x else x := by
    rw [CursorList.items, CursorList.items, map_filterMap, markMatching, filterMap_map]
    rfl
  rw [hitems, map_map, map_inj_left]
  refine forall₂_congr fun x _ => ?_
  by_cases hx : test x = true <;> simp [hx]

lemma map_set_of_getElem? {f : I → J} {l : List I} {x y : I} (h : l[itemNbr]? = some x)
    (hf : f y = f x) : (l.set itemNbr y).map f = l.map f := by
  obtain ⟨hlt, rfl⟩ := List.getElem?_eq_some_iff.mp h
  rw [map_set, hf, ← getElem_map f, set_getElem_self]
  rwa [length_map]

/-! ## Marking as tolerant -/

lemma Mirrors.readerSetTolerant_iff (h : z.Mirrors) (sock : Sock) :
    (z.readerSetTolerant sock).Mirrors ↔
      ∀ reader ∈ z.readers.items, reader.sock.addr = sock.addr → reader.tolerant = true := by
  constructor
  · intro h' reader hin haddr
    have hsame := append_cancel_right (h'.readact.symm.trans h.readact)
    have hmarked := map_markMatching_iff.mp hsame reader hin (beq_iff_eq.mpr haddr)
    exact (congrArg Reader.tolerant (Option.some.inj hmarked)).symm
  · intro hall
    refine h.congr (map_injective_iff.mpr Function.injective_id
      (map_markMatching_iff.mpr fun reader hin haddr => ?_)) rfl _
    rw [← hall reader hin (beq_iff_eq.mp haddr)]

lemma Mirrors.pollerSetTolerant_iff (h : z.Mirrors) (item : PollItem) :
    (z.pollerSetTolerant item).Mirrors ↔
      ∀ poller ∈ z.pollers.items, pollerMatches item poller = true → poller.tolerant = true := by
  constructor
  · intro h' poller hin hmatches
    have hsame := append_cancel_left (h'.pollact.symm.trans h.pollact)
    have hmarked := map_markMatching_iff.mp hsame poller hin hmatches
    exact (congrArg Poller.tolerant (Option.some.inj hmarked)).symm
  · intro hall
    refine h.congr rfl (map_injective_iff.mpr Function.injective_id
      (map_markMatching_iff.mpr fun poller hin hmatches => ?_)) _
    rw [← hall poller hin hmatches]

end

end Zloop

namespace Reactor

open Zloop (mirrors_afterPoll any_cancelled_iff items_eq_of_not_any map_set_of_getElem?)

section
variable {z z' : Zloop} {f : Frame} {label : Label} {e : Event} {rest : List Frame}

lemma mirrors_frameStep (hz : z.Orderly) (hm : z.needRebuild = false → z.Mirrors)
    (h : frameStep z f label = .ok (e, z', rest)) : z'.needRebuild = false → z'.Mirrors := by
  cases frameStep_cases h with
  | retry | shutDown | pass =>
    have hpoll := mirrors_afterPoll hm
    exact fun _ => { hpoll _ with }
  | timerBreak hcalled | timerNext hcalled =>
    obtain ⟨_, -, rfl⟩ := Zloop.timerCalled_eq hcalled
    exact fun hr => { hm hr with }
  | sweep hsweep =>
    obtain ⟨_, rfl⟩ := Zloop.sweepTickets_eq hsweep
    exact fun hr => { hm hr with }
  | reader _ hslot _ _ hcall =>
    rw [(callItem_cases hcall).1]
    intro hr
    refine { hm hr with readact := Eq.trans ?_ (hm hr).readact }
    exact map_set_of_getElem? hslot rfl
  | @readerEnd _ _ _ reader _ hslot hend =>
    obtain ⟨readers, he, -⟩ := (hz.withSlots ..).readerEnd reader.sock
    cases he.symm.trans hend
    intro hr
    obtain ⟨hr, hnone⟩ := Bool.or_eq_false_iff.mp hr
    obtain ⟨reader', hin, hsame⟩ := (hm hr).exists_reader hslot
    have haddr : reader'.sock.addr = reader.sock.addr := congrArg (·.sock.addr) hsame
    refine absurd (any_cancelled_iff.mpr ⟨reader', hin, ?_⟩) (Bool.eq_false_iff.mp hnone)
    exact beq_iff_eq.mpr haddr
  | poller hslot _ hcall =>
    rw [(callItem_cases hcall).1]
    intro hr
    refine { hm hr with pollact := Eq.trans ?_ (hm hr).pollact }
    exact map_set_of_getElem? hslot.2 rfl
  | @pollerEnd _ _ _ _ poller _ _ hslot _ hend =>
    obtain ⟨pollers, he, -⟩ := (hz.withSlots ..).pollerEnd poller.item
    cases he.symm.trans hend
    intro hr
    obtain ⟨hr, hnone⟩ := Bool.or_eq_false_iff.mp hr
    obtain ⟨poller', hin, hsame⟩ := (hm hr).exists_poller hslot.2
    have hitem : poller'.item = poller.item := congrArg (·.item) hsame
    refine absurd (any_cancelled_iff.mpr ⟨poller', hin, ?_⟩) (Bool.eq_false_iff.mp hnone)
    simp [Zloop.pollerMatches, hitem]
  | zombies hdrain =>
    obtain ⟨_, _, rfl⟩ := Zloop.drainZombies_eq hdrain
    exact fun hr => { hm hr with }
  | stop | timersDone | timerCall | timerSkip | ticketsDone | ticketCall | ticketSkip | ticketBreak
  | ticketNext | itemsDone | itemNext | still => exact fun hr => { hm hr with }

/-- Nothing is marked as tolerant that is not so already, unless the arrays are to be made anew. -/
def Harmless (z : Zloop) : Call → Prop
  | .readerSetTolerant sock => z.needRebuild = false →
      ∀ reader ∈ z.readers.items, reader.sock.addr = sock.addr → reader.tolerant = true
  | .pollerSetTolerant item => z.needRebuild = false →
      ∀ poller ∈ z.pollers.items, Zloop.pollerMatches item poller = true → poller.tolerant = true
  | _ => True

lemma mirrors_apply {call : Call} (hz : z.Orderly) (hm : z.needRebuild = false → z.Mirrors)
    (hcall : Harmless z call) (h : apply z call = .ok (e, z')) :
    z'.needRebuild = false → z'.Mirrors := by
  cases apply_cases h with
  | reader =>
    intro hr
    cases hr
  | readerEnd h =>
    obtain ⟨readers, he, hentries⟩ := hz.readerEnd _
    cases he.symm.trans h
    intro hr
    obtain ⟨hr, hnone⟩ := Bool.or_eq_false_iff.mp hr
    exact (hm hr).congr (items_eq_of_not_any hentries hnone) rfl _
  | readerSetTolerant => exact fun hr => ((hm hr).readerSetTolerant_iff _).mpr (hcall hr)
  | poller h =>
    obtain rfl | rfl := Zloop.poller_eq h
    · exact hm
    · intro hr
      cases hr
  | pollerEnd h =>
    obtain ⟨pollers, he, hentries⟩ := hz.pollerEnd _
    cases he.symm.trans h
    intro hr
    obtain ⟨hr, hnone⟩ := Bool.or_eq_false_iff.mp hr
    exact (hm hr).congr rfl (items_eq_of_not_any hentries hnone) _
  | pollerSetTolerant => exact fun hr => ((hm hr).pollerSetTolerant_iff _).mpr (hcall hr)
  | timer h => obtain ⟨-, rfl⟩ | ⟨-, rfl⟩ := Zloop.timer_eq h <;> exact fun hr => { hm hr with }
  | timerEnd h =>
    obtain ⟨-, h⟩ | ⟨-, rfl⟩ := Zloop.timerEnd_eq h
    · obtain ⟨_, rfl⟩ := Zloop.timerRemove_eq h
      exact fun hr => { hm hr with }
    · exact fun hr => { hm hr with }
  | ticket h =>
    obtain ⟨-, rfl⟩ := Zloop.ticket_eq h
    exact fun hr => { hm hr with }
  | ticketReset h | ticketDelete h =>
    obtain ⟨_, -, rfl⟩ := Zloop.changeTicket_eq h
    exact fun hr => { hm hr with }
  | setTicketDelay | setting => exact fun hr => { hm hr with }

end

def Mirrored (s : State) : Prop := ∀ z ∈ s.loop, z.needRebuild = false → z.Mirrors

def HarmlessStep (s : State) (label : Label) : Prop :=
  ∀ call, label = .call call → atCaller s.frames = true → ∀ z ∈ s.loop, Harmless z call

lemma mirrored_step {s s' : State} {label : Label} {e : Event} (hz : ∀ z ∈ s.loop, z.Orderly)
    (hs : Mirrored s) (hlabel : HarmlessStep s label) (h : step s label = .ok (e, s')) :
    Mirrored s' := by
  obtain ⟨z, hloop, ⟨call, rfl, hcaller, hcall⟩ | ⟨f, frames, z', rest, -, hframe, rfl, -⟩ |
    ⟨-, rfl⟩⟩ := step_cases h
  · obtain ⟨-, -, rfl⟩ | ⟨-, -, rfl⟩ | ⟨z', happly, rfl⟩ := callStep_cases hcall
    · rintro _ ⟨⟩ hr
      exact { hs z hloop hr with }
    · nofun
    · rintro _ ⟨⟩
      exact mirrors_apply (hz z hloop) (hs z hloop) (hlabel call rfl hcaller z hloop) happly
  · rintro _ ⟨⟩
    exact mirrors_frameStep (hz z hloop) (hs z hloop) hframe
  · exact hs

lemma harmless_of_mirrored {s : State} {call : Call} (hs : Mirrored s) (hcaller : atCaller s.frames = true)
    (hnext : ∀ e s', step s (.call call) = .ok (e, s') → Mirrored s') :
    ∀ z ∈ s.loop, Harmless z call := by
  obtain ⟨loop, frames⟩ := s
  rintro z ⟨⟩
  cases call with
  | readerSetTolerant sock =>
    intro hr
    have hstep : step ⟨some z, frames⟩ (.call (.readerSetTolerant sock)) =
        .ok (.idle, ⟨some (z.readerSetTolerant sock), frames⟩) := if_pos hcaller
    exact ((hs z rfl hr).readerSetTolerant_iff sock).mp (hnext _ _ hstep _ rfl hr)
  | pollerSetTolerant item =>
    intro hr
    have hstep : step ⟨some z, frames⟩ (.call (.pollerSetTolerant item)) =
        .ok (.idle, ⟨some (z.pollerSetTolerant item), frames⟩) := if_pos hcaller
    exact ((hs z rfl hr).pollerSetTolerant_iff item).mp (hnext _ _ hstep _ rfl hr)
  | _ => trivial

/-- In all states of a run the arrays, unless they are to be made anew, mirror the lists iff no call
has marked something as tolerant in between. -/
theorem mirrored_iff_harmless (labels : List Label) :
    (∀ pre post, labels = pre ++ post → ∀ es s, run step init pre = .ok (es, s) → Mirrored s) ↔
      StepsMeet step HarmlessStep init labels := by
  constructor
  · rintro h pre label post he es s hrun call rfl hcaller
    refine harmless_of_mirrored (h pre _ he es s hrun) hcaller fun e s' hstep => ?_
    refine h (pre ++ [.call call]) post (by simp [he]) (es ++ [e]) s' ?_
    rw [run_append_ok hrun, run_cons_ok hstep]
    rfl
  · rintro h pre post rfl es s hrun
    have hinit : (∀ z ∈ init.loop, z.Orderly) ∧ Mirrored init := by
      constructor <;> rintro _ ⟨⟩
      · exact Zloop.orderly_new
      · exact fun _ => ⟨rfl, rfl, rfl⟩
    refine (h.left.run_invariant (fun s => (∀ z ∈ s.loop, z.Orderly) ∧ Mirrored s) ?_ hinit hrun).2
    rintro s label e s' ⟨hz, hs⟩ hlabel hstep
    exact ⟨orderly_step hz hstep, mirrored_step hz hs hlabel hstep⟩

/-- A handler that marks its own reader as tolerant: the reactor goes on with the copy that is not. -/
theorem not_mirrored_after_tolerant : ∃ es s, run step init
    [.call (.reader ⟨7, some 70⟩ (some 1) 0), .call .start, .turn ⟨false, 1, [1], false, false, 0⟩,
      .go, .go, .go, .go, .call (.readerSetTolerant ⟨7, some 70⟩)] = .ok (es, s) ∧
    .reader ⟨7, some 70⟩ ⟨1, 0⟩ ∈ es ∧ ¬ Mirrored s := by
  refine ⟨_, _, rfl, by decide, fun h => ?_⟩
  have hslot := congrArg (map (Option.map Zloop.Reader.tolerant)) (h _ rfl rfl).readact
  exact absurd hslot (by decide)

end Reactor

end Czmq
