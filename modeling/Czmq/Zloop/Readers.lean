import Czmq.Zloop.Lists

/-! Readers: their registrations, the copies that a pass works with, and all that a step can do with
either. -/

namespace Czmq

open List

namespace Zloop

section
variable {z z' : Zloop}

structure Spared (z z' : Zloop) : Prop where
  readers : z'.readers.entries = z.readers.entries
  readact : z'.readact = z.readact
  pollset : z'.pollset = z.pollset

/-! ## The readers of a socket -/

def onSock (addr : Nat) (reader : Reader) : Bool := reader.sock.addr == addr

def registrations (z : Zloop) (addr : Nat) : List (Nat × Option Reader) :=
  z.readers.entries.filter (cancelled (onSock addr))

lemma registrations_reader (z : Zloop) (addr : Nat) (sock : Sock) (handler : Option Nat)
    (arg : Nat) :
    (z.reader sock handler arg).registrations addr = z.registrations addr ++
      if sock.addr = addr then [(z.fresh, some ⟨sock, handler, arg, 0, false⟩)] else [] := by
  have hentries : (z.reader sock handler arg).readers.entries =
      z.readers.entries ++ [(z.fresh, some ⟨sock, handler, arg, 0, false⟩)] := rfl
  rw [registrations, hentries, registrations]
  by_cases haddr : sock.addr = addr <;> simp [cancelled, onSock, haddr]

lemma registrations_readerEnd {addr : Nat} {sock : Sock} (hz : z.Orderly)
    (h : z.readerEnd sock = .ok z') :
    (z'.registrations addr).Sublist (z.registrations addr) ∧
      (sock.addr = addr → z'.registrations addr = []) ∧ z'.readact = z.readact ∧
      z'.pollset = z.pollset := by
  obtain ⟨readers, he, hentries⟩ := hz.readerEnd sock
  cases he.symm.trans h
  refine ⟨?_, ?_, rfl, rfl⟩
  · show (readers.entries.filter _).Sublist _
    rw [hentries]
    exact filter_sublist.filter _
  · rintro rfl
    show readers.entries.filter _ = []
    rw [hentries, filter_eq_nil_iff]
    intro e he
    have hnot : (!cancelled (onSock sock.addr) e) = true := (mem_filter.mp he).2
    simpa using hnot

lemma registrations_readerSetTolerant {addr : Nat} {sock : Sock} (hne : sock.addr ≠ addr) :
    (z.readerSetTolerant sock).registrations addr = z.registrations addr := by
  obtain ⟨mark, hmark⟩ : ∃ mark : Nat × Option Reader → Nat × Option Reader, mark = fun e =>
      (e.1, e.2.map fun x => if x.sock.addr == sock.addr then { x with tolerant := true } else x) :=
    ⟨_, rfl⟩
  have hkeep : ∀ e, cancelled (onSock addr) (mark e) = cancelled (onSock addr) e ∧
      (cancelled (onSock addr) e = true → mark e = e) := by
    rintro ⟨h, _ | x⟩
    · simp [hmark]
    · by_cases hx : x.sock.addr = sock.addr <;> simp [hmark, cancelled, onSock, hx, hne]
  have hsame : cancelled (onSock addr) ∘ mark = cancelled (onSock addr) :=
    funext fun e => (hkeep e).1
  show (map _ z.readers.entries).filter _ = _
  rw [← hmark, filter_map, hsame, registrations]
  exact (map_congr_left fun e he => (hkeep e).2 (mem_filter.mp he).2).trans (map_id _)

lemma polledSet_eq_self (h : z.needRebuild = false) : z.polledSet = z := by
  rw [polledSet, h]
  rfl

def slotsOf (readact : List (Option Reader)) (addr : Nat) : Nat :=
  readact.countP fun slot => slot.any (onSock addr)

lemma slotsOf_rebuildPollset (z : Zloop) (addr : Nat) :
    slotsOf z.rebuildPollset.readact addr = (z.registrations addr).length := by
  have hpollers : ∀ pollers : List Poller,
      slotsOf (pollers.map fun _ => none) addr = 0 := by
    intro pollers
    rw [slotsOf, countP_map, countP_eq_zero]
    exact fun _ _ => Bool.false_ne_true
  have hitems : slotsOf (z.readers.items.map some) addr = (z.registrations addr).length := by
    rw [slotsOf, countP_map, registrations, ← countP_eq_length_filter, CursorList.items,
      countP_filterMap]
    refine congrArg (countP · z.readers.entries) (funext fun e => ?_)
    obtain ⟨h, x⟩ := e
    cases x <;> rfl
  show slotsOf (z.readers.items.map some ++ z.pollers.items.map fun _ => none) addr = _
  rw [slotsOf, countP_append, ← slotsOf, ← slotsOf, hpollers, hitems, Nat.add_zero]

lemma slot_unique {readact : List (Option Reader)} {addr i j : Nat} {reader reader' : Reader}
    (h : slotsOf readact addr ≤ 1) (hi : readact[i]? = some (some reader))
    (hj : readact[j]? = some (some reader')) (hreader : reader.sock.addr = addr)
    (hreader' : reader'.sock.addr = addr) : i = j := by
  by_contra hne
  wlog hij : i < j generalizing i j reader reader'
  · exact this hj hi hreader' hreader (Ne.symm hne) (by omega)
  have hfirst : 0 < slotsOf (readact.take j) addr := by
    refine countP_pos_iff.mpr ⟨some reader, ?_, by simp [onSock, hreader]⟩
    exact mem_of_getElem? ((getElem?_take_of_lt hij).trans hi)
  have hsecond : 0 < slotsOf (readact.drop j) addr := by
    refine countP_pos_iff.mpr ⟨some reader', ?_, by simp [onSock, hreader']⟩
    refine mem_of_getElem? (i := 0) ?_
    rw [getElem?_drop, Nat.add_zero, hj]
  have hsum : slotsOf readact addr = slotsOf (readact.take j) addr + slotsOf (readact.drop j) addr := by
    conv_lhs => rw [slotsOf, ← take_append_drop j readact, countP_append]
    rfl
  omega

end

end Zloop

namespace Reactor

open Zloop (Spared Orderly Reader Poller PollItem Action Sock)

/-! ## What a step can do with readers -/

inductive ReaderStep (z : Zloop) (f : Frame) (label : Label) : Event → Zloop → Prop where
  | spared {e : Event} {z' : Zloop} (hz : Spared z z') (he : ∀ sock action, e ≠ .reader sock action)
      (hf : polled z f label = none) : ReaderStep z f label e z'
  | polled {e : Event} {z' : Zloop} {revents : List Nat} (hf : polled z f label = some revents)
      (he : ∀ sock action, e ≠ .reader sock action)
      (hreaders : z'.readers.entries = z.readers.entries) (hreadact : z'.readact = z.polledSet.readact)
      (hpollset : z'.pollset = z.polledSet.pollset.mapIdx fun i item =>
        { item with revents := revents.getD i 0 }) : ReaderStep z f label e z'
  | counted {e : Event} {itemNbr errors : Nat} {item : PollItem} {reader : Reader}
      (hf : polled z f label = none) (hitem : z.pollset[itemNbr]? = some item)
      (hslot : z.readact[itemNbr]? = some (some reader)) (hhandler : reader.handler.isSome)
      (herrors : item.revents &&& Zloop.pollerr ≠ 0 → reader.tolerant = false →
        reader.errors = 0 ∧ errors = 1)
      (he : (∀ sock action, e ≠ .reader sock action) ∨ ∃ action, e = .reader reader.sock action) :
      ReaderStep z f label e (withErrors z itemNbr reader errors)
  | cancelled {itemNbr errors : Nat} {item : PollItem} {reader : Reader} {z' : Zloop}
      (hf : polled z f label = none) (hslot : z.readact[itemNbr]? = some (some reader))
      (hend : (withErrors z itemNbr reader errors).readerEnd reader.sock = .ok z') :
      ReaderStep z f label .idle { z' with pollset := z'.pollset.set itemNbr item }
  | poller {e : Event} {itemNbr : Nat} {slot : Option Reader} {z' : Zloop}
      (hf : polled z f label = none) (hslot : z.readact[itemNbr]? = some slot)
      (hhandler : ∀ reader ∈ slot, reader.handler = none)
      (hreaders : z'.readers.entries = z.readers.entries) (hreadact : z'.readact = z.readact)
      (hpollset : ∀ i, i ≠ itemNbr → z'.pollset[i]? = z.pollset[i]?)
      (he : ∀ sock action, e ≠ .reader sock action) : ReaderStep z f label e z'

section
variable {z z' : Zloop} {f : Frame} {label : Label} {e : Event} {rest : List Frame}

lemma spared_afterPoll (he : ∀ sock action, e ≠ .reader sock action) {revents : List Nat}
    (hf : polled z f label = some revents) (hreaders : z'.readers = (z.afterPoll revents).readers)
    (hreadact : z'.readact = (z.afterPoll revents).readact)
    (hpollset : z'.pollset = (z.afterPoll revents).pollset) : ReaderStep z f label e z' := by
  refine .polled hf he ?_ hreadact hpollset
  rw [hreaders]
  show z.polledSet.readers.entries = _
  rw [Zloop.polledSet]
  split <;> rfl

lemma readerStep_frameStep (h : frameStep z f label = .ok (e, z', rest)) :
    ReaderStep z f label e z' := by
  cases frameStep_cases h with
  | stop hf => exact .spared ⟨rfl, rfl, rfl⟩ (by simp) hf
  | retry hf => exact spared_afterPoll (by simp) hf rfl rfl rfl
  | shutDown hf => exact spared_afterPoll (by simp) hf rfl rfl rfl
  | pass hf => exact spared_afterPoll (by simp) hf rfl rfl rfl
  | timerBreak hcalled | timerNext hcalled =>
    obtain ⟨_, -, rfl⟩ := Zloop.timerCalled_eq hcalled
    exact .spared ⟨rfl, rfl, rfl⟩ (by simp) rfl
  | sweep hsweep =>
    obtain ⟨_, rfl⟩ := Zloop.sweepTickets_eq hsweep
    exact .spared ⟨rfl, rfl, rfl⟩ (by simp) rfl
  | reader hitem hslot hhandler herrors hcall =>
    obtain ⟨rfl, he⟩ := callItem_cases hcall
    refine .counted rfl hitem hslot (by rw [hhandler]; rfl) herrors ?_
    rcases he with ⟨rfl, -⟩ | ⟨rfl, -⟩
    · exact .inl (by simp)
    · exact .inr ⟨_, rfl⟩
  | readerEnd hslot hend => exact .cancelled rfl hslot hend
  | poller hslot hhandler hcall =>
    obtain ⟨rfl, he⟩ := callItem_cases hcall
    refine .poller rfl hslot.1 hhandler rfl rfl (fun i _ => rfl) ?_
    rcases he with ⟨rfl, -⟩ | ⟨rfl, -⟩ <;> simp
  | pollerEnd hslot hhandler hend =>
    obtain ⟨_, _, rfl⟩ := Zloop.pollerEnd_eq hend
    exact .poller rfl hslot.1 hhandler rfl rfl (fun i hi => getElem?_set_ne hi.symm) (by simp)
  | zombies hdrain =>
    obtain ⟨_, _, rfl⟩ := Zloop.drainZombies_eq hdrain
    exact .spared ⟨rfl, rfl, rfl⟩ (by simp) rfl
  | timersDone | timerCall | timerSkip | ticketsDone | ticketCall | ticketSkip | ticketBreak
  | ticketNext | itemsDone | itemNext => exact .spared ⟨rfl, rfl, rfl⟩ (by simp) rfl
  | still hf => exact .spared ⟨rfl, rfl, rfl⟩ (by simp) hf

lemma apply_readers {call : Call} (h : apply z call = .ok (e, z')) :
    (∀ sock action, e ≠ .reader sock action) ∧
      (Spared z z' ∨
        (∃ sock handler arg, call = .reader sock handler arg ∧ z' = z.reader sock handler arg) ∨
        (∃ sock, z.readerEnd sock = .ok z') ∨
        ∃ sock, call = .readerSetTolerant sock ∧ z' = z.readerSetTolerant sock) := by
  refine ⟨(apply_cases h).event.2, ?_⟩
  cases apply_cases h with
  | reader => exact .inr (.inl ⟨_, _, _, rfl, rfl⟩)
  | readerEnd h => exact .inr (.inr (.inl ⟨_, h⟩))
  | readerSetTolerant => exact .inr (.inr (.inr ⟨_, rfl, rfl⟩))
  | poller h => obtain rfl | rfl := Zloop.poller_eq h <;> exact .inl ⟨rfl, rfl, rfl⟩
  | pollerEnd h =>
    obtain ⟨_, _, rfl⟩ := Zloop.pollerEnd_eq h
    exact .inl ⟨rfl, rfl, rfl⟩
  | timer h => obtain ⟨-, rfl⟩ | ⟨-, rfl⟩ := Zloop.timer_eq h <;> exact .inl ⟨rfl, rfl, rfl⟩
  | timerEnd h =>
    obtain ⟨-, h⟩ | ⟨-, rfl⟩ := Zloop.timerEnd_eq h
    · obtain ⟨_, rfl⟩ := Zloop.timerRemove_eq h
      exact .inl ⟨rfl, rfl, rfl⟩
    · exact .inl ⟨rfl, rfl, rfl⟩
  | ticket h =>
    obtain ⟨-, rfl⟩ := Zloop.ticket_eq h
    exact .inl ⟨rfl, rfl, rfl⟩
  | ticketReset h | ticketDelete h =>
    obtain ⟨_, -, rfl⟩ := Zloop.changeTicket_eq h
    exact .inl ⟨rfl, rfl, rfl⟩
  | pollerSetTolerant | setTicketDelay | setting => exact .inl ⟨rfl, rfl, rfl⟩

end

end Reactor

end Czmq
