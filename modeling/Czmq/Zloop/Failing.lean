import Czmq.Zloop.Readers

/-! Readers that fail. A handler has one chance to deal with an error, and the reader is cancelled
at the second. Errors are counted in a copy that is made anew, without errors, whenever a reader or
a poller has come or gone. -/

namespace Czmq.Reactor

open List Machine

open Zloop (Orderly Reader PollItem Action Sock)

/-- There have been `n` registrations of readers for the socket, none tolerant. -/
structure Watched (addr n : Nat) (z : Zloop) : Prop where
  orderly : z.Orderly
  listed : (z.registrations addr).length ≤ n
  slots : Zloop.slotsOf z.readact addr ≤ n
  strict : ∀ e ∈ z.registrations addr, ∀ reader ∈ e.2, reader.tolerant = false
  strictSlot : ∀ reader, some reader ∈ z.readact → reader.sock.addr = addr →
    reader.tolerant = false

section
variable {addr n itemNbr errors : Nat} {z z' : Zloop} {f : Frame} {label : Label} {e : Event}
  {reader : Reader}

lemma Watched.mono {m : Nat} (hz : Watched addr n z) (h : n ≤ m) : Watched addr m z :=
  { hz with listed := hz.listed.trans h, slots := hz.slots.trans h }

lemma Watched.fewer (hz : Watched addr n z) (hz' : z'.Orderly)
    (hsub : (z'.registrations addr).Sublist (z.registrations addr))
    (hreadact : z'.readact = z.readact) : Watched addr n z' := by
  refine ⟨hz', hsub.length_le.trans hz.listed, ?_, fun e he => hz.strict e (hsub.mem he), ?_⟩
  · rw [hreadact]
    exact hz.slots
  · rw [hreadact]
    exact hz.strictSlot

lemma registrations_congr (h : z'.readers.entries = z.readers.entries) :
    z'.registrations addr = z.registrations addr := by
  rw [Zloop.registrations, h, Zloop.registrations]

lemma Watched.polledSet (hz : Watched addr n z) (hz' : z'.Orderly)
    (hreaders : z'.readers.entries = z.readers.entries)
    (hreadact : z'.readact = z.polledSet.readact) : Watched addr n z' := by
  have hsub : (z'.registrations addr).Sublist (z.registrations addr) := by
    rw [registrations_congr hreaders]
  cases hrebuild : z.needRebuild with
  | false =>
    rw [Zloop.polledSet_eq_self hrebuild] at hreadact
    exact hz.fewer hz' hsub hreadact
  | true =>
    rw [Zloop.polledSet, if_pos hrebuild] at hreadact
    refine ⟨hz', hsub.length_le.trans hz.listed, ?_, fun e he => hz.strict e (hsub.mem he), ?_⟩
    · rw [hreadact, Zloop.slotsOf_rebuildPollset]
      exact hz.listed
    · intro reader hin haddr
      rw [hreadact] at hin
      rcases mem_append.mp hin with hin | hin
      · obtain ⟨reader', hitem, heq⟩ := mem_map.mp hin
        cases heq
        obtain ⟨e, he, hreader⟩ := mem_filterMap.mp hitem
        refine hz.strict e (mem_filter.mpr ⟨he, ?_⟩) reader hreader
        rw [Zloop.cancelled, hreader]
        exact beq_iff_eq.mpr haddr
      · obtain ⟨-, -, heq⟩ := mem_map.mp hin
        cases heq

lemma slot_withErrors (hslot : z.readact[itemNbr]? = some (some reader)) {j : Nat}
    {reader' : Reader} (h : (withErrors z itemNbr reader errors).readact[j]? = some (some reader')) :
    ∃ old, z.readact[j]? = some (some old) ∧ old.sock = reader'.sock ∧
      old.handler = reader'.handler ∧ old.tolerant = reader'.tolerant := by
  rw [withErrors, getElem?_set] at h
  split at h
  · next hj =>
    subst hj
    split at h
    · cases h
      exact ⟨reader, hslot, rfl, rfl, rfl⟩
    · cases h
  · exact ⟨reader', h, rfl, rfl, rfl⟩

lemma slotsOf_withErrors (hslot : z.readact[itemNbr]? = some (some reader)) :
    Zloop.slotsOf (withErrors z itemNbr reader errors).readact addr =
      Zloop.slotsOf z.readact addr := by
  obtain ⟨hlt, hget⟩ := List.getElem?_eq_some_iff.mp hslot
  have hmem : some reader ∈ z.readact := mem_of_getElem? hslot
  rw [withErrors, Zloop.slotsOf, countP_set hlt, hget, Zloop.slotsOf]
  by_cases haddr : (some reader).any (Zloop.onSock addr) = true
  · have hpos : 0 < z.readact.countP fun slot => slot.any (Zloop.onSock addr) :=
      countP_pos_iff.mpr ⟨some reader, hmem, haddr⟩
    have hnew : (some { reader with errors := errors }).any (Zloop.onSock addr) = true := haddr
    rw [if_pos haddr, if_pos hnew]
    omega
  · have hnew : ¬(some { reader with errors := errors }).any (Zloop.onSock addr) = true := haddr
    rw [if_neg haddr, if_neg hnew]
    rfl

lemma Watched.withErrors (hz : Watched addr n z)
    (hslot : z.readact[itemNbr]? = some (some reader)) :
    Watched addr n (withErrors z itemNbr reader errors) := by
  refine ⟨hz.orderly.withSlots .., hz.listed, ?_, hz.strict, fun reader' hin haddr => ?_⟩
  · rw [slotsOf_withErrors hslot]
    exact hz.slots
  · obtain ⟨j, hj⟩ := mem_iff_getElem?.mp hin
    obtain ⟨old, hold, hsock, -, htolerant⟩ := slot_withErrors hslot hj
    rw [← htolerant]
    exact hz.strictSlot old (mem_of_getElem? hold) (hsock ▸ haddr)

lemma Watched.readerStep (hz : Watched addr n z) (hz' : z'.Orderly)
    (h : ReaderStep z f label e z') : Watched addr n z' := by
  cases h with
  | spared hspared =>
    refine hz.fewer hz' ?_ hspared.readact
    rw [registrations_congr hspared.readers]
  | polled _ _ hreaders hreadact => exact hz.polledSet hz' hreaders hreadact
  | counted _ _ hslot => exact hz.withErrors hslot
  | @cancelled i m _ reader z1 _ hslot hend =>
    have hw : Watched addr n (Reactor.withErrors z i reader m) := hz.withErrors hslot
    obtain ⟨hsub, -, hreadact, -⟩ := Zloop.registrations_readerEnd hw.orderly hend
    exact hw.fewer hz' hsub hreadact
  | poller _ _ _ hreaders hreadact =>
    refine hz.fewer hz' ?_ hreadact
    rw [registrations_congr hreaders]

def registers (addr : Nat) : Label → Bool
  | .call (.reader sock _ _) => sock.addr == addr
  | _ => false

def tolerates (addr : Nat) : Label → Bool
  | .call (.readerSetTolerant sock) => sock.addr == addr
  | _ => false

lemma watched_apply {call : Call} (hz : Watched addr n z)
    (hstrict : tolerates addr (.call call) = false) (h : apply z call = .ok (e, z')) :
    Watched addr (n + if registers addr (.call call) then 1 else 0) z' := by
  have hz' := orderly_apply hz.orderly h
  have hle : n ≤ n + if registers addr (.call call) then 1 else 0 := Nat.le_add_right ..
  obtain ⟨-, hspared | ⟨sock, handler, arg, rfl, rfl⟩ | ⟨sock, hend⟩ | ⟨sock, rfl, rfl⟩⟩ :=
    apply_readers h
  · refine (hz.fewer hz' ?_ hspared.readact).mono hle
    rw [registrations_congr hspared.readers]
  · have hregister : registers addr (.call (.reader sock handler arg)) = (sock.addr == addr) := rfl
    have hregistrations := z.registrations_reader addr sock handler arg
    rw [hregister]
    refine ⟨hz', ?_, hz.slots.trans hle, fun e he reader hreader => ?_, hz.strictSlot⟩
    · rw [hregistrations, length_append]
      refine Nat.add_le_add hz.listed ?_
      by_cases haddr : sock.addr = addr <;> simp [haddr]
    · rw [hregistrations] at he
      rcases mem_append.mp he with he | he
      · exact hz.strict e he reader hreader
      · split at he
        · cases mem_singleton.mp he
          cases hreader
          rfl
        · cases he
  · obtain ⟨hsub, -, hreadact, -⟩ := Zloop.registrations_readerEnd hz.orderly hend
    exact (hz.fewer hz' hsub hreadact).mono hle
  · have hne : sock.addr ≠ addr := beq_eq_false_iff_ne.mp hstrict
    refine (hz.fewer hz' ?_ rfl).mono hle
    rw [Zloop.registrations_readerSetTolerant hne]

lemma watched_step {s s' : State} (hs : ∀ z ∈ s.loop, Watched addr n z)
    (hstrict : tolerates addr label = false) (h : step s label = .ok (e, s')) :
    ∀ z ∈ s'.loop, Watched addr (n + if registers addr label then 1 else 0) z := by
  have hle : n ≤ n + if registers addr label then 1 else 0 := Nat.le_add_right ..
  have horderly := orderly_step (fun z hz => (hs z hz).orderly) h
  refine step_rule h (fun z hz _ => (hs z hz).mono hle) (fun z hz hz' _ => ?_)
    (fun z hz z' _ call hlabel happly => ?_) fun z hz z' hz' f rest _ _ hframe => ?_
  · exact ((hs z hz).fewer (horderly _ hz') (Sublist.refl _) rfl).mono hle
  · subst hlabel
    exact watched_apply (hs z hz) hstrict happly
  · exact ((hs z hz).readerStep (horderly _ hz') (readerStep_frameStep hframe)).mono hle

lemma watched_init (addr : Nat) : ∀ z ∈ init.loop, Watched addr 0 z := by
  intro z hz
  cases hz
  exact ⟨Zloop.orderly_new, le_rfl, le_rfl, by simp [Zloop.registrations, Zloop.new, CursorList.empty],
    by simp [Zloop.new]⟩

lemma watched_run {labels : List Label} {es : List Event} {s s' : State}
    (hs : ∀ z ∈ s.loop, Watched addr n z) (hstrict : ∀ label ∈ labels, tolerates addr label = false)
    (h : run step s labels = .ok (es, s')) :
    ∀ z ∈ s'.loop, Watched addr (n + labels.countP (registers addr)) z := by
  induction labels generalizing n s es with
  | nil =>
    cases h
    exact hs
  | cons label labels ih =>
    obtain ⟨e, s1, es', hstep, hrest, rfl⟩ := run_cons_eq_ok h
    have hs1 := watched_step hs (hstrict label (mem_cons_self ..)) hstep
    have hrun := ih hs1 (fun l hl => hstrict l (mem_cons_of_mem _ hl)) hrest
    rw [countP_cons, Nat.add_comm (countP _ _), ← Nat.add_assoc]
    exact hrun

end

/-! ## One chance -/

def isReader (addr : Nat) : Event → Bool
  | .reader sock _ => sock.addr == addr
  | _ => false

def chances (addr : Nat) (es : List Event) : Nat := es.countP (isReader addr)

variable {addr : Nat}

lemma chances_eq_zero {e : Event} (h : ∀ sock action, e ≠ .reader sock action) :
    chances addr [e] = 0 := by
  cases e with
  | reader sock action => exact absurd rfl (h sock action)
  | idle | timer | ticket | poller | started | result | handle => rfl

/-- The socket has failed since the poll with which counting begins. While the reader is registered,
its handler has been called once at most, and then the error is counted. -/
structure OneChance (addr n k : Nat) (z : Zloop) : Prop where
  watched : Watched addr n z
  before : n = 0 → k = 0
  failing : z.registrations addr ≠ [] → ∀ (i : Nat) (item : PollItem) (reader : Reader),
    z.pollset[i]? = some item → z.readact[i]? = some (some reader) → reader.sock.addr = addr →
    reader.handler.isSome → item.revents &&& Zloop.pollerr ≠ 0
  counted : z.registrations addr ≠ [] → k = 0 ∨ k = 1 ∧ ∃ reader, some reader ∈ z.readact ∧
    reader.sock.addr = addr ∧ reader.errors ≠ 0

section
variable {addr n k : Nat} {z z' : Zloop} {f : Frame} {label : Label} {e : Event}

lemma OneChance.mono {m : Nat} (hz : OneChance addr n k z) (h : n ≤ m) : OneChance addr m k z :=
  { hz with
    watched := hz.watched.mono h
    before := fun hm => hz.before (Nat.le_zero.mp (hm ▸ h)) }

lemma OneChance.fewer (hz : OneChance addr n k z) (hw : Watched addr n z')
    (hsub : (z'.registrations addr).Sublist (z.registrations addr))
    (hreadact : z'.readact = z.readact) (hpollset : z'.pollset = z.pollset) :
    OneChance addr n k z' := by
  have hne : z'.registrations addr ≠ [] → z.registrations addr ≠ [] := by
    intro h' h
    rw [h] at hsub
    exact h' (sublist_nil.mp hsub)
  refine ⟨hw, hz.before, fun h => ?_, fun h => ?_⟩
  · rw [hreadact, hpollset]
    exact hz.failing (hne h)
  · rw [hreadact]
    exact hz.counted (hne h)

def ReportsError (addr : Nat) (z : Zloop) (revents : List Nat) : Prop :=
  ∀ i < z.polledSet.readact.length, ∀ reader ∈ z.polledSet.readact.getD i none,
    reader.sock.addr = addr → revents.getD i 0 &&& Zloop.pollerr ≠ 0

variable {revents : List Nat} {reader : Reader}

lemma ReportsError.failing (h : ReportsError addr z revents)
    (hreadact : z'.readact = z.polledSet.readact)
    (hpollset : z'.pollset = z.polledSet.pollset.mapIdx fun i item =>
      { item with revents := revents.getD i 0 }) {i : Nat} {item : PollItem}
    (hitem : z'.pollset[i]? = some item) (hslot : z'.readact[i]? = some (some reader))
    (haddr : reader.sock.addr = addr) : item.revents &&& Zloop.pollerr ≠ 0 := by
  rw [hpollset, getElem?_mapIdx] at hitem
  obtain ⟨old, -, rfl⟩ := Option.map_eq_some_iff.mp hitem
  rw [hreadact] at hslot
  refine h i (List.getElem?_eq_some_iff.mp hslot).1 reader ?_ haddr
  rw [getD_eq_getElem?_getD, hslot]
  rfl

/-- While the reader is registered, the poll set is not made anew after its first error. -/
def CountKept (addr : Nat) (z : Zloop) : Prop :=
  z.needRebuild = true → z.registrations addr ≠ [] →
    ∀ slot ∈ z.readact, ∀ reader ∈ slot, reader.sock.addr = addr → reader.errors = 0

lemma OneChance.polled (hz : OneChance addr n k z) (hw : Watched addr n z')
    (hreaders : z'.readers.entries = z.readers.entries)
    (hreadact : z'.readact = z.polledSet.readact)
    (hpollset : z'.pollset = z.polledSet.pollset.mapIdx fun i item =>
      { item with revents := revents.getD i 0 })
    (hreport : ReportsError addr z revents) (hkept : CountKept addr z) : OneChance addr n k z' := by
  refine ⟨hw, hz.before, fun _ i item reader hitem hslot haddr _ => ?_, fun h => ?_⟩
  · exact hreport.failing hreadact hpollset hitem hslot haddr
  · rw [registrations_congr hreaders] at h
    rcases hz.counted h with hk | ⟨hk, reader, hin, haddr, herrors⟩
    · exact .inl hk
    · cases hrebuild : z.needRebuild with
      | true => exact absurd (hkept hrebuild h _ hin reader rfl haddr) herrors
      | false =>
        rw [Zloop.polledSet_eq_self hrebuild] at hreadact
        exact .inr ⟨hk, reader, hreadact ▸ hin, haddr, herrors⟩

lemma OneChance.other {i errors : Nat} (hz : OneChance addr n k z)
    (hslot : z.readact[i]? = some (some reader)) (hne : reader.sock.addr ≠ addr) :
    OneChance addr n k (withErrors z i reader errors) := by
  refine ⟨hz.watched.withErrors hslot, hz.before, ?_, fun h => ?_⟩
  · intro h j item reader' hitem hslot' haddr hhandler
    obtain ⟨old, hold, hsock, hhandlers, -⟩ := slot_withErrors hslot hslot'
    exact hz.failing h j item old hitem hold (hsock ▸ haddr) (hhandlers ▸ hhandler)
  · refine (hz.counted h).imp_right fun ⟨hk, counted, hin, haddr, herrors⟩ => ?_
    obtain ⟨j, hj⟩ := mem_iff_getElem?.mp hin
    have hij : i ≠ j := by
      rintro rfl
      cases hslot.symm.trans hj
      exact hne haddr
    refine ⟨hk, counted, mem_of_getElem? (i := j) ?_, haddr, herrors⟩
    rw [withErrors, getElem?_set_ne hij]
    exact hj

lemma OneChance.own {i errors : Nat} {item : PollItem}
    (hz : OneChance addr n k z) (hn : n ≤ 1) (hitem : z.pollset[i]? = some item)
    (hslot : z.readact[i]? = some (some reader)) (hhandler : reader.handler.isSome)
    (herrors : item.revents &&& Zloop.pollerr ≠ 0 → reader.tolerant = false →
      reader.errors = 0 ∧ errors = 1)
    (haddr : reader.sock.addr = addr) {m : Nat} (hm : m ≤ 1) :
    OneChance addr n (k + m) (withErrors z i reader errors) := by
  have hin : some reader ∈ z.readact := mem_of_getElem? hslot
  have hpos : 0 < n := by
    refine lt_of_lt_of_le (countP_pos_iff.mpr ⟨some reader, hin, ?_⟩) hz.watched.slots
    exact beq_iff_eq.mpr haddr
  refine ⟨hz.watched.withErrors hslot, fun h => absurd h hpos.ne', ?_, fun h => ?_⟩
  · intro h j item reader' hitem hslot' haddr hhandler
    obtain ⟨old, hold, hsock, hhandlers, -⟩ := slot_withErrors hslot hslot'
    exact hz.failing h j item old hitem hold (hsock ▸ haddr) (hhandlers ▸ hhandler)
  · obtain ⟨hzero, rfl⟩ := herrors (hz.failing h i item reader hitem hslot haddr hhandler)
      (hz.watched.strictSlot reader hin haddr)
    -- the slot is the only one, so no error has been counted
    have hk : k = 0 := by
      refine (hz.counted h).resolve_right fun ⟨_, counted, hcounted, haddr', herr⟩ => ?_
      obtain ⟨j, hj⟩ := mem_iff_getElem?.mp hcounted
      obtain rfl := Zloop.slot_unique (hz.watched.slots.trans hn) hslot hj haddr haddr'
      cases hslot.symm.trans hj
      exact herr hzero
    have hlt : i < z.readact.length := (List.getElem?_eq_some_iff.mp hslot).1
    rcases Nat.le_one_iff_eq_zero_or_eq_one.mp hm with rfl | rfl
    · exact .inl hk
    · refine .inr ⟨by omega, { reader with errors := 1 }, mem_set hlt _, haddr, one_ne_zero⟩

lemma OneChance.readerStep (hz : OneChance addr n k z) (hn : n ≤ 1) (hz' : z'.Orderly)
    (hreport : ∀ revents ∈ Reactor.polled z f label, ReportsError addr z revents ∧ CountKept addr z)
    (h : ReaderStep z f label e z') : OneChance addr n (k + chances addr [e]) z' := by
  have hw := hz.watched.readerStep hz' h
  cases h with
  | spared hspared he =>
    rw [chances_eq_zero he]
    refine hz.fewer hw ?_ hspared.readact hspared.pollset
    rw [registrations_congr hspared.readers]
  | polled hf he hreaders hreadact hpollset =>
    rw [chances_eq_zero he]
    exact hz.polled hw hreaders hreadact hpollset (hreport _ hf).1 (hreport _ hf).2
  | @counted _ i errors item reader _ hitem hslot hhandler herrors he =>
    by_cases haddr : reader.sock.addr = addr
    · refine hz.own hn hitem hslot hhandler herrors haddr ?_
      exact countP_le_length
    · have hnone : chances addr [e] = 0 := by
        rcases he with he | ⟨action, rfl⟩
        · exact chances_eq_zero he
        · simp [chances, isReader, haddr]
      rw [hnone]
      exact hz.other hslot haddr
  | @cancelled i errors item reader z1 _ hslot hend =>
    have hws : Watched addr n (withErrors z i reader errors) := hz.watched.withErrors hslot
    obtain ⟨hsub, hgone, hreadact, hpollset⟩ := Zloop.registrations_readerEnd hws.orderly hend
    by_cases haddr : reader.sock.addr = addr
    · exact ⟨hw, hz.before, fun h => absurd (hgone haddr) h, fun h => absurd (hgone haddr) h⟩
    · have hz1 : OneChance addr n k z1 :=
        (hz.other hslot haddr).fewer (hws.fewer { hz' with } hsub hreadact)
          hsub hreadact hpollset
      refine ⟨hw, hz.before, fun h j item' reader' hitem hslot' haddr' => ?_, hz1.counted⟩
      have hij : i ≠ j := by
        rintro rfl
        obtain ⟨old, hold, hsock, -⟩ := slot_withErrors hslot (hreadact ▸ hslot')
        cases hslot.symm.trans hold
        exact haddr (hsock ▸ haddr')
      refine hz1.failing h j item' reader' ?_ hslot' haddr'
      rw [← hitem]
      exact (getElem?_set_ne hij).symm
  | @poller _ i slot _ _ hslot hhandler hreaders hreadact hpollset he =>
    rw [chances_eq_zero he]
    refine ⟨hw, hz.before, fun h j item reader hitem hslot' haddr hsome => ?_, fun h => ?_⟩
    · rw [registrations_congr hreaders] at h
      rw [hreadact] at hslot'
      -- the slot that has changed is not one of a reader with a handler
      have hij : j ≠ i := by
        rintro rfl
        cases hslot.symm.trans hslot'
        rw [hhandler reader rfl] at hsome
        cases hsome
      exact hz.failing h j item reader (hpollset j hij ▸ hitem) hslot' haddr hsome
    · rw [registrations_congr hreaders] at h
      rw [hreadact]
      exact hz.counted h

lemma OneChance.apply {call : Call} (hz : OneChance addr n k z)
    (hn : n + (if registers addr (.call call) then 1 else 0) ≤ 1)
    (hstrict : tolerates addr (.call call) = false) (h : apply z call = .ok (e, z')) :
    OneChance addr (n + if registers addr (.call call) then 1 else 0) k z' := by
  have hw := watched_apply hz.watched hstrict h
  obtain ⟨-, hreaders⟩ := apply_readers h
  cases hreg : registers addr (.call call) with
  | true =>
    -- the first reader of the socket has no slot yet
    rw [hreg] at hn hw
    have hzero : n = 0 := Nat.le_zero.mp (Nat.le_of_succ_le_succ hn)
    obtain ⟨sock, handler, arg, rfl, rfl⟩ : ∃ sock handler arg, call = .reader sock handler arg ∧
        z' = z.reader sock handler arg := by
      cases call with
      | reader sock handler arg =>
        cases h
        exact ⟨sock, handler, arg, rfl, rfl⟩
      | _ => cases hreg
    refine ⟨hw, fun h => absurd h (by simp), fun _ i item reader _ hslot haddr _ => ?_, fun _ => ?_⟩
    · have hpos : 0 < Zloop.slotsOf z.readact addr :=
        countP_pos_iff.mpr ⟨_, mem_of_getElem? hslot, beq_iff_eq.mpr haddr⟩
      have hslots := hz.watched.slots
      omega
    · exact .inl (hz.before hzero)
  | false =>
    rw [hreg] at hw
    rcases hreaders with hspared | ⟨sock, handler, arg, rfl, rfl⟩ | ⟨sock, hend⟩ | ⟨sock, rfl, rfl⟩
    · refine hz.fewer hw ?_ hspared.readact hspared.pollset
      rw [registrations_congr hspared.readers]
    · have hne : sock.addr ≠ addr := beq_eq_false_iff_ne.mp hreg
      refine hz.fewer hw ?_ rfl rfl
      rw [Zloop.registrations_reader, if_neg hne, append_nil]
    · obtain ⟨hsub, -, hreadact, hpollset⟩ :=
        Zloop.registrations_readerEnd hz.watched.orderly hend
      exact hz.fewer hw hsub hreadact hpollset
    · refine hz.fewer hw ?_ rfl rfl
      rw [Zloop.registrations_readerSetTolerant (beq_eq_false_iff_ne.mp hstrict)]

end

def Polls (s : State) (label : Label) : Prop :=
  ∃ z f revents, s.loop = some z ∧ s.frames.head? = some f ∧ polled z f label = some revents

def Fails (addr : Nat) (s : State) (label : Label) : Prop :=
  ∀ z ∈ s.loop, ∀ f ∈ s.frames.head?, ∀ revents ∈ polled z f label, ReportsError addr z revents

def Remembers (addr : Nat) (s : State) (label : Label) : Prop :=
  ∀ z ∈ s.loop, ∀ f ∈ s.frames.head?, ∀ _revents ∈ polled z f label, CountKept addr z

lemma oneChance_step {n k : Nat} {s s' : State} {label : Label} {e : Event}
    (hs : ∀ z ∈ s.loop, OneChance addr n k z)
    (hn : n + (if registers addr label then 1 else 0) ≤ 1) (hstrict : tolerates addr label = false)
    (hfails : Fails addr s label) (hkept : Remembers addr s label)
    (h : step s label = .ok (e, s')) : ∀ z ∈ s'.loop,
      OneChance addr (n + if registers addr label then 1 else 0) (k + chances addr [e]) z := by
  have hwatched := watched_step (fun z hz => (hs z hz).watched) hstrict h
  have hle : n ≤ n + if registers addr label then 1 else 0 := Nat.le_add_right ..
  refine step_rule h (fun z hz he => ?_) (fun z hz hz' he => ?_)
    (fun z hz z' _ call hlabel happly => ?_) fun z hz z' hz' f rest hhead hlabel hframe => ?_
  · subst he
    exact (hs z hz).mono hle
  · subst he
    exact ((hs z hz).mono hle).fewer (hwatched _ hz') (Sublist.refl _) rfl rfl
  · subst hlabel
    rw [chances_eq_zero (apply_readers happly).1]
    exact (hs z hz).apply hn hstrict happly
  · have hreg : registers addr label = false := by
      cases label with
      | call call => exact absurd rfl (hlabel call)
      | ret | turn | go => rfl
    rw [hreg] at hn hwatched ⊢
    exact (hs z hz).readerStep hn (hwatched _ hz').orderly (fun revents hrev =>
      ⟨hfails z hz f hhead revents hrev, hkept z hz f hhead revents hrev⟩) (readerStep_frameStep hframe)

lemma oneChance_run {n k : Nat} {labels : List Label} {s s' : State} {es : List Event}
    (hs : ∀ z ∈ s.loop, OneChance addr n k z) (honce : n + labels.countP (registers addr) ≤ 1)
    (hstrict : ∀ label ∈ labels, tolerates addr label = false)
    (hfails : StepsMeet step (Fails addr) s labels)
    (hkept : StepsMeet step (Remembers addr) s labels)
    (h : run step s labels = .ok (es, s')) : ∀ z ∈ s'.loop,
      OneChance addr (n + labels.countP (registers addr)) (k + chances addr es) z := by
  induction labels generalizing n k s es with
  | nil =>
    cases h
    exact hs
  | cons label labels ih =>
    obtain ⟨e, s1, es', hstep, hrest, rfl⟩ := run_cons_eq_ok h
    rw [countP_cons, Nat.add_comm (countP _ _), ← Nat.add_assoc] at honce ⊢
    have hs1 := oneChance_step hs (Nat.le_of_add_right_le honce)
      (hstrict label (mem_cons_self ..)) hfails.head hkept.head hstep
    have hrun := ih hs1 honce (fun l hl => hstrict l (mem_cons_of_mem _ hl))
      (hfails.tail hstep) (hkept.tail hstep) hrest
    have hsum : chances addr (e :: es') = chances addr [e] + chances addr es' :=
      @countP_append _ _ [e] _
    rw [hsum, ← Nat.add_assoc]
    exact hrun

lemma oneChance_poll {n : Nat} {s s' : State} {poll : Label} {e : Event}
    (hs : ∀ z ∈ s.loop, Watched addr n z) (hpolls : Polls s poll) (hfails : Fails addr s poll)
    (h : step s poll = .ok (e, s')) :
    registers addr poll = false ∧ ∀ z ∈ s'.loop, OneChance addr n 0 z := by
  obtain ⟨z, f, revents, hz, hhead, hrevents⟩ := hpolls
  obtain ⟨loop, frames⟩ := s
  cases hz
  have hreport := hfails z rfl f hhead revents hrevents
  have horderly := orderly_step (fun y hy => (hs y hy).orderly) h
  cases frames with
  | nil => cases hhead
  | cons g frames =>
    cases hhead
    cases poll with
    | call call | ret rc | go => simp [polled] at hrevents
    | turn t =>
      refine ⟨rfl, fun y hy => ?_⟩
      obtain ⟨⟨e1, z', rest⟩, hframe, h⟩ := bind_eq_ok.mp h
      cases h
      cases hy
      have hsteps := readerStep_frameStep hframe
      have hw := (hs z rfl).readerStep (horderly _ rfl) hsteps
      cases hsteps with
      | polled hf' _ _ hreadact hpollset =>
        cases hrevents.symm.trans hf'
        refine ⟨hw, fun _ => rfl, fun _ i item reader hitem hslot haddr _ => ?_, fun _ => .inl rfl⟩
        exact hreport.failing hreadact hpollset hitem hslot haddr
      | spared _ _ hf' | counted hf' | cancelled hf' | poller hf' => cases hrevents.symm.trans hf'

/-- In every run in which a reader is registered once, never tolerant, and fails in a poll and all
later ones, its handler is called once at most after that poll while it is registered, if the poll
set is not made anew with an error of the reader counted. -/
theorem one_chance {addr : Nat} {pre post : List Label} {poll : Label} {before es : List Event}
    {e : Event} {s₀ s₁ s : State}
    (honce : (pre ++ poll :: post).countP (registers addr) ≤ 1)
    (hstrict : ∀ label ∈ pre ++ poll :: post, tolerates addr label = false)
    (hpre : run step init pre = .ok (before, s₀))
    (hpolls : Polls s₀ poll) (hpoll : step s₀ poll = .ok (e, s₁))
    (hfails : StepsMeet step (Fails addr) s₀ (poll :: post))
    (hkept : StepsMeet step (Remembers addr) s₁ post)
    (hpost : run step s₁ post = .ok (es, s)) :
    ∀ z ∈ s.loop, (∃ reader ∈ z.readers.items, reader.sock.addr = addr) → chances addr es ≤ 1 := by
  rintro z hz ⟨reader, hitem, haddr⟩
  have hbegin := watched_run (watched_init addr)
    (fun label hl => hstrict label (mem_append_left _ hl)) hpre
  obtain ⟨hreg, hs₁⟩ := oneChance_poll hbegin hpolls hfails.head hpoll
  rw [countP_append, countP_cons, hreg] at honce
  have hrun := oneChance_run hs₁ (by simpa using honce)
    (fun label hl => hstrict label (mem_append_right _ (mem_cons_of_mem _ hl)))
    (hfails.tail hpoll) hkept hpost z hz
  have hlisted : z.registrations addr ≠ [] := by
    obtain ⟨entry, hentry, hreader⟩ := mem_filterMap.mp hitem
    refine ne_nil_of_mem (mem_filter.mpr ⟨hentry, ?_⟩)
    rw [Zloop.cancelled, hreader]
    exact beq_iff_eq.mpr haddr
  rcases hrun.counted hlisted with hk | ⟨hk, -⟩ <;> omega

instance (addr : Nat) (z : Zloop) (revents : List Nat) : Decidable (ReportsError addr z revents) := by
  unfold ReportsError
  infer_instance

instance (addr : Nat) (z : Zloop) : Decidable (CountKept addr z) := by
  unfold CountKept
  infer_instance

instance (addr : Nat) (s : State) (label : Label) : Decidable (Fails addr s label) := by
  unfold Fails
  infer_instance

instance (addr : Nat) (s : State) (label : Label) : Decidable (Remembers addr s label) := by
  unfold Remembers
  infer_instance

def twoReaders : List Label :=
  [.call (.reader ⟨7, some 70⟩ (some 1) 0), .call (.reader ⟨8, some 80⟩ (some 2) 0), .call .start]

/-- and a poll that says that the first has failed and the second, perhaps, is ready. -/
def failingPoll (ready : Nat) : Label := .turn ⟨false, 1, [Zloop.pollerr, ready], false, false, 0⟩

/-- The first reader's handler has been called; after the next poll it is cancelled. -/
def secondError : List Label :=
  [.go, .go, .go, .go, .ret 0, .go, .go, .go, failingPoll 0, .go, .go, .go]

theorem one_chance_once : ∃ before s₀ e s₁ es z frames,
    run step init twoReaders = .ok (before, s₀) ∧
      step s₀ (failingPoll 0) = .ok (e, s₁) ∧
      run step s₁ secondError = .ok (es, ⟨some z, frames⟩) ∧
      (∃ reader ∈ z.readers.items, reader.sock.addr = 7) ∧ chances 7 es ≤ 1 := by
  have honce : (twoReaders ++ failingPoll 0 :: secondError).countP (registers 7) ≤ 1 := by decide
  have hfails : StepsMeet step (Fails 7) init
      (twoReaders ++ failingPoll 0 :: secondError) :=
    stepsMeet_of_checkSteps (by decide)
  have hkept : StepsMeet step (Remembers 7) init
      ((twoReaders ++ [failingPoll 0]) ++ secondError) :=
    stepsMeet_of_checkSteps (by decide)
  exact ⟨_, _, _, _, _, _, _, rfl, rfl, rfl, ⟨_, mem_cons_self .., rfl⟩,
    one_chance honce (by decide) rfl ⟨_, _, _, rfl, rfl, rfl⟩ rfl (hfails.right rfl)
      (hkept.right rfl) rfl _ rfl ⟨_, mem_cons_self .., rfl⟩⟩

def registersBetween : List Label :=
  [.go, .go, .go, .go, .ret 0, .go, .call (.reader ⟨9, some 90⟩ (some 3) 0), .ret 0, .go,
    failingPoll 0, .go, .go, .go, .go]

/-- The first reader fails in both polls, and its handler is called twice. -/
theorem two_chances : ∃ before s₀ e s₁ es z frames,
    run step init twoReaders = .ok (before, s₀) ∧
      step s₀ (failingPoll 1) = .ok (e, s₁) ∧
      run step s₁ registersBetween = .ok (es, ⟨some z, frames⟩) ∧
      (twoReaders ++ failingPoll 1 :: registersBetween).countP (registers 7) = 1 ∧
      (∀ label ∈ twoReaders ++ failingPoll 1 :: registersBetween, tolerates 7 label = false) ∧
      StepsMeet step (Fails 7) s₀ (failingPoll 1 :: registersBetween) ∧
      (∃ reader ∈ z.readers.items, reader.sock.addr = 7) ∧ chances 7 es = 2 := by
  have hfails : StepsMeet step (Fails 7) init
      (twoReaders ++ failingPoll 1 :: registersBetween) :=
    stepsMeet_of_checkSteps (by decide)
  exact ⟨_, _, _, _, _, _, _, rfl, rfl, rfl, rfl, by decide, hfails.right rfl,
    ⟨_, mem_cons_self .., rfl⟩, rfl⟩

end Czmq.Reactor
