import Czmq.Zsock.Message
import Mathlib.Data.Nat.Bitwise

/-! A picture message gives back its arguments, unless it is a signal as a whole: those are for
actors and never come out of `zsock_vrecv`. -/

namespace Czmq

open List Bytes Decimal Zmsg

/-! ## Which messages are signals -/

namespace Zmsg

lemma land_mask {v : Nat} (hv : v < 2 ^ 64) : v &&& 0xFFFFFFFFFFFFFF00 = v / 256 * 256 := by
  have hmask : (0xFFFFFFFFFFFFFF00 : Nat) = (2 ^ 56 - 1) <<< 8 := by decide
  have hshift : v / 256 * 256 = (v >>> 8) <<< 8 := by
    rw [Nat.shiftLeft_eq, Nat.shiftRight_eq_div_pow]
  rw [hmask, hshift]
  apply Nat.eq_of_testBit_eq
  intro i
  rw [Nat.testBit_and, Nat.testBit_shiftLeft, Nat.testBit_shiftLeft, Nat.testBit_two_pow_sub_one,
    Nat.testBit_shiftRight]
  by_cases hi : 8 ≤ i
  · have hlow : 8 + (i - 8) = i := by omega
    rw [hlow]
    by_cases htop : i < 64
    · have hin : i - 8 < 56 := by omega
      simp [hi, hin]
    · have hzero : v.testBit i = false :=
        Nat.testBit_lt_two_pow (lt_of_lt_of_le hv (Nat.pow_le_pow_right (by decide) (by omega)))
      simp [hzero]
  · simp [hi]

lemma frames_newSignal (status : UInt8) :
    (newSignal status).frames = [toLittle 8 (signalValue + status.toNat)] := rfl

lemma signal_single (f : List UInt8) :
    0 ≤ signal ⟨[f], f.length⟩ ↔ ∃ status : UInt8, [f] = (newSignal status).frames := by
  by_cases hlen : f.length = 8
  · have hval : ofLittle f < 2 ^ 64 := by
      have hlt := ofBytes_lt f.reverse
      rw [length_reverse, hlen] at hlt
      exact hlt
    have htake : f.take 8 = f := take_of_length_le hlen.le
    simp only [signal, htake, hlen, land_mask hval, true_and, frames_newSignal, cons.injEq,
      and_true]
    constructor
    · intro h
      split at h
      · next hmask =>
        -- the low byte is the status
        refine ⟨UInt8.ofNat (ofLittle f % 256), ?_⟩
        have hstatus : (UInt8.ofNat (ofLittle f % 256)).toNat = ofLittle f % 256 := by
          simp
        rw [hstatus, ← hmask, Nat.div_add_mod', toLittle, ofLittle,
          toBytes_ofBytes (by rw [length_reverse, hlen]), reverse_reverse]
      · omega
    · rintro ⟨status, hs⟩
      have hsmall := status.toNat_lt
      have hvalue : ofLittle f = signalValue + status.toNat := by
        rw [hs]
        apply ofLittle_toLittle
        rw [signalValue]
        omega
      rw [if_pos (by rw [hvalue, signalValue]; omega)]
      omega
  · constructor
    · intro h
      simp only [signal] at h
      omega
    · rintro ⟨status, hs⟩
      rw [frames_newSignal, cons.injEq] at hs
      rw [hs.1] at hlen
      exact absurd rfl hlen

lemma signal_foldl_append {fs : List (List UInt8)} (hfs : ∀ f ∈ fs, f.length < 2 ^ 63) :
    0 ≤ signal (fs.foldl append new) ↔ ∃ status : UInt8, fs = (newSignal status).frames := by
  match fs with
  | [] => simp [signal, new, frames_newSignal]
  | [f] =>
    have hf := hfs f mem_cons_self
    have hmsg : [f].foldl append new = ⟨[f], f.length⟩ := by
      simp only [foldl_cons, foldl_nil, append, new, nil_append, Nat.zero_add]
      rw [Nat.mod_eq_of_lt (by omega)]
    rw [hmsg]
    exact signal_single f
  | f :: g :: fs =>
    have hframes : ((f :: g :: fs).foldl append new).frames = f :: g :: fs := by
      rw [foldl_append_frames]
      rfl
    have hno : signal ((f :: g :: fs).foldl append new) = -1 := by
      rw [signal, hframes]
    rw [hno]
    simp [frames_newSignal]

lemma wire_of_send {dest : SocketType} {self : Outgoing} {outcomes : List Outcome}
    (h : (send dest outcomes (some self)).rc = some 0) :
    (send dest outcomes (some self)).wire.map (·.data) = contents self.frames ∧
      (send dest outcomes (some self)).wire.map (·.more) =
        (range (send dest outcomes (some self)).wire.length).map
          fun i => decide (i + 1 < self.frames.length) := by
  have hstart : Sending.Of self.frames ⟨0, false, self.frames, []⟩ := ⟨rfl, rfl, rfl⟩
  cases hloop : sendLoop dest self.routingId outcomes ⟨0, false, self.frames, []⟩ with
  | mk ended s =>
    obtain ⟨hof, hend⟩ := hstart.sendLoop (fun _ => rfl) hloop
    cases ended with
    | false => simp [send, hloop] at h
    | true =>
      simp only [send, hloop, if_true, Option.some.injEq] at h ⊢
      have hcontents := hof.contents
      rw [(hend rfl).mp h] at hcontents
      exact ⟨by simpa [contents] using hcontents, hof.more⟩

end Zmsg

/-! ## One element -/

namespace Zsock

lemma printInt_natCast (n : Nat) : printInt n = print n := by
  rw [printInt, if_neg (by omega), Int.natAbs_natCast]

lemma atoi_printInt {i : Int} (h : -2 ^ 31 ≤ i) (h' : i < 2 ^ 31) :
    atoi (printInt i ++ [0]) = i := by
  rw [atoi, strtol_printInt_append (by simp [isDigit]) (by omega) (by omega), Int.bmod_def]
  omega

lemma pop_cons {msg : Zmsg} {f : List UInt8} {fs : List (List UInt8)} (h : msg.frames = f :: fs) :
    msg.pop = (some f, ⟨fs, ptrSub msg.contentSize f.length⟩) := by
  rw [pop, h]

/-- `v` is sent as the frame `f`, and the element that finds this frame stores `v`. -/
structure Value.Carried (v : Value) (f : List UInt8) : Prop where
  length_lt : f.length < 2 ^ 63
  sent (msg : Zmsg) : sendItem msg v = .ok (msg.append f)
  stored {s : Receiving} {rest : List (List UInt8)} (hs : s.msg.frames = f :: rest) :
    recvItem s true v.item = .ok { s with
      msg := ⟨rest, ptrSub s.msg.contentSize f.length⟩, stored := s.stored ++ [v] }

lemma Value.carried_number {v zero : Value} {f : List UInt8} {read : List UInt8 → Value}
    (hlen : f.length < 2 ^ 63) (hsend : ∀ msg, sendItem msg v = .ok (msg.append f))
    (hread : read (f ++ [0]) = v)
    (hrecv : ∀ s, recvItem s true v.item = .ok (s.number true read zero)) : v.Carried f where
  length_lt := hlen
  sent := hsend
  stored hs := by
    rw [hrecv, Receiving.number, popstr, pop_cons hs]
    simp only [Receiving.store, Option.map_some, Option.elim_some, hread, if_true]

lemma Value.carried_data {value : Option (List UInt8) → Value} {f : List UInt8}
    (hlen : f.length < 2 ^ 63) (hsend : ∀ msg, sendItem msg (value (some f)) = .ok (msg.append f))
    (hrecv : ∀ s, recvItem s true (value (some f)).item = .ok (s.data true value)) :
    (value (some f)).Carried f where
  length_lt := hlen
  sent := hsend
  stored hs := by
    rw [hrecv, Receiving.data, pop_cons hs]
    rfl

lemma length_print_lt {n : Nat} (h : n < 2 ^ 64) : (print n).length ≤ 20 :=
  length_print_le (by decide) (by omega)

lemma Value.exists_carried {v : Value} (hv : v.sendable = true) (hmsg : v.item ≠ .msg) :
    ∃ f : List UInt8, v.Carried f := by
  have hzero : ∀ c ∈ ([0] : List UInt8).head?, isDigit c = false := by simp [isDigit]
  cases v with
  | int n =>
    have hn := n.le_toInt
    have hn' := n.toInt_lt
    refine ⟨_, carried_number ?_ (fun _ => rfl) ?_ (fun _ => rfl)⟩
    · have hlen := length_printInt_le (i := n.toInt) (k := 10) (by decide) (by omega)
      omega
    · rw [atoi_printInt hn hn', Int32.ofInt_toInt]
  | number1 n =>
    have hn := n.toNat_lt
    have hlen := length_print_lt (n := n.toNat) (by omega)
    refine ⟨_, carried_number (by omega) (fun _ => rfl) ?_ (fun _ => rfl)⟩
    have hmod : ((n.toNat : Int) % 2 ^ 8).toNat = n.toNat := by omega
    rw [← printInt_natCast, atoi_printInt (by omega) (by omega), UInt8.ofInt, hmod,
      UInt8.ofNat_toNat]
  | number2 n =>
    have hn := n.toNat_lt
    have hlen := length_print_lt (n := n.toNat) (by omega)
    refine ⟨_, carried_number (by omega) (fun _ => rfl) ?_ (fun _ => rfl)⟩
    have hmod : ((n.toNat : Int) % 2 ^ 16).toNat = n.toNat := by omega
    rw [← printInt_natCast, strtol_printInt_append hzero (by omega) (by omega), UInt16.ofInt, hmod,
      UInt16.ofNat_toNat]
  | number4 n =>
    have hn := n.toNat_lt
    have hlen := length_print_lt (n := n.toNat) (by omega)
    refine ⟨_, carried_number (by omega) (fun _ => rfl) ?_ (fun _ => rfl)⟩
    rw [strtoul_print_append hzero (by omega), UInt32.ofNat_toNat]
  | number8 n =>
    have hlen := length_print_lt n.toNat_lt
    refine ⟨_, carried_number (by omega) (fun _ => rfl) ?_ (fun _ => rfl)⟩
    rw [strtoul_print_append hzero n.toNat_lt, UInt64.ofNat_toNat]
  | uint n =>
    have hn := n.toNat_lt
    have hlen := length_print_lt (n := n.toNat) (by omega)
    refine ⟨_, carried_number ?_ (fun _ => rfl) ?_ (fun _ => rfl)⟩
    · rw [length_append, length_singleton]
      omega
    · -- the reader stops at the letter that the format adds
      rw [append_assoc, strtoul_print_append (by simp [isDigit]) (by omega),
        UInt32.ofNat_toNat]
  | string s =>
    cases s with
    | none => cases hv
    | some s =>
      refine ⟨s.1, ⟨by simpa [sendable] using hv, fun _ => rfl, fun hs => ?_⟩⟩
      rw [item, recvItem, popstr, pop_cons hs]
      simp only [Receiving.store, Option.map_some, CString.ofBuffer_terminated, if_true]
  | binary d =>
    cases d with
    | none => cases hv
    | some d =>
      have hlen : d.length < 2 ^ 31 := by simpa [sendable] using hv
      exact ⟨d, carried_data (by omega) (fun _ => rfl) fun _ => rfl⟩
  | chunk d | frame d | packed d =>
    cases d with
    | none => cases hv
    | some d => exact ⟨d, carried_data (by simpa [sendable] using hv) (fun _ => rfl) fun _ => rfl⟩
  | uuid d =>
    cases d with
    | none => cases hv
    | some d =>
      obtain ⟨bs, hbs⟩ := d
      refine ⟨bs, ⟨by omega, fun _ => rfl, fun hs => ?_⟩⟩
      have htake : bs.take 16 = bs := take_of_length_le hbs.le
      rw [item, recvItem, pop_cons hs]
      simp only [Receiving.store, dif_pos hbs.ge, htake, if_true]
  | pointer repr =>
    obtain ⟨bs, hbs⟩ := repr
    refine ⟨bs, ⟨by omega, fun _ => rfl, fun hs => ?_⟩⟩
    change recvItem _ true .pointer = _
    rw [recvItem, pop_cons hs]
    simp only [Receiving.store, dif_pos hbs, if_true]
  | msg frames => exact absurd rfl hmsg

/-! ## The whole picture -/

structure Carries (picture : List Char) (args : List Value) (fs : List (List UInt8)) : Prop where
  length_lt : ∀ f ∈ fs, f.length < 2 ^ 63
  ne_nil : picture ≠ [] → fs ≠ []
  sent (msg : Zmsg) : sendItems picture args msg = .ok (fs.foldl append msg)
  stored {s : Receiving} (hs : s.msg.frames = fs) :
    ∃ msg, recvItems picture (args.map fun _ => true) s =
      .ok { s with msg := msg, stored := s.stored ++ args }

section
variable {c : Char} {arg : Value} {picture : List Char}

lemma Value.item_ne_zero (v : Value) : v.item ≠ .zero := by cases v <;> simp [item]

lemma sendItems_item (hc : Item.ofChar c = some arg.item) (args : List Value) (msg : Zmsg) :
    sendItems (c :: picture) (arg :: args) msg = sendItem msg arg >>= sendItems picture args := by
  unfold sendItems
  rw [hc]
  split
  · next h => cases h
  · next h => exact absurd (Option.some.inj h) arg.item_ne_zero
  · next h => cases h
  · next h h' =>
    cases h
    cases h'
    rw [if_pos rfl]

lemma recvItems_item (hc : Item.ofChar c = some arg.item) (wanted : List Bool) (s : Receiving) :
    recvItems (c :: picture) (true :: wanted) s =
      recvItem s true arg.item >>= recvItems picture wanted := by
  unfold recvItems
  rw [hc]
  split
  · next h => cases h
  · next h => exact absurd (Option.some.inj h) arg.item_ne_zero
  · next h => cases h
  · next h h' =>
    cases h
    cases h'
    rfl

lemma carries_msg {frames : List (List UInt8)} (hc : Item.ofChar c = some .msg)
    (hfs : (Value.msg (some frames)).sendable = true) :
    Carries [c] [.msg (some frames)] frames := by
  have hfs : frames ≠ [] ∧ ∀ f ∈ frames, f.length < 2 ^ 63 := by
    simpa [Value.sendable] using hfs
  constructor
  · exact hfs.2
  · exact fun _ => hfs.1
  · intro msg
    rw [sendItems_item hc]
    rfl
  · rintro s rfl
    have hitem : recvItems [c] [true] s =
        recvItem s true (Value.msg (some s.msg.frames)).item >>= recvItems [] [] :=
      recvItems_item hc [] s
    rw [map_singleton, hitem]
    exact ⟨_, rfl⟩

lemma Carries.zero {args : List Value} {fs : List (List UInt8)} (h : Carries picture args fs)
    (hc : Item.ofChar c = some .zero) : Carries (c :: picture) args ([] :: fs) := by
  constructor
  · exact forall_mem_cons.mpr ⟨by decide, h.length_lt⟩
  · exact fun _ => cons_ne_nil _ _
  · intro msg
    unfold sendItems
    rw [hc]
    exact h.sent _
  · intro s hs
    obtain ⟨msg, hmsg⟩ := h.stored (s := { s with msg := s.msg.pop.2 }) (by rw [pop_cons hs])
    refine ⟨msg, ?_⟩
    unfold recvItems
    rw [hc]
    simp only [recvItem, pop_cons hs]
    rw [pop_cons hs] at hmsg
    exact hmsg

lemma Carries.item {args : List Value} {fs : List (List UInt8)} {f : List UInt8}
    (h : Carries picture args fs) (hc : Item.ofChar c = some arg.item) (harg : arg.Carried f) :
    Carries (c :: picture) (arg :: args) (f :: fs) := by
  constructor
  · exact forall_mem_cons.mpr ⟨harg.length_lt, h.length_lt⟩
  · exact fun _ => cons_ne_nil _ _
  · intro msg
    rw [sendItems_item hc, harg.sent]
    exact h.sent _
  · intro s hs
    have hstored := h.stored (s := { s with
      msg := ⟨fs, ptrSub s.msg.contentSize f.length⟩, stored := s.stored ++ [arg] }) rfl
    rw [map_cons, recvItems_item hc, harg.stored hs]
    simpa using hstored

end

lemma Fits.exists_carries {picture : List Char} {args : List Value} (h : Fits picture args) :
    ∃ fs, Carries picture args fs := by
  induction h with
  | nil =>
    refine ⟨[], by simp, fun h => absurd rfl h, fun _ => rfl, fun {s} _ => ⟨s.msg, ?_⟩⟩
    simp [recvItems]
  | zero hc _ ih =>
    obtain ⟨fs, hfs⟩ := ih
    exact ⟨[] :: fs, hfs.zero hc⟩
  | @item c picture arg args hc harg hlast h ih =>
    by_cases hmsg : arg.item = .msg
    · -- nothing follows the message
      obtain rfl := hlast hmsg
      cases h
      cases arg with
      | msg frames =>
        cases frames with
        | none => cases harg
        | some frames => exact ⟨frames, carries_msg hc harg⟩
      | _ => cases hmsg
    · obtain ⟨fs, hfs⟩ := ih
      obtain ⟨f, hf⟩ := Value.exists_carried harg hmsg
      exact ⟨f :: fs, hfs.item hc hf⟩

/-! ## Delivery -/

lemma zmsgRecv_of_places {parts : List (List UInt8 × Bool)} (hne : parts ≠ [])
    (hmore : parts.map (·.2) = (range parts.length).map fun i => decide (i + 1 < parts.length))
    (msg : Zmsg) :
    zmsgRecv msg parts = .ok ((parts.map (·.1)).foldl append msg, []) := by
  induction parts generalizing msg with
  | nil => exact absurd rfl hne
  | cons part parts ih =>
    obtain ⟨data, more⟩ := part
    rw [length_cons, range_succ_eq_map, map_cons, map_cons, map_map,
      cons.injEq] at hmore
    obtain ⟨hhead, htail⟩ := hmore
    dsimp only at hhead
    rw [zmsgRecv, hhead]
    by_cases hnil : parts = []
    · subst hnil
      rfl
    · have hpos : 0 + 1 < parts.length + 1 := by
        have := length_pos_iff.mpr hnil
        omega
      rw [if_pos (decide_eq_true hpos)]
      apply ih hnil
      rw [htail]
      refine map_congr_left fun i _ => ?_
      simp

lemma zmsgRecv_delivered {msg : Zmsg} {dest : SocketType} {outcomes : List Outcome}
    (hne : msg.frames ≠ []) (hrc : (send dest outcomes (some (outgoing msg))).rc = some 0) :
    (send dest outcomes (some (outgoing msg))).wire.map (·.data) = msg.frames ∧
      zmsgRecv new (delivered (send dest outcomes (some (outgoing msg))).wire) =
        .ok (msg.frames.foldl append new, []) := by
  obtain ⟨hdata, hmore⟩ := wire_of_send hrc
  generalize (send dest outcomes (some (outgoing msg))).wire = wire at hdata hmore
  have hframes : contents (outgoing msg).frames = msg.frames := by
    rw [contents, outgoing, map_map]
    exact map_id _
  have hcount : (outgoing msg).frames.length = msg.frames.length := by simp [outgoing]
  rw [hframes] at hdata
  have hlen : wire.length = msg.frames.length := by
    rw [← hdata, length_map]
  have hfst : (delivered wire).map (·.1) = msg.frames := by
    rw [← hdata, delivered, map_map]
    rfl
  refine ⟨hdata, ?_⟩
  rw [← hfst]
  apply zmsgRecv_of_places
  · intro hnil
    rw [hnil] at hfst
    exact hne hfst.symm
  · rw [hcount, ← hlen] at hmore
    rw [delivered, map_map, length_map]
    exact hmore

/-- A picture message gives back its arguments, unless the whole of it is a signal. -/
theorem vrecv_vsend {picture : List Char} {args : List Value} (hne : picture ≠ [])
    (hfits : Fits picture args) (dest : SocketType) (outcomes : List Outcome) :
    ∃ call, vsend dest outcomes picture args = .ok call ∧ (call.rc = some 0 →
      ((¬ ∃ status, call.wire.map (·.data) = (newSignal status).frames) →
        vrecv (args.map fun _ => true) picture (delivered call.wire) = .ok (0, args)) ∧
      ((∃ status, call.wire.map (·.data) = (newSignal status).frames) →
        vrecv (args.map fun _ => true) picture (delivered call.wire) = .ok (-1, []))) := by
  obtain ⟨fs, hfs⟩ := hfits.exists_carries
  have hframes : (fs.foldl append new).frames = fs := by
    rw [foldl_append_frames]
    rfl
  refine ⟨_, by rw [vsend, hfs.sent new]; rfl, fun hrc => ?_⟩
  -- both branches of the sender's last `if` keep `rc` and the parts
  have hwire : ∀ call : Zmsg.Call, (if call.rc = none ∨ call.rc = some 0 then call
      else { call with self := none }).rc = some 0 → call.rc = some 0 ∧
      (if call.rc = none ∨ call.rc = some 0 then call else { call with self := none }).wire =
        call.wire := by
    intro call h
    split at h
    · next hif => exact ⟨h, by rw [if_pos hif]⟩
    · exact ⟨h, by split <;> rfl⟩
  obtain ⟨hrc, hwire⟩ := hwire _ hrc
  rw [hwire]
  obtain ⟨hdata, hrecv⟩ := zmsgRecv_delivered (by rw [hframes]; exact hfs.ne_nil hne) hrc
  rw [hframes] at hdata hrecv
  rw [hdata, vrecv, hrecv, ok_bind, ← signal_foldl_append hfs.length_lt]
  constructor
  · intro hsignal
    obtain ⟨msg, hmsg⟩ := hfs.stored (s := ⟨0, fs.foldl append new, []⟩) hframes
    rw [if_neg hsignal, hmsg]
    rfl
  · intro hsignal
    rw [if_pos hsignal]

theorem vrecv_vsend_number_frame : ∃ call,
    vsend .other [.taken, .taken] ['8', 'f'] [.number8 7, .frame (some [0, 255])] = .ok call ∧
      call.rc = some 0 ∧ vrecv [true, true] ['8', 'f'] (delivered call.wire) =
        .ok (0, [.number8 7, .frame (some [0, 255])]) := by
  have hfits : Fits ['8', 'f'] [.number8 7, .frame (some [0, 255])] :=
    .item rfl rfl (by decide) (.item rfl (by decide) (by decide) .nil)
  obtain ⟨call, hcall, h⟩ := vrecv_vsend (cons_ne_nil _ _) hfits .other [.taken, .taken]
  have hrun : (vsend .other [.taken, .taken] ['8', 'f'] [.number8 7, .frame (some [0, 255])]).map
      (fun call => (call.rc, call.wire.length)) = .ok (some 0, 2) := by decide
  rw [hcall] at hrun
  obtain ⟨hrc, hlen⟩ := Prod.mk.inj (Except.ok.inj hrun)
  refine ⟨call, hcall, hrc, (h hrc).1 ?_⟩
  rintro ⟨status, hs⟩
  -- a signal has one frame
  have hone := congrArg length hs
  rw [length_map, hlen] at hone
  cases hone

/-- Eight bytes of binary data that are those of a signal do not arrive. -/
theorem vrecv_signal : ∃ call,
    Fits ['b'] [.binary (some [0x00, 0x11, 0x22, 0x33, 0x44, 0x55, 0x66, 0x77])] ∧
      vsend .other [.taken] ['b']
        [.binary (some [0x00, 0x11, 0x22, 0x33, 0x44, 0x55, 0x66, 0x77])] = .ok call ∧
      call.rc = some 0 ∧ vrecv [true] ['b'] (delivered call.wire) = .ok (-1, []) :=
  ⟨_, .item rfl (by decide) (by decide) .nil, rfl, by decide, by decide⟩

end Zsock

end Czmq
