import Czmq.Zhashx.Inserts
import Czmq.Zhashx.Reached

/-! The packed form of a dictionary: the number of items, then keys behind a length of one byte and
values behind one of four. -/

namespace Czmq.Zhashx

open List Machine Bytes Loop

abbrev Dictionary := Zhashx CString CString

structure Measured where
  frameSize : Nat
  vindex : UInt32
  values : List (Option CString)

def measure (m : Measured) (item : Item CString CString) : Except Fault Measured :=
  if m.vindex.toNat < m.values.length then
    match item.value with
    | none => .error (.outOfBounds 0)
    | some value =>
      .ok { frameSize := (m.frameSize + (1 + item.key.1.length) + (4 + value.1.length)) % 2 ^ 64
            vindex := m.vindex + 1
            values := m.values.set m.vindex.toNat value }
  else .error (.outOfBounds m.vindex.toNat)

def record (key value : List UInt8) : List UInt8 :=
  UInt8.ofNat key.length :: (key ++ (toBytes 4 value.length ++ value))

def writeItem (frameSize : Nat) (values : List (Option CString)) (s : List UInt8 × UInt32)
    (item : Item CString CString) : Except Fault (List UInt8 × UInt32) :=
  match values[s.2.toNat]? with
  | some (some value) =>
    let dest := s.1 ++ record item.key.1 value.1
    if dest.length ≤ frameSize then .ok (dest, s.2 + 1) else .error (.outOfBounds frameSize)
  | _ => .error (.outOfBounds s.2.toNat)

/-- `zhashx_pack`: the frame, or `none` where `zframe_new` finds no memory. -/
def pack (alloc : Nat → Bool) (t : Dictionary) : Except Fault (Option (List UInt8)) := do
  let m ← forUint t.limit .endlessLoop
    (fun m index => (t.items.getD index []).foldlM measure m)
    { frameSize := 4, vindex := 0, values := replicate t.size none }
  if alloc m.frameSize then do
    let s ← forUint t.limit .endlessLoop
      (fun s index => (t.items.getD index []).foldlM (writeItem m.frameSize m.values) s)
      (toBytes 4 t.size, 0)
    pure (some s.1)
  else pure none

def charToSize (c : UInt8) : UInt64 :=
  if c < 128 then c.toUInt64 else c.toUInt64 ||| 0xFFFFFFFFFFFFFF00

def sBernsteinHash (key : CString) : UInt64 :=
  key.1.foldl (fun keyHash c => 33 * keyHash ^^^ charToSize c) 0

def unpackCallbacks : Callbacks CString CString where
  duplicator := none
  destructor := true
  keyDuplicator := some id
  keyDestructor := true
  keyComparator := fun a b => strcmp a.1 b.1
  hasher := sBernsteinHash

def unpackInsert (self : Dictionary) (key value : List UInt8) :
    Except Fault (Option Dictionary) := do
  let (rc, self) ← self.insert (.ofBuffer (key ++ [0])) (some (.ofBuffer (value ++ [0])))
  if rc ≠ 0 then do
    let _ ← self.sPurge
    pure none
  else pure (some self)

/-- One round of the loop, on `needle` and the table. `nbr_items` never changes. -/
def unpackRound (b : Block) (ceiling nbrItems : Nat) (s : Nat × Dictionary) :
    Except Fault ((Nat × Dictionary) ⊕ Option Dictionary) :=
  if nbrItems ≠ 0 ∧ s.1 < ceiling then do
    let keySize := ofBytes (← load b s.1 1)
    let needle := ptrAdd s.1 1
    if ptrAdd needle keySize ≤ ceiling then do
      let key ← load b needle keySize
      let needle := ptrAdd needle keySize
      if ptrAdd needle 4 ≤ ceiling then do
        let valueSize := ofBytes (← load b needle 4)
        let needle := ptrAdd needle 4
        if ptrAdd needle valueSize ≤ ceiling then do
          let value ← load b needle valueSize
          match ← unpackInsert s.2 key value with
          | none => pure (.inr none)
          | some self => pure (.inl (ptrAdd needle valueSize, self))
        else pure (.inl (needle, s.2))
      else pure (.inl (needle, s.2))
    else pure (.inl (needle, s.2))
  else pure (.inr (some s.2))

def setStrdup (t : Dictionary) : Dictionary := { t with fn := { t.fn with duplicator := some id } }

def unpack (b : Block) : Except Fault (Option Dictionary) :=
  if b.data.length < 4 then .ok (some (new unpackCallbacks))
  else do
    let nbrItems := ofBytes (← load b b.base 4)
    let self ← untilDone .endlessLoop
      (unpackRound b (ptrAdd b.base b.data.length) nbrItems) (b.data.length + 1)
      (ptrAdd b.base 4, new unpackCallbacks)
    pure (self.map setStrdup)

/-! ## Both passes of the packer agree -/

def text : Option CString → List UInt8
  | some value => value.1
  | none => []

def records (ps : List (CString × Option CString)) : List UInt8 :=
  ps.flatMap fun p => record p.1.1 (text p.2)

def packed (ps : List (CString × Option CString)) : List UInt8 :=
  toBytes 4 ps.length ++ records ps

lemma length_record (key value : List UInt8) :
    (record key value).length = 1 + key.length + (4 + value.length) := by
  rw [record, length_cons, length_append, length_append, length_toBytes]
  omega

lemma records_cons (p : CString × Option CString) (ps : List (CString × Option CString)) :
    records (p :: ps) = record p.1.1 (text p.2) ++ records ps := rfl

def pairOf (it : Item CString CString) : CString × Option CString := (it.key, it.value)

lemma toNat_ofNat_of_lt {n : Nat} (h : n < 2 ^ 32) : (UInt32.ofNat n).toNat = n := by
  rw [UInt32.toNat_ofNat', Nat.mod_eq_of_lt h]

lemma ofNat_add_one (n : Nat) : UInt32.ofNat n + 1 = UInt32.ofNat (n + 1) := by
  rw [UInt32.ofNat_add]
  rfl

lemma foldlM_measure {items : List (Item CString CString)} (values : List (Option CString))
    (frameSize : Nat) (hvalues : ∀ it ∈ items, it.value.isSome)
    (hcount : values.length + items.length < 2 ^ 32)
    (hsize : frameSize + (records (items.map pairOf)).length < 2 ^ 64) :
    items.foldlM measure
        ⟨frameSize, .ofNat values.length, values ++ replicate items.length none⟩ =
      .ok ⟨frameSize + (records (items.map pairOf)).length, .ofNat (values.length + items.length),
        values ++ items.map (·.value)⟩ := by
  induction items generalizing values frameSize with
  | nil => rfl
  | cons it items ih =>
    rw [forall_mem_cons] at hvalues
    obtain ⟨value, hvalue⟩ := Option.isSome_iff_exists.mp hvalues.1
    rw [map_cons, records_cons, length_append, length_record] at hsize ⊢
    rw [length_cons] at hcount
    have htext : text (pairOf it).2 = value.1 := by rw [pairOf, hvalue]; rfl
    rw [htext] at hsize ⊢
    have hstep : measure ⟨frameSize, .ofNat values.length,
          values ++ replicate (it :: items).length none⟩ it =
        .ok ⟨frameSize + (1 + it.key.1.length) + (4 + value.1.length),
          .ofNat (values ++ [it.value]).length,
          (values ++ [it.value]) ++ replicate items.length none⟩ := by
      rw [measure, hvalue]
      dsimp only
      rw [toNat_ofNat_of_lt (by omega), Nat.mod_eq_of_lt (by
        change frameSize + (1 + it.key.1.length + (4 + value.1.length) + _) < _ at hsize
        omega), length_cons, replicate_succ]
      simp
    rw [foldlM_cons, hstep, ok_bind, ih _ _ hvalues.2 (by simp; omega) (by
      change frameSize + (1 + it.key.1.length + (4 + value.1.length) + _) < _ at hsize
      omega)]
    simp only [length_append, length_cons, length_nil, append_assoc,
      pairOf]
    congr 2
    · omega
    · congr 1
      omega

lemma foldlM_writeItem {items : List (Item CString CString)} (values : List (Option CString))
    (frameSize : Nat) (dest : List UInt8) (hvalues : ∀ it ∈ items, it.value.isSome)
    (hcount : values.length + items.length < 2 ^ 32)
    (hsize : dest.length + (records (items.map pairOf)).length ≤ frameSize) :
    items.foldlM (writeItem frameSize (values ++ items.map (·.value)))
        (dest, .ofNat values.length) =
      .ok (dest ++ records (items.map pairOf), .ofNat (values.length + items.length)) := by
  induction items generalizing values dest with
  | nil => simp [records, pure, Except.pure]
  | cons it items ih =>
    rw [forall_mem_cons] at hvalues
    obtain ⟨value, hvalue⟩ := Option.isSome_iff_exists.mp hvalues.1
    rw [map_cons, records_cons, length_append] at hsize
    rw [length_cons] at hcount
    have hrecord : record (pairOf it).1.1 (text (pairOf it).2) = record it.key.1 value.1 := by
      rw [pairOf, hvalue]
      rfl
    rw [hrecord] at hsize
    have hget : (values ++ (it :: items).map (·.value))[(UInt32.ofNat values.length).toNat]? =
        some (some value) := by
      rw [toNat_ofNat_of_lt (by omega), getElem?_append_right le_rfl, Nat.sub_self,
        map_cons, getElem?_cons_zero, hvalue]
    have hstep : writeItem frameSize (values ++ (it :: items).map (·.value))
        (dest, .ofNat values.length) it =
        .ok (dest ++ record it.key.1 value.1, .ofNat (values ++ [it.value]).length) := by
      rw [writeItem, hget]
      dsimp only
      rw [if_pos (by rw [length_append]; omega), ofNat_add_one, length_append,
        length_singleton]
    have hsplit : values ++ (it :: items).map (·.value) =
        (values ++ [it.value]) ++ items.map (·.value) := by simp
    rw [foldlM_cons, hstep, ok_bind, hsplit, ih _ _ hvalues.2 (by simp; omega)
      (by rw [length_append]; omega), map_cons, records_cons, hrecord, append_assoc,
      length_append, length_singleton, length_cons, Nat.add_assoc,
      Nat.add_comm 1]

section
variable {alloc : Nat → Bool} {t : Dictionary}

lemma pack_eq (h : Shape t) (hlim : t.limit < 2 ^ 32) (hcount : t.size < 2 ^ 32)
    (hvalues : ∀ it ∈ t.all, it.value.isSome) (hsize : (packed t.pairs).length < 2 ^ 63)
    (halloc : alloc (packed t.pairs).length = true) :
    t.pack alloc = .ok (some (packed t.pairs)) := by
  have hlen : (packed t.pairs).length = 4 + (records (t.all.map pairOf)).length := by
    rw [packed, length_append]
    rfl
  have hitems : ([] : List (Option CString)).length + t.all.length < 2 ^ 32 := by
    rw [← h.size_eq]
    simpa using hcount
  have hmeasure : t.all.foldlM measure ⟨4, 0, replicate t.size none⟩ =
      .ok ⟨(packed t.pairs).length, .ofNat (0 + t.all.length), t.all.map (·.value)⟩ := by
    rw [h.size_eq, hlen]
    exact foldlM_measure [] 4 hvalues hitems (by omega)
  have hwrite : t.all.foldlM (writeItem (packed t.pairs).length (t.all.map (·.value)))
      (toBytes 4 t.size, 0) =
      .ok (toBytes 4 t.size ++ records t.pairs, .ofNat (0 + t.all.length)) :=
    foldlM_writeItem [] (packed t.pairs).length (toBytes 4 t.size) hvalues hitems
      (by rw [length_toBytes, hlen])
  rw [pack, h.forUint_items hlim, hmeasure, ok_bind, if_pos halloc, h.forUint_items hlim, hwrite,
    packed, h.length_pairs]
  rfl

lemma limit_lt_of_pack {frame : Option (List UInt8)} (h : t.pack alloc = .ok frame) :
    t.limit < 2 ^ 32 := by
  obtain ⟨m, hm, -⟩ := bind_eq_ok.mp h
  exact lt_of_forUint_eq_ok hm

end

/-! ## The unpacker on a packed frame -/

lemma unpackCallbacks_lawful : unpackCallbacks.Lawful where
  refl := fun _ => strcmp_eq_zero_iff.mpr rfl
  symm := fun _ _ h => strcmp_eq_zero_iff.mpr (strcmp_eq_zero_iff.mp h).symm
  trans := fun _ _ _ h h' =>
    strcmp_eq_zero_iff.mpr ((strcmp_eq_zero_iff.mp h).trans (strcmp_eq_zero_iff.mp h'))
  hash_eq := fun _ _ h => congrArg sBernsteinHash (Subtype.ext (strcmp_eq_zero_iff.mp h))
  dup_key := fun _ => strcmp_eq_zero_iff.mpr rfl

section
variable {b : Block} {pre post : List UInt8} {self t : Dictionary} {nbrItems : Nat}

lemma unpackInsert_eq_some_iff {key value : CString} :
    unpackInsert self key.1 value.1 = .ok (some t) ↔ self.insert key (some value) = .ok (0, t) := by
  rw [unpackInsert, CString.ofBuffer_terminated, CString.ofBuffer_terminated, bind_eq_ok]
  constructor
  · rintro ⟨⟨rc, u⟩, hins, h⟩
    dsimp only at h
    split at h
    · obtain ⟨_, _, h⟩ := bind_eq_ok.mp h
      cases h
    · next hrc =>
      cases h
      rw [not_not] at hrc
      rw [hins, hrc]
  · intro hins
    exact ⟨(0, t), hins, rfl⟩

lemma unpackRound_record (self : Dictionary) {key value : CString} (hnbr : nbrItems ≠ 0) (hkey : key.1.length ≤ 255)
    (hvalue : value.1.length < 2 ^ 32) (hdata : b.data = pre ++ record key.1 value.1 ++ post) :
    unpackRound b (b.base + b.data.length) nbrItems (b.base + pre.length, self) =
      unpackInsert self key.1 value.1 >>= fun
        | none => .ok (.inr none)
        | some self => .ok (.inl (b.base + (pre ++ record key.1 value.1).length, self)) := by
  have hmem := b.end_lt
  have hsize : b.data = pre ++ [UInt8.ofNat key.1.length] ++
      (key.1 ++ (toBytes 4 value.1.length ++ value.1) ++ post) := by
    rw [hdata, record]
    simp
  have hkeyData : b.data = (pre ++ [UInt8.ofNat key.1.length]) ++ key.1 ++
      (toBytes 4 value.1.length ++ value.1 ++ post) := by
    rw [hsize]
    simp
  have hlong : b.data = (pre ++ [UInt8.ofNat key.1.length] ++ key.1) ++ toBytes 4 value.1.length ++
      (value.1 ++ post) := by
    rw [hsize]
    simp
  have hvalueData : b.data = (pre ++ [UInt8.ofNat key.1.length] ++ key.1 ++
      toBytes 4 value.1.length) ++ value.1 ++ post := by
    rw [hsize]
    simp
  have hlen : b.data.length =
      pre.length + (1 + key.1.length + (4 + value.1.length)) + post.length := by
    rw [hdata, length_append, length_append, length_record]
  have hbyte : ofBytes [UInt8.ofNat key.1.length] = key.1.length := by
    simp [ofBytes]
    omega
  -- Where `needle` is after each of the four parts.
  have hp1 : ptrAdd (b.base + pre.length) 1 = b.base + pre.length + 1 := ptrAdd_of_lt (by omega)
  have hp2 : ptrAdd (b.base + pre.length + 1) key.1.length =
      b.base + pre.length + 1 + key.1.length := ptrAdd_of_lt (by omega)
  have hp3 : ptrAdd (b.base + pre.length + 1 + key.1.length) 4 =
      b.base + pre.length + 1 + key.1.length + 4 := ptrAdd_of_lt (by omega)
  have hp4 : ptrAdd (b.base + pre.length + 1 + key.1.length + 4) value.1.length =
      b.base + pre.length + 1 + key.1.length + 4 + value.1.length := ptrAdd_of_lt (by omega)
  rw [unpackRound, if_pos ⟨hnbr, by dsimp only; omega⟩]
  dsimp only
  rw [load_append (n := 1) hsize rfl rfl, ok_bind, hbyte, hp1, hp2, if_pos (by omega),
    load_append hkeyData (by simp; omega) rfl, ok_bind, hp3, if_pos (by omega),
    load_append hlong (by simp; omega) (by simp), ok_bind,
    ofBytes_toBytes_of_lt (by omega), hp4, if_pos (by omega),
    load_append hvalueData (by simp; omega) rfl, ok_bind]
  refine bind_congr fun self => ?_
  cases self with
  | none => rfl
  | some self =>
    rw [length_append, length_record, show b.base + (pre.length + (1 + key.1.length +
      (4 + value.1.length))) = b.base + pre.length + 1 + key.1.length + 4 + value.1.length by omega]
    rfl

lemma unpackRound_end :
    unpackRound b (b.base + b.data.length) nbrItems (b.base + b.data.length, self) =
      .ok (.inr (some self)) := by
  rw [unpackRound, if_neg (by simp)]
  rfl

lemma untilDone_records (self : Dictionary) {ps : List (CString × Option CString)} (hnbr : nbrItems ≠ 0)
    (hkeys : ∀ p ∈ ps, p.1.1.length ≤ 255)
    (hvalues : ∀ p ∈ ps, p.2.isSome ∧ (text p.2).length < 2 ^ 32)
    (hdata : b.data = pre ++ records ps) {n : Nat} (hn : ps.length < n) :
    untilDone .endlessLoop (unpackRound b (b.base + b.data.length) nbrItems) n
        (b.base + pre.length, self) = .ok (some t) ↔ InsertsTo self ps t := by
  induction ps generalizing pre self n with
  | nil =>
    obtain ⟨n, rfl⟩ : ∃ m, n = m + 1 := ⟨n - 1, by rw [length_nil] at hn; omega⟩
    have hpre : pre.length = b.data.length := by simp [hdata, records]
    rw [hpre, untilDone_inr unpackRound_end, InsertsTo, Except.ok.injEq, Option.some.injEq,
      eq_comm]
  | cons p ps ih =>
    obtain ⟨n, rfl⟩ : ∃ m, n = m + 1 := ⟨n - 1, by rw [length_cons] at hn; omega⟩
    rw [forall_mem_cons] at hkeys hvalues
    obtain ⟨key, value⟩ := p
    obtain ⟨value, rfl⟩ := Option.isSome_iff_exists.mp hvalues.1.1
    have hrecord : b.data = pre ++ record key.1 value.1 ++ records ps := by
      rw [hdata, append_assoc]
      rfl
    have hround := unpackRound_record self hnbr hkeys.1 hvalues.1.2 hrecord
    constructor
    · intro h
      cases hins : unpackInsert self key.1 value.1 with
      | error e =>
        rw [hins] at hround
        rw [untilDone_error hround] at h
        cases h
      | ok r =>
        rw [hins] at hround
        cases r with
        | none =>
          rw [untilDone_inr hround] at h
          cases h
        | some t1 =>
          rw [untilDone_inl hround] at h
          exact ⟨t1, unpackInsert_eq_some_iff.mp hins, (ih t1 hkeys.2 hvalues.2 hrecord
            (by rw [length_cons] at hn; omega)).mp h⟩
    · rintro ⟨t1, hins, hto⟩
      rw [unpackInsert_eq_some_iff.mpr hins] at hround
      rw [untilDone_inl hround]
      exact (ih t1 hkeys.2 hvalues.2 hrecord (by rw [length_cons] at hn; omega)).mpr hto

structure ShortKeys (t : Dictionary) : Prop where
  wf : Wf t
  fn_eq : t.fn = unpackCallbacks
  length_le : ∀ p ∈ t.pairs, p.1.1.length ≤ 255

lemma shortKeys_new : ShortKeys (new unpackCallbacks) :=
  ⟨wf_new _, rfl, by rw [pairs_new]; exact fun p hp => absurd hp not_mem_nil⟩

lemma ShortKeys.unpackInsert (h : ShortKeys self) {key value : List UInt8}
    (hkey : key.length ≤ 255) (hins : unpackInsert self key value = .ok (some t)) :
    ShortKeys t := by
  obtain ⟨⟨rc, u⟩, hins, he⟩ := bind_eq_ok.mp hins
  dsimp only at he
  split at he
  · obtain ⟨_, _, he⟩ := bind_eq_ok.mp he
    cases he
  · next hrc =>
    rw [not_not] at hrc
    subst hrc
    cases he
    obtain ⟨hwf, hfn, hperm⟩ := h.wf.insert_eq_zero (h.fn_eq ▸ unpackCallbacks_lawful) hins
    refine ⟨hwf, hfn.trans h.fn_eq, fun p hp => ?_⟩
    rcases mem_cons.mp (hperm.mem_iff.mp hp) with rfl | hp
    · rw [h.fn_eq]
      exact le_trans (CString.length_ofBuffer_le key) hkey
    · exact h.length_le p hp

lemma length_of_load {p n : Nat} {bs : List UInt8} (h : load b p n = .ok bs) : bs.length = n := by
  rw [load, Block.slice] at h
  split at h
  · next hs =>
    split at hs
    · next hle =>
      cases h
      cases hs
      rw [length_take, length_drop]
      omega
    · cases hs
  · cases h

lemma ShortKeys.round {ceiling needle : Nat} (h : ShortKeys self)
    {x : (Nat × Dictionary) ⊕ Option Dictionary}
    (hx : unpackRound b ceiling nbrItems (needle, self) = .ok x) :
    Sum.elim (fun s => ShortKeys s.2) (fun r => ∀ t ∈ r, ShortKeys t) x := by
  rw [unpackRound] at hx
  split at hx
  · obtain ⟨size, hsize, hx⟩ := bind_eq_ok.mp hx
    have hle := ofBytes_lt size
    rw [length_of_load hsize] at hle
    dsimp only at hx
    split at hx
    · obtain ⟨key, hkey, hx⟩ := bind_eq_ok.mp hx
      have hlen := length_of_load hkey
      split at hx
      · obtain ⟨valueSize, -, hx⟩ := bind_eq_ok.mp hx
        split at hx
        · obtain ⟨value, -, hx⟩ := bind_eq_ok.mp hx
          obtain ⟨r, hins, hx⟩ := bind_eq_ok.mp hx
          cases r with
          | none =>
            cases hx
            exact fun t ht => absurd ht (Option.not_mem_none t)
          | some t =>
            cases hx
            exact h.unpackInsert (by omega) hins
        · cases hx
          exact h
      · cases hx
        exact h
    · cases hx
      exact h
  · cases hx
    rintro t ⟨⟩
    exact h

lemma shortKeys_of_unpack (h : unpack b = .ok (some t)) : ∀ p ∈ t.pairs, p.1.1.length ≤ 255 := by
  rw [unpack] at h
  split at h
  · cases h
    exact shortKeys_new.length_le
  · obtain ⟨count, -, h⟩ := bind_eq_ok.mp h
    obtain ⟨r, hloop, h⟩ := bind_eq_ok.mp h
    have hshort := untilDone_invariant (fun s : Nat × Dictionary => ShortKeys s.2)
      (fun r => ∀ t ∈ r, ShortKeys t) (fun s hs x hx => hs.round hx) shortKeys_new hloop
    cases r with
    | none => cases h
    | some u =>
      cases h
      exact (hshort u rfl).length_le

lemma length_le_records (ps : List (CString × Option CString)) :
    ps.length ≤ (records ps).length := by
  induction ps with
  | nil => exact le_rfl
  | cons p ps ih =>
    rw [records_cons, length_append, length_record, length_cons]
    omega

lemma unpack_packed {ps : List (CString × Option CString)} (hcount : ps.length < 2 ^ 32)
    (hkeys : ∀ p ∈ ps, p.1.1.length ≤ 255)
    (hvalues : ∀ p ∈ ps, p.2.isSome ∧ (text p.2).length < 2 ^ 32) (hdata : b.data = packed ps) :
    unpack b = .ok (some t) ↔ ∃ u, InsertsTo (new unpackCallbacks) ps u ∧ t = setStrdup u := by
  have hlen : b.data.length = 4 + (records ps).length := by
    rw [hdata, packed, length_append, length_toBytes]
  have hmem := b.end_lt
  have hsplit : b.data = [] ++ toBytes 4 ps.length ++ records ps := hdata
  have hload : load b b.base 4 = .ok (toBytes 4 ps.length) :=
    load_append hsplit rfl (length_toBytes _ _).symm
  have hloop : ∀ u, untilDone .endlessLoop (unpackRound b (b.base + b.data.length) ps.length)
      (b.data.length + 1) (b.base + 4, new unpackCallbacks) = .ok (some u) ↔
        InsertsTo (new unpackCallbacks) ps u := by
    intro u
    cases ps with
    | nil =>
      have hend : unpackRound b (b.base + b.data.length) ([] : List (CString × Option CString)).length
          (b.base + 4, new unpackCallbacks) = .ok (.inr (some (new unpackCallbacks))) := by
        rfl
      rw [untilDone_inr hend, InsertsTo, Except.ok.injEq, Option.some.injEq, eq_comm]
    | cons p ps =>
      have hle := length_le_records (p :: ps)
      have hnbr : (p :: ps).length ≠ 0 := Nat.succ_ne_zero _
      have hiff := untilDone_records (new unpackCallbacks) (t := u) hnbr hkeys hvalues hdata
        (show (p :: ps).length < b.data.length + 1 by omega)
      rwa [length_toBytes] at hiff
  rw [unpack, if_neg (by omega), hload, ok_bind, ofBytes_toBytes_of_lt (by omega),
    ptrAdd_of_lt (by omega), ptrAdd_of_lt (by omega), bind_eq_ok]
  constructor
  · rintro ⟨r, hr, he⟩
    cases r with
    | none => cases he
    | some u =>
      cases he
      exact ⟨u, (hloop u).mp hr, rfl⟩
  · rintro ⟨u, hto, rfl⟩
    exact ⟨some u, (hloop u).mpr hto, rfl⟩

end

/-! ## Round trips -/

/-- Packing returns a frame, and unpacking it anywhere in memory gives the same pairs. -/
def RoundTrips (alloc : Nat → Bool) (t : Dictionary) : Prop :=
  ∃ frame, t.pack alloc = .ok (some frame) ∧ ∀ b : Block, b.data = frame →
    ∃ copy, unpack b = .ok (some copy) ∧ copy.pairs.Perm t.pairs

section
variable {alloc : Nat → Bool} {t : Dictionary}

lemma Reached.unpack_of_fits (h : Reached t) (hcount : t.pairs.length < 2 ^ 32)
    (hkeys : ∀ p ∈ t.pairs, p.1.1.length ≤ 255)
    (hvalues : ∀ p ∈ t.pairs, p.2.isSome ∧ (text p.2).length < 2 ^ 32)
    (hfit : StepsMeet mapStep MapFits (new unpackCallbacks) (inserts t.pairs)) {b : Block}
    (hb : b.data = packed t.pairs) :
    ∃ copy, unpack b = .ok (some copy) ∧ copy.pairs.Perm t.pairs := by
  have hnew : ∀ p ∈ t.pairs, Unbound unpackCallbacks p.1 (new unpackCallbacks).pairs := by
    intro p _ q hq
    exact absurd hq not_mem_nil
  obtain ⟨u, hto, -, -, hperm⟩ := (wf_new unpackCallbacks).insertsTo unpackCallbacks_lawful
    (h.wf.pairwise_pairs.imp fun {p q} hpq he => hpq (by
      rw [Subtype.ext (strcmp_eq_zero_iff.mp he)]
      exact h.lawful.refl _)) hnew hfit
  refine ⟨setStrdup u, (unpack_packed hcount hkeys hvalues hb).mpr ⟨u, hto, rfl⟩, ?_⟩
  have hsame : t.pairs.map (fun p => ((new unpackCallbacks).fn.dupKey p.1,
      (new unpackCallbacks).fn.dupValue p.2)) = t.pairs := map_id' t.pairs
  rw [hsame] at hperm
  exact hperm

end

/-- A dictionary survives packing exactly when no key is longer than its length byte can say, the
loops over the buckets end, and the insertions into the new table have room. -/
theorem unpack_pack_iff {fn : Callbacks CString CString} (hfn : fn.Lawful)
    {ops : List (TableOp CString CString)} (hops : StepsMeet step Steady (new fn) ops)
    {rs : List (Result CString)} {t : Dictionary}
    (hrun : run step (new fn) ops = .ok (rs, t))
    (hvalues : ∀ p ∈ t.pairs, p.2.isSome ∧ (text p.2).length < 2 ^ 32) {alloc : Nat → Bool}
    (hsize : (packed t.pairs).length < 2 ^ 63) (halloc : alloc (packed t.pairs).length = true) :
    RoundTrips alloc t ↔ (∀ p ∈ t.pairs, p.1.1.length ≤ 255) ∧ t.limit < 2 ^ 32 ∧
      StepsMeet mapStep MapFits (new unpackCallbacks) (inserts t.pairs) := by
  have hreached := reached_of_run hfn hops hrun
  have hlength := hreached.wf.toShape.length_pairs
  -- There are fewer items than buckets, so the loops that end also count the items.
  have hpack : t.limit < 2 ^ 32 → t.pack alloc = .ok (some (packed t.pairs)) := fun hlim =>
    pack_eq hreached.wf.toShape hlim (lt_of_le_of_lt hreached.snug hlim)
      (fun it hit => (hvalues _ (mem_map_of_mem hit)).1) hsize halloc
  constructor
  · rintro ⟨frame, hframe, hunpack⟩
    have hlim := limit_lt_of_pack hframe
    have hcount : t.pairs.length < 2 ^ 32 := hlength ▸ lt_of_le_of_lt hreached.snug hlim
    rw [hpack hlim] at hframe
    cases hframe
    obtain ⟨copy, hcopy, hperm⟩ := hunpack (Block.of (packed t.pairs) hsize) rfl
    have hkeys : ∀ p ∈ t.pairs, p.1.1.length ≤ 255 := fun p hp =>
      shortKeys_of_unpack hcopy p (hperm.mem_iff.mpr hp)
    obtain ⟨u, hto, -⟩ := (unpack_packed hcount hkeys hvalues rfl).mp hcopy
    exact ⟨hkeys, hlim, hto.stepsMeet (shape_new _)⟩
  · rintro ⟨hkeys, hlim, hfit⟩
    have hcount : t.pairs.length < 2 ^ 32 := hlength ▸ lt_of_le_of_lt hreached.snug hlim
    exact ⟨packed t.pairs, hpack hlim, fun b hb =>
      hreached.unpack_of_fits hcount hkeys hvalues hfit hb⟩

def oneKey (n : Nat) : List (TableOp CString CString) :=
  [.map (.insert (.ofBuffer (replicate n 97)) (some (.ofBuffer [98])))]

lemma oneKey_steady (n : Nat) :
    StepsMeet step Steady (new unpackCallbacks) (oneKey n) :=
  .cons trivial fun _ _ _ => stepsMeet_nil _

theorem unpack_pack_one_key : ∃ rs t, run step (new unpackCallbacks) (oneKey 3) = .ok (rs, t) ∧
    RoundTrips (fun _ => true) t := by
  refine ⟨_, _, rfl, ?_⟩
  rw [unpack_pack_iff unpackCallbacks_lawful (oneKey_steady 3) rfl (by decide) (by decide) rfl]
  exact ⟨by decide, by decide, InsertsTo.stepsMeet (shape_new _) ⟨_, rfl, rfl⟩⟩

lemma insertFits_new (fn : Callbacks CString CString) (k : CString) : (new fn).InsertFits k := by
  have hload : (new fn).overloaded = false := by
    change decide (primes.getD 0 0 * 75 % 2 ^ 64 / 100 ≤ 0) = false
    decide +kernel
  have hloaded : (new fn).loaded = new fn := by rw [loaded, hload, if_neg Bool.false_ne_true]
  have hchain : (new fn).items.getD ((new fn).bucket k) [] = [] := by
    change (replicate _ []).getD _ [] = []
    rw [getD_eq_getElem?_getD, getElem?_replicate]
    split <;> rfl
  refine ⟨fun h => absurd h (by rw [hload]; exact Bool.false_ne_true), fun h => ?_⟩
  rw [hloaded, chainTooLong, hchain] at h
  cases h

lemma insert_new_pairs (key value : CString) :
    ∃ t, (new unpackCallbacks).insert key (some value) = .ok (0, t) ∧ t.Wf ∧
      t.pairs = [(key, some value)] := by
  have hnew : Unbound unpackCallbacks key (new unpackCallbacks).pairs := by
    intro q hq
    exact absurd hq not_mem_nil
  obtain ⟨t, hins, hwf, -, hperm⟩ := (wf_new unpackCallbacks).insert_new unpackCallbacks_lawful
    (some value) hnew (insertFits_new _ key)
  rw [pairs_new, perm_singleton] at hperm
  exact ⟨t, hins, hwf, hperm⟩

lemma not_roundTrips_of_insert (key value : CString) (hkey : 255 < key.1.length)
    (hsize : key.1.length + value.1.length < 2 ^ 62) :
    ∃ t, (new unpackCallbacks).insert key (some value) = .ok (0, t) ∧
      ¬ RoundTrips (fun _ => true) t := by
  obtain ⟨t, hins, hwf, hpairs⟩ := insert_new_pairs key value
  refine ⟨t, hins, ?_⟩
  rintro ⟨frame, hframe, hunpack⟩
  have hlength : (packed t.pairs).length < 2 ^ 63 := by
    rw [hpairs, packed, length_append, records_cons, length_append,
      length_record]
    change 4 + (1 + key.1.length + (4 + value.1.length) + 0) < _
    omega
  have hcount : t.size < 2 ^ 32 := by
    rw [← hwf.toShape.length_pairs, hpairs]
    exact Nat.one_lt_two_pow (by decide)
  have hvalues : ∀ it ∈ t.all, it.value.isSome := by
    intro it hit
    have hmem : (it.key, it.value) ∈ t.pairs := mem_map_of_mem hit
    rw [hpairs, mem_singleton, Prod.mk.injEq] at hmem
    rw [hmem.2]
    rfl
  rw [pack_eq hwf.toShape (limit_lt_of_pack hframe) hcount hvalues hlength rfl] at hframe
  cases hframe
  obtain ⟨copy, hcopy, hcopied⟩ := hunpack (Block.of (packed t.pairs) hlength) rfl
  have hmem : (key, some value) ∈ copy.pairs := hcopied.mem_iff.mpr (by rw [hpairs]; simp)
  have hshort := shortKeys_of_unpack hcopy _ hmem
  dsimp only at hshort
  omega

theorem unpack_pack_long_key :
    ∃ rs t, run step (new unpackCallbacks) (oneKey 256) = .ok (rs, t) ∧
      ¬ RoundTrips (fun _ => true) t := by
  have hkey : (CString.ofBuffer (replicate 256 97)).1.length = 256 := by decide +kernel
  have hvalue : (CString.ofBuffer [98]).1.length = 1 := by decide
  obtain ⟨t, hins, hnot⟩ := not_roundTrips_of_insert (.ofBuffer (replicate 256 97))
    (.ofBuffer [98]) (by rw [hkey]; omega) (by rw [hkey]; omega)
  exact ⟨[.rc 0], t, by rw [oneKey, run, step, mapStep, hins]; rfl, hnot⟩

end Czmq.Zhashx
