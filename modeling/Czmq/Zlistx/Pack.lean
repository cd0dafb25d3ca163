import Czmq.Zhashx.Views
import Czmq.Zlistx.Handles
import Czmq.Zlistx.Sorted

/-! The packed form of a list of strings: their number, then each behind a length of four bytes. The
unpacker stops at the end of the frame, not at the number; its size is summed up in a `size_t`. -/

namespace Czmq.Zlistx

open List Prod Bytes

variable {fn : ListCallbacks CString} {t : Zlistx CString} {a : CursorList CString}

def walk {σ : Type} (body : σ → CString → Except Fault σ) :
    Nat → Zlistx CString → Option CString → σ → Except Fault (σ × Zlistx CString)
  | 0, _, _, _ => .error .endlessLoop
  | _ + 1, t, none, s => .ok (s, t)
  | n + 1, t, some item, s => do
    let s ← body s item
    let (item, t) ← t.nextItem
    walk body n t item s

def forEach {σ : Type} (body : σ → CString → Except Fault σ) (t : Zlistx CString) (s : σ) :
    Except Fault (σ × Zlistx CString) := do
  let (item, t) ← t.first
  walk body (t.size + 1) t item s

def measure (frameSize : Nat) (item : CString) : Except Fault Nat :=
  .ok ((frameSize + (4 + item.1.length)) % 2 ^ 64)

def longstr (item : List UInt8) : List UInt8 := toBytes 4 item.length ++ item

def store (frameSize : Nat) (dest bytes : List UInt8) : Except Fault (List UInt8) :=
  if (dest ++ bytes).length ≤ frameSize then .ok (dest ++ bytes) else .error (.outOfBounds frameSize)

/-- `zlistx_pack`: the frame, or `none` where `zframe_new` finds no memory. -/
def pack (alloc : Nat → Bool) (t : Zlistx CString) :
    Except Fault (Option (List UInt8) × Zlistx CString) := do
  let (frameSize, t) ← forEach measure t 4
  if alloc frameSize then do
    let dest ← store frameSize [] (toBytes 4 t.size)
    let (dest, t) ← forEach (fun dest item => store frameSize dest (longstr item.1)) t dest
    pure (some dest, t)
  else pure (none, t)

def unpackCallbacks (site : ListSite CString) : ListCallbacks CString := ⟨none, true, site.comparator⟩

/-- One round of the loop, on `needle` and the list. `nbr_items` never changes. -/
def unpackRound (site : ListSite CString) (b : Block) (ceiling nbrItems : Nat)
    (s : Nat × Zlistx CString) : Except Fault ((Nat × Zlistx CString) ⊕ Option (Zlistx CString)) :=
  if nbrItems ≠ 0 ∧ s.1 < ceiling then
    if ptrAdd s.1 4 ≤ ceiling then do
      let length := ofBytes (← load b s.1 4)
      let needle := ptrAdd s.1 4
      if ptrAdd needle length ≤ ceiling then do
        let item ← load b needle length
        let (_, self) ← s.2.addEnd (site.node s.2.size) (some (.ofBuffer (item ++ [0])))
        pure (.inl (ptrAdd needle length, self))
      else do
        let _ ← s.2.purge
        pure (.inr none)
    else do
      let _ ← s.2.purge
      pure (.inr none)
  else pure (.inr (some s.2))

def setStrdup (t : Zlistx CString) : Zlistx CString := { t with fn := { t.fn with duplicator := some id } }

def unpack (site : ListSite CString) (b : Block) : Except Fault (Option (Zlistx CString)) :=
  if b.data.length < 4 then .ok (some (new site.memory site.head (unpackCallbacks site)))
  else do
    let nbrItems := ofBytes (← load b b.base 4)
    let self ← Loop.untilDone .endlessLoop
      (unpackRound site b (ptrAdd b.base b.data.length) nbrItems) (b.data.length + 1)
      (ptrAdd b.base 4, new site.memory site.head (unpackCallbacks site))
    pure (self.map setStrdup)

/-! ## Both passes of the packer -/

section
variable {σ : Type} {es fs : List (Nat × Option CString)} {items : List CString}

lemma head?_bind_snd (hitems : fs.map snd = items.map some) :
    fs.head?.bind snd = items.head? := by
  cases fs with
  | nil =>
    obtain rfl : items = [] := by simpa using hitems.symm
    rfl
  | cons e fs =>
    obtain _ | ⟨x, items⟩ := items
    · exact absurd hitems (by simp)
    · exact (cons.inj hitems).1

lemma Refines.walk (h : Refines fn t a) (hsplit : a.entries = es ++ fs)
    (hc : a.cursor = fs.head?.map fst) (hitems : fs.map snd = items.map some) {n : Nat}
    (hn : fs.length < n) (body : σ → CString → Except Fault σ) :
    ∃ t', Refines fn t' { a with cursor := none } ∧ ∀ s, Zlistx.walk body n t items.head? s =
      (items.foldlM body s >>= fun s => .ok (s, t')) := by
  induction fs generalizing t a es items n with
  | nil =>
    obtain rfl : items = [] := by simpa using hitems.symm
    obtain ⟨n, rfl⟩ := Nat.exists_eq_add_of_lt hn
    obtain ⟨entries, cursor, destroyed⟩ := a
    obtain rfl : cursor = none := hc
    exact ⟨t, h, fun s => rfl⟩
  | cons e fs ih =>
    obtain ⟨n, rfl⟩ : ∃ m, n = m + 1 := ⟨n - 1, by omega⟩
    obtain _ | ⟨x, items⟩ := items
    · exact absurd hitems (by simp)
    rw [map_cons, map_cons, cons.injEq] at hitems
    have hsplit' : a.entries = es ++ [e] ++ fs := by rw [hsplit, append_assoc]; rfl
    have hnodup : (handles (es ++ [e])).Nodup := by
      have hall := h.holds.nodup
      rw [hsplit', handles_append, nodup_append] at hall
      exact hall.1
    have hlast : a.cursor = (es ++ [e]).getLast?.map fst := by rw [hc, getLast?_concat]; rfl
    obtain ⟨t1, item, hnext, hitem, h1⟩ := h.nextItem
    rw [CursorList.step_next_eq_goTo fn hsplit' hnodup hlast] at hitem h1
    rw [length_cons, Nat.add_lt_add_iff_right] at hn
    obtain ⟨t', h', hwalk⟩ := ih h1 hsplit' rfl hitems.2 hn
    refine ⟨t', h', fun s => ?_⟩
    rw [foldlM_cons, bind_assoc]
    refine bind_congr fun s => ?_
    rw [hnext, ok_bind, ← hwalk s, ← head?_bind_snd hitems.2, ← ListResult.ptr.inj hitem]

lemma Refines.forEach (h : Refines fn t a) (hitems : a.entries.map snd = items.map some)
    (body : σ → CString → Except Fault σ) :
    ∃ t', Refines fn t' { a with cursor := none } ∧ ∀ s, Zlistx.forEach body t s =
      (items.foldlM body s >>= fun s => .ok (s, t')) := by
  obtain ⟨t1, hfirst, h1⟩ := h.first
  have hsize : a.entries.length < t1.size + 1 := by rw [h1.size_eq]; exact Nat.lt_succ_self _
  obtain ⟨t', h', hwalk⟩ := h1.walk (nil_append _).symm rfl hitems hsize body
  refine ⟨t', h', fun s => ?_⟩
  rw [Zlistx.forEach, hfirst, ok_bind, ← hwalk s, ← head?_bind_snd hitems]

def packed (items : List CString) : List UInt8 :=
  toBytes 4 items.length ++ items.flatMap fun item => longstr item.1

def textSize (items : List CString) : Nat := (items.map fun item => 4 + item.1.length).sum

lemma textSize_cons (item : CString) (items : List CString) :
    textSize (item :: items) = 4 + item.1.length + textSize items := rfl

lemma length_longstr (item : List UInt8) : (longstr item).length = 4 + item.length := by
  rw [longstr, length_append, length_toBytes]

lemma length_flatMap_longstr (items : List CString) :
    (items.flatMap fun item => longstr item.1).length = textSize items := by
  induction items with
  | nil => rfl
  | cons item items ih => rw [flatMap_cons, length_append, length_longstr, ih, textSize_cons]

lemma length_packed (items : List CString) : (packed items).length = 4 + textSize items := by
  rw [packed, length_append, length_toBytes, length_flatMap_longstr]

lemma foldlM_measure (items : List CString) {n : Nat} (hn : n < 2 ^ 64) :
    items.foldlM measure n = .ok ((n + textSize items) % 2 ^ 64) := by
  induction items generalizing n with
  | nil => exact congrArg Except.ok (Nat.mod_eq_of_lt hn).symm
  | cons item items ih =>
    rw [foldlM_cons, measure, ok_bind, ih (Nat.mod_lt _ (by decide)), Nat.mod_add_mod,
      textSize_cons, Nat.add_assoc]

lemma foldlM_store {frameSize : Nat} (items : List CString) {dest : List UInt8}
    (hfit : dest.length + textSize items ≤ frameSize) :
    items.foldlM (fun dest item => store frameSize dest (longstr item.1)) dest =
      .ok (dest ++ items.flatMap fun item => longstr item.1) := by
  induction items generalizing dest with
  | nil => exact congrArg Except.ok (append_nil dest).symm
  | cons item items ih =>
    rw [textSize_cons] at hfit
    have hlength : (dest ++ longstr item.1).length = dest.length + (4 + item.1.length) := by
      rw [length_append, length_longstr]
    rw [foldlM_cons, store, if_pos (by omega), ok_bind, ih (by omega), flatMap_cons,
      append_assoc]

lemma foldlM_store_of_lt {frameSize : Nat} (items : List CString) {dest : List UInt8}
    (hdest : dest.length ≤ frameSize) (hfull : frameSize < dest.length + textSize items) :
    items.foldlM (fun dest item => store frameSize dest (longstr item.1)) dest =
      .error (.outOfBounds frameSize) := by
  induction items generalizing dest with
  | nil => exact absurd hfull (not_lt.mpr hdest)
  | cons item items ih =>
    rw [textSize_cons] at hfull
    have hlength : (dest ++ longstr item.1).length = dest.length + (4 + item.1.length) := by
      rw [length_append, length_longstr]
    rw [foldlM_cons, store]
    by_cases hroom : (dest ++ longstr item.1).length ≤ frameSize
    · rw [if_pos hroom]
      exact ih hroom (by omega)
    · rw [if_neg hroom, error_bind]

lemma Refines.pack_eq (h : Refines fn t a) (hitems : a.entries.map snd = items.map some)
    {alloc : Nat → Bool} (halloc : alloc ((4 + textSize items) % 2 ^ 64) = true) :
    ∃ t', Refines fn t' { a with cursor := none } ∧ t.pack alloc =
      if 4 + textSize items < 2 ^ 64 then .ok (some (packed items), t')
      else .error (.outOfBounds ((4 + textSize items) % 2 ^ 64)) := by
  obtain ⟨t1, h1, hmeasure⟩ := h.forEach hitems measure
  obtain ⟨t', h', hstore⟩ := h1.forEach hitems fun dest item =>
    store ((4 + textSize items) % 2 ^ 64) dest (longstr item.1)
  have hsize : t1.size = items.length := by
    have hlength := congrArg length hitems
    rw [length_map, length_map] at hlength
    exact h1.size_eq.trans hlength
  refine ⟨t', h', ?_⟩
  rw [pack, hmeasure, foldlM_measure items (by decide), ok_bind, ok_bind]
  dsimp only
  rw [if_pos halloc, hsize, store, nil_append, length_toBytes]
  by_cases hfits : 4 + textSize items < 2 ^ 64
  · have hfour : 4 ≤ (4 + textSize items) % 2 ^ 64 := by
      rw [Nat.mod_eq_of_lt hfits]
      exact Nat.le_add_right ..
    rw [if_pos hfits, if_pos hfour, ok_bind, hstore, foldlM_store items
      (by rw [length_toBytes, Nat.mod_eq_of_lt hfits])]
    rfl
  · rw [if_neg hfits]
    by_cases hfour : 4 ≤ (4 + textSize items) % 2 ^ 64
    · have hless : (4 + textSize items) % 2 ^ 64 < 4 + textSize items :=
        lt_of_lt_of_le (Nat.mod_lt _ (by decide)) (not_lt.mp hfits)
      rw [if_pos hfour, ok_bind, hstore, foldlM_store_of_lt items
        (by rw [length_toBytes]; exact hfour) (by rw [length_toBytes]; exact hless)]
      rfl
    · rw [if_neg hfour]
      rfl

end

/-! ## The unpacker on a packed frame -/

section
variable {site : ListSite CString} {b : Block} {pre post : List UInt8} {items : List CString}
  {nbrItems : Nat}

lemma unpackRound_longstr {self self' : Zlistx CString} {item : CString} {n : Nat} (hnbr : nbrItems ≠ 0)
    (hitem : item.1.length < 2 ^ 32) (hdata : b.data = pre ++ longstr item.1 ++ post)
    (hadd : self.addEnd (site.node self.size) (some item) = .ok (n, self')) :
    unpackRound site b (b.base + b.data.length) nbrItems (b.base + pre.length, self) =
      .ok (.inl (b.base + (pre ++ longstr item.1).length, self')) := by
  have hmem := b.end_lt
  have hsize : b.data = pre ++ toBytes 4 item.1.length ++ (item.1 ++ post) := by
    rw [hdata, longstr]
    simp only [append_assoc]
  have htext : b.data = (pre ++ toBytes 4 item.1.length) ++ item.1 ++ post := by
    rw [hsize]
    simp only [append_assoc]
  have hlen : b.data.length = pre.length + (4 + item.1.length) + post.length := by
    rw [hdata, length_append, length_append, length_longstr]
  -- where `needle` is behind the length, and behind the string
  have hp1 : ptrAdd (b.base + pre.length) 4 = b.base + pre.length + 4 := ptrAdd_of_lt (by omega)
  have hp2 : ptrAdd (b.base + pre.length + 4) item.1.length =
      b.base + pre.length + 4 + item.1.length := ptrAdd_of_lt (by omega)
  have hload : load b (b.base + pre.length + 4) item.1.length = .ok item.1 :=
    load_append htext (by rw [length_append, length_toBytes, Nat.add_assoc]) rfl
  have hend : b.base + (pre ++ longstr item.1).length = b.base + pre.length + 4 + item.1.length := by
    rw [length_append, length_longstr]
    omega
  rw [unpackRound, if_pos ⟨hnbr, by dsimp only; omega⟩, hp1, if_pos (by omega),
    load_append hsize rfl (length_toBytes _ _).symm, ok_bind, ofBytes_toBytes_of_lt hitem]
  dsimp only
  rw [hp2, if_pos (by omega), hload, ok_bind, CString.ofBuffer_terminated, hadd, hend]
  rfl

lemma untilDone_longstrs (hsite : site.Fresh) (hnbr : nbrItems ≠ 0)
    (hitems : ∀ item ∈ items, item.1.length < 2 ^ 32) {self : Zlistx CString}
    {a : CursorList CString} (hfilled : Zhashx.Filled site (unpackCallbacks site) self a)
    (hdata : b.data = pre ++ items.flatMap fun item => longstr item.1) {n : Nat} (hn : items.length < n) :
    ∃ self' a', Loop.untilDone .endlessLoop (unpackRound site b (b.base + b.data.length) nbrItems) n
        (b.base + pre.length, self) = .ok (some self') ∧
      Zhashx.Filled site (unpackCallbacks site) self' a' ∧
      a'.entries.map snd = a.entries.map snd ++ items.map some := by
  induction items generalizing pre self a n with
  | nil =>
    obtain ⟨n, rfl⟩ := Nat.exists_eq_add_of_lt hn
    have hpre : pre.length = b.data.length := by rw [hdata]; simp
    refine ⟨self, a, ?_, hfilled, by simp⟩
    rw [Loop.untilDone_inr]
    rw [unpackRound, if_neg (by rw [hpre]; exact fun hguard => lt_irrefl _ hguard.2)]
    rfl
  | cons item items ih =>
    obtain ⟨n, rfl⟩ : ∃ m, n = m + 1 := ⟨n - 1, by omega⟩
    rw [forall_mem_cons] at hitems
    have hdata' : b.data = pre ++ longstr item.1 ++ items.flatMap fun item => longstr item.1 := by
      rw [hdata, flatMap_cons, append_assoc]
    have hdup : (unpackCallbacks site).CanDup (some item) := fun hsome => absurd hsome Bool.false_ne_true
    obtain ⟨self1, a1, hadd, hfilled1, ha1⟩ := hfilled.addEnd hsite rfl hdup
    obtain ⟨self', a', hloop, hfilled', ha'⟩ := ih hitems.2 hfilled1 hdata' (Nat.lt_of_succ_lt_succ hn)
    refine ⟨self', a', ?_, hfilled', ?_⟩
    · rw [Loop.untilDone_inl (unpackRound_longstr hnbr hitems.1 hdata' hadd), hloop]
    · rw [ha', ha1, append_assoc]
      rfl

lemma length_le_textSize (items : List CString) : items.length ≤ textSize items := by
  induction items with
  | nil => exact le_rfl
  | cons item items ih =>
    rw [textSize_cons, length_cons]
    omega

lemma Refines.setStrdup (h : Refines fn t a) : Refines t.setStrdup.fn t.setStrdup a :=
  ⟨h.holds.congr rfl rfl, h.size_eq, h.cursor_eq, h.cursor_mem, h.destroyed_eq, rfl⟩

lemma unpack_packed (hsite : site.Fresh) (hcount : items.length < 2 ^ 32)
    (hitems : ∀ item ∈ items, item.1.length < 2 ^ 32) (hdata : b.data = packed items) :
    ∃ copy a', unpack site b = .ok (some copy) ∧ Refines copy.fn copy a' ∧
      a'.entries.map snd = items.map some := by
  have hlen : b.data.length = 4 + textSize items := by rw [hdata, length_packed]
  have hmem := b.end_lt
  have hsplit : b.data = [] ++ toBytes 4 items.length ++ items.flatMap fun item => longstr item.1 :=
    hdata
  have hload : load b b.base 4 = .ok (toBytes 4 items.length) :=
    load_append hsplit rfl (length_toBytes _ _).symm
  have hnew : Zhashx.Filled site (unpackCallbacks site)
      (new site.memory site.head (unpackCallbacks site)) .empty := ⟨refines_new _ _ _, rfl, rfl⟩
  rw [unpack, if_neg (by omega), hload, ok_bind, ofBytes_toBytes_of_lt hcount, ptrAdd_of_lt (by omega),
    ptrAdd_of_lt (by omega)]
  dsimp only
  cases items with
  | nil =>
    refine ⟨_, _, ?_, hnew.refines.setStrdup, rfl⟩
    have hround : unpackRound site b (b.base + b.data.length) 0
        (b.base + 4, new site.memory site.head (unpackCallbacks site)) =
          .ok (.inr (some (new site.memory site.head (unpackCallbacks site)))) :=
      if_neg fun hguard => hguard.1 rfl
    rfl
  | cons item items =>
    have hle := length_le_textSize (item :: items)
    have hnbr : (item :: items).length ≠ 0 := Nat.succ_ne_zero _
    obtain ⟨self, a', hloop, hfilled, ha'⟩ := untilDone_longstrs hsite hnbr hitems hnew hdata
      (show (item :: items).length < b.data.length + 1 by omega)
    rw [length_toBytes] at hloop
    refine ⟨self.setStrdup, a', ?_, hfilled.refines.setStrdup, ha'⟩
    rw [hloop]
    rfl

end

/-! ## Round trips -/

/-- Packing returns a frame that memory can hold, and unpacking it anywhere gives the same strings
in order. -/
def RoundTrips (alloc : Nat → Bool) (site : ListSite CString) (t : Zlistx CString)
    (items : List CString) : Prop :=
  ∃ frame t', t.pack alloc = .ok (some frame, t') ∧ frame.length < 2 ^ 63 ∧
    ∀ b : Block, b.data = frame → ∃ copy a', unpack site b = .ok (some copy) ∧
      Refines copy.fn copy a' ∧ a'.entries.map snd = items.map some

/-- A list of strings survives packing exactly when a `size_t` can hold the size of its frame, no
object being as large as half the address space and memory being there. -/
theorem unpack_pack_strings_iff (h : Refines fn t a) {items : List CString}
    (hstrings : a.entries.map snd = items.map some) (hcount : items.length < 2 ^ 32)
    (hitems : ∀ item ∈ items, item.1.length < 2 ^ 32) {alloc : Nat → Bool}
    (hobject : ∀ n, alloc n = true → n < 2 ^ 63)
    (halloc : alloc ((4 + textSize items) % 2 ^ 64) = true) {site : ListSite CString}
    (hsite : site.Fresh) : RoundTrips alloc site t items ↔ 4 + textSize items < 2 ^ 64 := by
  obtain ⟨t', -, hpack⟩ := h.pack_eq hstrings halloc
  constructor
  · rintro ⟨frame, t₁, hframe, -⟩
    by_contra hlarge
    rw [hpack, if_neg hlarge] at hframe
    cases hframe
  · intro hfits
    have hsize := hobject _ halloc
    rw [Nat.mod_eq_of_lt hfits, ← length_packed] at hsize
    rw [if_pos hfits] at hpack
    exact ⟨packed items, t', hpack, hsize, fun b hb => unpack_packed hsite hcount hitems hb⟩

lemma exists_refines_strings (items : List CString) :
    ∃ t a, Refines (comparing fun _ _ => 0) t a ∧ a.entries.map snd = items.map some := by
  have hnew := refines_new (⟨fun _ => 0, fun _ => 0, fun _ => none, fun _ => false⟩ : Heap CString) 0
    (comparing fun _ _ => 0)
  have htag : ∀ x, 1 ≤ x → (new (⟨fun _ => 0, fun _ => 0, fun _ => none, fun _ => false⟩ : Heap CString)
      0 (comparing fun _ _ => 0)).tag x = false := by
    intro x hx
    exact Function.update_of_ne (Nat.one_le_iff_ne_zero.mp hx) ..
  obtain ⟨t, a, -, h, hitems, -⟩ := hnew.addAll htag rfl items
  exact ⟨t, a, h, hitems⟩

lemma zero_not_mem_replicate (n : Nat) : (0 : UInt8) ∉ replicate n 97 :=
  fun h => absurd (eq_of_mem_replicate h) (by decide)

def letters (n : Nat) : CString := ⟨replicate n 97, zero_not_mem_replicate n⟩

/-- Two strings and an empty one at the end. -/
theorem unpack_pack_strings_three : ∃ t a, Refines (comparing fun _ _ => 0) t a ∧
    a.entries.map snd = [some (letters 2), some (letters 1), some (letters 0)] ∧
    RoundTrips (fun n => decide (n < 100)) Zhashx.row t [letters 2, letters 1, letters 0] := by
  obtain ⟨t, a, h, hitems⟩ := exists_refines_strings [letters 2, letters 1, letters 0]
  have hobject : ∀ n, decide (n < 100) = true → n < 2 ^ 63 := fun n hn =>
    lt_trans (of_decide_eq_true hn) (by decide)
  exact ⟨t, a, h, hitems, (unpack_pack_strings_iff h hitems (by decide) (by decide) hobject (by decide)
    Zhashx.row_fresh).mpr (by decide)⟩

lemma pack_replicate (n m : Nat) {alloc : Nat → Bool} (hlarge : 2 ^ 64 ≤ 4 + n * (4 + m))
    (halloc : alloc ((4 + n * (4 + m)) % 2 ^ 64) = true) :
    ∃ t a, Refines (comparing fun _ _ => 0) t a ∧
      a.entries.map snd = replicate n (some (letters m)) ∧
      t.pack alloc = .error (.outOfBounds ((4 + n * (4 + m)) % 2 ^ 64)) := by
  obtain ⟨t, a, h, hitems⟩ := exists_refines_strings (replicate n (letters m))
  have hsize : textSize (replicate n (letters m)) = n * (4 + m) := by
    rw [textSize, map_replicate, sum_replicate, smul_eq_mul, letters, length_replicate]
  rw [← hsize] at hlarge halloc ⊢
  obtain ⟨t', -, hpack⟩ := h.pack_eq hitems halloc
  refine ⟨t, a, h, by rw [hitems, map_replicate], ?_⟩
  rw [hpack, if_neg (not_lt.mpr hlarge)]

/-- The same long string `2 ^ 32 - 1` times: the sum comes out as `2 ^ 33 + 1`, and the second
string is written behind the frame. -/
theorem pack_overruns_frame : ∃ t a, Refines (comparing fun _ _ => 0) t a ∧
    a.entries.map snd = replicate (2 ^ 32 - 1) (some (letters (2 ^ 32 - 1))) ∧
    t.pack (fun n => decide (n < 2 ^ 63)) = .error (.outOfBounds (2 ^ 33 + 1)) := by
  have hmod : (4 + (2 ^ 32 - 1) * (4 + (2 ^ 32 - 1))) % 2 ^ 64 = 2 ^ 33 + 1 := by decide
  apply pack_replicate
  · decide
  ·
    decide

end Czmq.Zlistx
