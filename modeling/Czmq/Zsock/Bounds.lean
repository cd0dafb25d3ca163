import Czmq.Base.Machine
import Czmq.Zsock.Picture

/-! What `zsock_brecv` reads of its data frame and writes into the string cache, for any picture and
bytes. The element that reads unchecked is `'p'`, and the one that writes into the cache is `'s'`.
-/

namespace Czmq.Zsock

open List Machine Bytes

/-! ## Reading and storing -/

def fetch (b : Block) (ceiling needle : Nat) : Element → Except Fault (Option (List UInt8 × Nat))
  | .number1 => take b ceiling needle 1
  | .number2 => take b ceiling needle 2
  | .number4 => take b ceiling needle 4
  | .number8 => take b ceiling needle 8
  | .pointer => do
    let repr ← load b needle 8
    pure (some (repr, ptrAdd needle 8))
  | .string => unlessMalformed (getNumber b ceiling needle 1) fun p => take b ceiling p.2 p.1
  | .longstr | .chunk =>
    unlessMalformed (getNumber b ceiling needle 4) fun p => takeLimited b ceiling p.2 p.1
  | .uuid => takeLimited b ceiling needle 16
  | .frame | .msg => .ok (some ([], needle))

def cacheString (junk : Nat → UInt8) (s : Reader) (string : List UInt8) :
    Except Fault (Output × Reader) := do
  let end_ := (s.cacheUsed + string.length) % 2 ^ 32
  let cache ← (s.cache.expand junk end_).write s.cacheUsed string
  let cache ← cache.write end_ [0]
  pure (.string cache.generation s.cacheUsed,
    { s with cache := cache, cacheUsed := (end_ + 1) % 2 ^ 32 })

def keep (junk : Nat → UInt8) (last : Bool) (s : Reader) (bs : List UInt8) :
    Element → Except Fault (Option (Output × Reader))
  | .number1 => .ok (some (.number1 (UInt8.ofNat (ofBytes bs)), s))
  | .number2 => .ok (some (.number2 (UInt16.ofNat (ofBytes bs)), s))
  | .number4 => .ok (some (.number4 (UInt32.ofNat (ofBytes bs)), s))
  | .number8 => .ok (some (.number8 (UInt64.ofNat (ofBytes bs)), s))
  | .pointer => .ok (some (.pointer bs, s))
  | .string => (cacheString junk s bs).map some
  | .longstr => .ok (some (.longstr (bs ++ [0]), s))
  | .chunk => .ok (some (.chunk bs, s))
  | .uuid => .ok (some (.uuid bs, s))
  | .frame =>
    if s.more then
      match s.parts with
      | [] => .error .endlessLoop
      | (frame, more) :: parts => .ok (some (.frame frame, { s with more := more, parts := parts }))
    else .ok none
  | .msg =>
    if last then
      if s.more then do
        let (msg, parts) ← zmsgRecv Zmsg.new s.parts
        pure (some (.msg msg, { s with more := false, parts := parts }))
      else .ok none
    else .error .assertion

lemma unlessMalformed_assoc {α β γ : Type} (read : Except Fault (Option α))
    (f : α → Except Fault (Option β)) (g : β → Except Fault (Option γ)) :
    unlessMalformed (unlessMalformed read f) g =
      unlessMalformed read fun a => unlessMalformed (f a) g := by
  rcases read with e | _ | a <;> rfl

section
variable {b : Block} {limit needle p : Nat} {bs : List UInt8}

lemma take_some {size : Nat} (h : take b limit needle size = .ok (some (bs, p))) :
    bs.length = size ∧ p = needle + size ∧ p ≤ b.base + b.data.length := by
  have hend := b.end_lt
  rw [take] at h
  split at h
  · cases h
  · obtain ⟨bs', hload, h⟩ := bind_eq_ok.mp h
    cases h
    obtain ⟨hbase, hsize, rfl⟩ := load_eq_ok.mp hload
    rw [length_take, length_drop, ptrAdd_of_lt (by omega)]
    omega

lemma takeLimited_some {size : Nat} (h : takeLimited b limit needle size = .ok (some (bs, p))) :
    p = needle + size ∧ p ≤ b.base + b.data.length := by
  rw [takeLimited] at h
  split at h
  · cases h
  · exact (take_some h).2

lemma getNumber_some {w n : Nat} (h : getNumber b limit needle w = .ok (some (n, p))) :
    n < 256 ^ w ∧ p = needle + w := by
  rw [getNumber] at h
  cases htake : take b limit needle w with
  | error e => rw [htake] at h; cases h
  | ok read =>
    rw [htake] at h
    rcases read with _ | ⟨bs, p'⟩
    · cases h
    · cases h
      obtain ⟨hlen, hp, -⟩ := take_some htake
      exact ⟨hlen ▸ ofBytes_lt bs, hp⟩

lemma unlessMalformed_eq_some {α β : Type} {read : Except Fault (Option α)}
    {next : α → Except Fault (Option β)} {r : β} (h : unlessMalformed read next = .ok (some r)) :
    ∃ a, read = .ok (some a) ∧ next a = .ok (some r) := by
  rcases read with e | _ | a
  · cases h
  · cases h
  · exact ⟨a, rfl, h⟩

lemma fetch_string_some (h : fetch b limit needle .string = .ok (some (bs, p))) :
    bs.length < 256 ∧ p = needle + (bs.length + 1) ∧ p ≤ b.base + b.data.length := by
  obtain ⟨⟨n, p1⟩, hnumber, htake⟩ := unlessMalformed_eq_some h
  obtain ⟨hn, hp1⟩ := getNumber_some hnumber
  obtain ⟨hlen, hp, hend⟩ := take_some htake
  omega

lemma fetch_some {e : Element} (hneedle : needle ≤ b.base + b.data.length)
    (h : fetch b limit needle e = .ok (some (bs, p))) :
    needle ≤ p ∧ p ≤ b.base + b.data.length := by
  cases e with
  | number1 | number2 | number4 | number8 =>
    obtain ⟨-, hp, hend⟩ := take_some h
    omega
  | uuid =>
    obtain ⟨hp, hend⟩ := takeLimited_some h
    omega
  | pointer =>
    have hlimit := b.end_lt
    obtain ⟨repr, hload, h⟩ := bind_eq_ok.mp h
    cases h
    obtain ⟨-, hsize, -⟩ := load_eq_ok.mp hload
    rw [ptrAdd_of_lt (by omega)]
    omega
  | string =>
    obtain ⟨-, hp, hend⟩ := fetch_string_some h
    omega
  | longstr | chunk =>
    obtain ⟨⟨n, p1⟩, hnumber, htake⟩ := unlessMalformed_eq_some h
    obtain ⟨-, hp1⟩ := getNumber_some hnumber
    obtain ⟨hp, hend⟩ := takeLimited_some htake
    omega
  | frame | msg =>
    cases h
    exact ⟨le_rfl, hneedle⟩

end

lemma get_eq (junk : Nat → UInt8) (b : Block) (ceiling : Nat) (last : Bool) (s : Reader)
    (e : Element) :
    get junk b ceiling last s e =
      unlessMalformed (fetch b ceiling s.needle e) fun p =>
        keep junk last { s with needle := p.2 } p.1 e := by
  cases e with
  | number1 | number2 | number4 | number8 => exact unlessMalformed_assoc ..
  | longstr | chunk => exact (unlessMalformed_assoc ..).symm
  | uuid => rfl
  | pointer =>
    simp only [get, fetch]
    cases load b s.needle 8 <;> rfl
  | frame => cases s with | mk _ _ _ more parts => cases more <;> cases parts <;> rfl
  | msg => cases s with | mk _ _ _ more parts => cases last <;> cases more <;> rfl
  | string =>
    simp only [get, fetch, unlessMalformed_assoc]
    congr 1
    funext p
    cases htake : take b ceiling p.2 p.1 with
    | error e => rfl
    | ok read =>
      cases read with
      | none => rfl
      | some q =>
        have hlen : q.1.length = p.1 := (take_some htake).1
        simp only [unlessMalformed, ok_bind, keep, cacheString, hlen]
        cases (s.cache.expand junk ((s.cacheUsed + p.1) % 2 ^ 32)).write s.cacheUsed q.1 with
        | error e => rfl
        | ok cache =>
          simp only [ok_bind]
          cases cache.write ((s.cacheUsed + p.1) % 2 ^ 32) [0] <;> rfl

lemma keep_cases {junk : Nat → UInt8} {last : Bool} {s s' : Reader} {bs : List UInt8} {e : Element}
    {out : Output} (h : keep junk last s bs e = .ok (some (out, s'))) :
    e = .string ∧ cacheString junk s bs = .ok (out, s') ∨
      e ≠ .string ∧ s'.needle = s.needle ∧ s'.cache = s.cache ∧ s'.cacheUsed = s.cacheUsed ∧
        ∀ generation offset, out ≠ .string generation offset := by
  cases e with
  | string =>
    obtain ⟨r, hr, h⟩ := exists_of_map_eq_ok h
    cases h
    exact .inl ⟨rfl, hr⟩
  | number1 | number2 | number4 | number8 | pointer | longstr | chunk | uuid =>
    cases h
    exact .inr (by simp)
  | frame =>
    rw [keep] at h
    split at h
    · split at h
      · cases h
      · cases h
        exact .inr (by simp)
    · cases h
  | msg =>
    rw [keep] at h
    split at h
    · split at h
      · obtain ⟨p, -, h⟩ := bind_eq_ok.mp h
        cases h
        exact .inr (by simp)
      · cases h
    · cases h

/-! ## What an element reads -/

def ceiling (b : Block) : Nat := ptrAdd b.base b.data.length

def ahead (b : Block) (needle : Nat) : List UInt8 := b.data.drop (needle - b.base)

/-- The size of bytes behind their length in `w` bytes. A length beyond the limit on allocations is
refused. -/
def withLength (w : Nat) (rest : List UInt8) : Nat :=
  if w ≤ rest.length ∧ ofBytes (rest.take w) ≤ maxAllocSize then w + ofBytes (rest.take w) else w

def wants (rest : List UInt8) : Element → Nat
  | .number1 => 1
  | .number2 => 2
  | .number4 => 4
  | .number8 | .pointer => 8
  | .string => withLength 1 rest
  | .longstr | .chunk => withLength 4 rest
  | .uuid => 16
  | .frame | .msg => 0

/-- Nothing is read outside the frame, and a frame that is too short is `malformed`. -/
def Guarded (read : Except Fault (Option (List UInt8 × Nat))) (short : Prop) : Prop :=
  ∃ r, read = .ok r ∧ (short → r = none)

section
variable {short P : Prop}

lemma guarded_ok {r : Option (List UInt8 × Nat)} (h : short → r = none ∧ P) :
    Guarded (.ok r) short ↔ (short → P) :=
  iff_of_true ⟨r, rfl, fun hshort => (h hshort).1⟩ fun hshort => (h hshort).2

lemma guarded_error {e : Fault} (hshort : short) (hP : ¬ P) :
    Guarded (.error e) short ↔ (short → P) := by
  refine iff_of_false ?_ fun h => hP (h hshort)
  rintro ⟨r, hr, -⟩
  cases hr

end

lemma ceiling_eq (b : Block) : ceiling b = b.base + b.data.length := ptrAdd_of_lt b.end_lt

section
variable {b : Block} {needle : Nat} (hbase : b.base ≤ needle) (hend : needle ≤ ceiling b)
include hbase hend

lemma length_ahead : needle + (ahead b needle).length = ceiling b := by
  rw [ceiling_eq] at hend ⊢
  rw [ahead, length_drop]
  omega

lemma take_eq (size : Nat) (hsize : size < 2 ^ 64) :
    take b (ceiling b) needle size =
      if size ≤ (ahead b needle).length then .ok (some ((ahead b needle).take size, needle + size))
      else if needle + size < 2 ^ 64 then .ok none
      else .error (.outOfBounds needle) := by
  have hlen := length_ahead hbase hend
  have hlimit := b.end_lt
  rw [← ceiling_eq] at hlimit
  rw [take]
  by_cases hfits : size ≤ (ahead b needle).length
  · have hload : load b needle size = .ok ((ahead b needle).take size) :=
      load_eq_ok.mpr ⟨hbase, by rw [← ceiling_eq]; omega, rfl⟩
    rw [ptrAdd_of_lt (by omega), if_neg (by omega), if_pos hfits, hload]
    rfl
  · split
    · next hpast =>
      rw [if_pos]
      by_contra hwrap
      rw [ptrAdd] at hpast
      omega
    · next hpast =>
      rw [if_neg, load_of_lt (by rw [← ceiling_eq]; omega)]
      · rfl
      · intro hroom
        rw [ptrAdd_of_lt hroom] at hpast
        omega

lemma guarded_take (size : Nat) (hsize : size < 2 ^ 64) :
    Guarded (take b (ceiling b) needle size) ((ahead b needle).length < size) ↔
      ((ahead b needle).length < size → needle + size < 2 ^ 64) := by
  rw [take_eq hbase hend size hsize]
  split_ifs with hfits hroom
  · exact guarded_ok fun h => absurd h (Nat.not_lt.mpr hfits)
  · exact guarded_ok fun _ => ⟨rfl, hroom⟩
  · exact guarded_error (Nat.not_le.mp hfits) hroom

lemma guarded_withLength {w : Nat} (hw : w < 2 ^ 60) :
    Guarded (unlessMalformed (getNumber b (ceiling b) needle w) fun p =>
        takeLimited b (ceiling b) p.2 p.1) ((ahead b needle).length < withLength w (ahead b needle)) ↔
      ((ahead b needle).length < withLength w (ahead b needle) →
        needle + withLength w (ahead b needle) < 2 ^ 64) := by
  have hlen := length_ahead hbase hend
  by_cases hhead : w ≤ (ahead b needle).length
  · rw [getNumber, take_eq hbase hend w (by omega), if_pos hhead]
    change Guarded (takeLimited b (ceiling b) (needle + w) (ofBytes ((ahead b needle).take w))) _ ↔ _
    rw [takeLimited]
    by_cases hmax : maxAllocSize < ofBytes ((ahead b needle).take w)
    · have hshort : ¬ (ahead b needle).length < withLength w (ahead b needle) := by
        rw [withLength, if_neg (by omega)]
        omega
      rw [if_pos hmax]
      exact guarded_ok fun h => absurd h hshort
    · have hahead : ahead b (needle + w) = (ahead b needle).drop w := by
        rw [ahead, ahead, drop_drop, Nat.sub_add_comm hbase]
      have hbody := guarded_take (show b.base ≤ needle + w by omega) (by omega)
        (ofBytes ((ahead b needle).take w)) (by rw [maxAllocSize] at hmax; omega)
      rw [hahead, length_drop] at hbody
      rw [if_neg hmax, withLength, if_pos ⟨hhead, by omega⟩, ← Nat.add_assoc,
        show (ahead b needle).length < w + ofBytes ((ahead b needle).take w) ↔
          (ahead b needle).length - w < ofBytes ((ahead b needle).take w) by omega]
      exact hbody
  · have hwants : withLength w (ahead b needle) = w := if_neg (by omega)
    rw [hwants, ← guarded_take hbase hend w (by omega), getNumber,
      take_eq hbase hend w (by omega), if_neg hhead]
    split_ifs <;> rfl

omit hbase hend in
lemma fetch_string (b : Block) (limit needle : Nat) :
    fetch b limit needle .string =
      unlessMalformed (getNumber b limit needle 1) fun p => takeLimited b limit p.2 p.1 := by
  rw [fetch]
  cases hnumber : getNumber b limit needle 1 with
  | error e => rfl
  | ok read =>
    rcases read with _ | ⟨n, p⟩
    · rfl
    · have hlt := (getNumber_some hnumber).1
      change take b limit p n = takeLimited b limit p n
      rw [takeLimited, if_neg (by rw [maxAllocSize]; omega)]

lemma guarded_fetch (e : Element) :
    Guarded (fetch b (ceiling b) needle e) ((ahead b needle).length < wants (ahead b needle) e) ↔
      ((ahead b needle).length < wants (ahead b needle) e →
        e ≠ .pointer ∧ needle + wants (ahead b needle) e < 2 ^ 64) := by
  have hlen := length_ahead hbase hend
  cases e with
  | number1 | number2 | number4 | number8 =>
    exact (guarded_take hbase hend _ (by simp)).trans (by simp [wants])
  | uuid =>
    exact (guarded_take hbase hend 16 (by decide)).trans (by simp [wants])
  | string =>
    rw [fetch_string]
    exact (guarded_withLength hbase hend (by decide)).trans (by simp [wants])
  | longstr | chunk =>
    exact (guarded_withLength hbase hend (by decide)).trans (by simp [wants])
  | frame | msg => exact guarded_ok fun h => absurd h (Nat.not_lt_zero _)
  | pointer =>
    by_cases hfits : 8 ≤ (ahead b needle).length
    · have hload : load b needle 8 = .ok ((ahead b needle).take 8) :=
        load_eq_ok.mpr ⟨hbase, by rw [← ceiling_eq]; omega, rfl⟩
      rw [fetch, hload]
      exact guarded_ok fun h => absurd h (Nat.not_lt.mpr hfits)
    · rw [fetch, load_of_lt (by rw [← ceiling_eq]; omega)]
      exact guarded_error (Nat.not_le.mp hfits) fun h => h.1 rfl

end

/-! ## The loop -/

def start (junk : Nat → UInt8) (cache : Option Cache) (b : Block) (more : Bool)
    (parts : List (List UInt8 × Bool)) : Reader where
  needle := b.base
  cache := cache.getD { generation := 0, data := (range 512).map junk }
  cacheUsed := 0
  more := more
  parts := parts

/-- The guard of the loop is evaluated with this rest of the picture, state and outputs. -/
inductive Reached (junk : Nat → UInt8) (b : Block) (picture : List Char) (s : Reader) :
    List Char → Reader → List Output → Prop
  | refl : Reached junk b picture s picture s []
  | next {c : Char} {rest : List Char} {e : Element} {s1 s2 : Reader} {outs : List Output}
      {out : Output} (h : Reached junk b picture s (c :: rest) s1 outs)
      (he : Element.ofChar c = some e)
      (hget : get junk b (ceiling b) rest.isEmpty s1 e = .ok (some (out, s2))) :
      Reached junk b picture s rest s2 (outs ++ [out])

section
variable {junk : Nat → UInt8} {b : Block} {picture rest : List Char} {s s1 : Reader}
  {outs : List Output}

lemma Reached.getAll_eq (h : Reached junk b picture s rest s1 outs) :
    getAll junk b (ceiling b) picture s [] = getAll junk b (ceiling b) rest s1 outs := by
  induction h with
  | refl => rfl
  | next _ he hget ih =>
    rw [ih, getAll, he]
    dsimp only
    rw [hget, ok_bind]

lemma get_eq_some {last : Bool} {e : Element} {out : Output}
    (h : get junk b (ceiling b) last s e = .ok (some (out, s1))) :
    ∃ bs p, fetch b (ceiling b) s.needle e = .ok (some (bs, p)) ∧
      keep junk last { s with needle := p } bs e = .ok (some (out, s1)) := by
  rw [get_eq] at h
  obtain ⟨⟨bs, p⟩, hfetch, hkeep⟩ := unlessMalformed_eq_some h
  exact ⟨bs, p, hfetch, hkeep⟩

lemma cacheString_needle {string : List UInt8} {out : Output}
    (h : cacheString junk s string = .ok (out, s1)) : s1.needle = s.needle := by
  obtain ⟨c1, -, h⟩ := bind_eq_ok.mp h
  obtain ⟨c2, -, h⟩ := bind_eq_ok.mp h
  cases h
  rfl

lemma Reached.needle (hs : s.needle = b.base) (h : Reached junk b picture s rest s1 outs) :
    b.base ≤ s1.needle ∧ s1.needle ≤ ceiling b := by
  induction h with
  | refl => rw [ceiling_eq]; omega
  | @next c rest e s1 s2 outs out _ _ hget ih =>
    obtain ⟨bs, p, hfetch, hkeep⟩ := get_eq_some hget
    obtain ⟨hle, hend⟩ := fetch_some (by rw [← ceiling_eq]; exact ih.2) hfetch
    have hp : s2.needle = p := by
      rcases keep_cases hkeep with ⟨-, hstring⟩ | ⟨-, hneedle, -⟩
      · exact cacheString_needle hstring
      · exact hneedle
    rw [hp, ceiling_eq]
    exact ⟨ih.1.trans hle, hend⟩

end

/-- In every round nothing is read outside the data frame, and for a frame that is too short the
call returns -1. -/
def StaysInside (junk : Nat → UInt8) (cache : Option Cache) (picture : List Char) (b : Block)
    (more : Bool) (parts : List (List UInt8 × Bool)) : Prop :=
  ∀ c rest s outs e, Reached junk b picture (start junk cache b more parts) (c :: rest) s outs →
    Element.ofChar c = some e →
    Guarded (fetch b (ceiling b) s.needle e)
        ((ahead b s.needle).length < wants (ahead b s.needle) e) ∧
      ((ahead b s.needle).length < wants (ahead b s.needle) e →
        ∃ outs' s', brecv junk cache picture b more parts = .ok (-1, outs', s'))

/-- A call stays inside the frame exactly when no `'p'` comes with fewer than eight bytes left, and
no element asks for bytes beyond the end of the address space. -/
theorem staysInside_iff (junk : Nat → UInt8) (cache : Option Cache) (picture : List Char) (b : Block)
    (more : Bool) (parts : List (List UInt8 × Bool)) :
    StaysInside junk cache picture b more parts ↔
      ∀ c rest s outs e, Reached junk b picture (start junk cache b more parts) (c :: rest) s outs →
        Element.ofChar c = some e → (ahead b s.needle).length < wants (ahead b s.needle) e →
        e ≠ .pointer ∧ s.needle + wants (ahead b s.needle) e < 2 ^ 64 := by
  refine forall_congr' fun c => forall_congr' fun rest => forall_congr' fun s =>
    forall_congr' fun outs => forall_congr' fun e => forall_congr' fun hs =>
    forall_congr' fun he => ?_
  obtain ⟨hbase, hend⟩ := hs.needle rfl
  rw [← guarded_fetch hbase hend e]
  refine and_iff_left_of_imp ?_
  rintro ⟨r, hfetch, hnone⟩ hshort
  refine ⟨outs, s, ?_⟩
  change getAll junk b (ceiling b) picture (start junk cache b more parts) [] = _
  rw [hs.getAll_eq, getAll, he]
  dsimp only
  rw [get_eq, hfetch, hnone hshort]
  rfl

/-- Three bytes for a pointer: eight are copied. -/
theorem pointer_outside : ∃ b : Block, b.data = [1, 2, 3] ∧
    brecv (fun _ => 0) none ['p'] b false [] = .error (.outOfBounds b.base) ∧
    ¬ StaysInside (fun _ => 0) none ['p'] b false [] := by
  refine ⟨Block.of [1, 2, 3] (by decide), rfl, rfl, fun h => ?_⟩
  obtain ⟨⟨r, hr, -⟩, -⟩ := h 'p' [] _ [] .pointer .refl rfl
  cases hr

/-! ## The string cache -/

def grown (junk : Nat → UInt8) (s : Reader) (string : List UInt8) : Cache :=
  s.cache.expand junk ((s.cacheUsed + string.length) % 2 ^ 32)

/-- A string and its terminator are written below the size of the cache. -/
def WritesInside (junk : Nat → UInt8) (s : Reader) (string : List UInt8) : Prop :=
  (∀ j < string.length, s.cacheUsed + j < (grown junk s string).data.length) ∧
    (s.cacheUsed + string.length) % 2 ^ 32 < (grown junk s string).data.length

/-- The sizes that a cache of 512 bytes is doubled to. The bytes used are counted in 32 bits. -/
def Cache.Sized (cache : Cache) : Prop := ∃ k ≤ 23, cache.data.length = 512 * 2 ^ k

structure Reader.Sized (s : Reader) : Prop where
  cache : s.cache.Sized
  used : s.cacheUsed ≤ s.cache.data.length
  used_lt : s.cacheUsed < 2 ^ 32

lemma Cache.length_expand (junk : Nat → UInt8) (cache : Cache) (need : Nat) :
    (cache.expand junk need).data.length =
      if cache.data.length < need then 2 * cache.data.length else cache.data.length := by
  rw [expand]
  split
  · simp only [length_append, length_map, length_range']
    omega
  · rfl

lemma Cache.Sized.bounds {cache : Cache} (h : cache.Sized) :
    512 ≤ cache.data.length ∧ (cache.data.length ≤ 2 ^ 31 ∨ cache.data.length = 2 ^ 32) := by
  obtain ⟨k, hk, hlen⟩ := h
  have hpos : 2 ^ 0 ≤ 2 ^ k := Nat.pow_le_pow_right (by decide) (Nat.zero_le k)
  refine ⟨by omega, ?_⟩
  rcases hk.lt_or_eq with hlt | rfl
  · have hpow : 2 ^ k ≤ 2 ^ 22 := Nat.pow_le_pow_right (by decide) (by omega)
    exact .inl (by omega)
  · exact .inr (by rw [hlen]; rfl)

lemma Cache.Sized.expand {cache : Cache} (h : cache.Sized) (junk : Nat → UInt8) {need : Nat}
    (hneed : need < 2 ^ 32) : (cache.expand junk need).Sized := by
  obtain ⟨k, hk, hlen⟩ := h
  have hexpand := cache.length_expand junk need
  split at hexpand
  · next hlt =>
    refine ⟨k + 1, ?_, by rw [hexpand, hlen]; ring⟩
    by_contra hlast
    obtain rfl : k = 23 := by omega
    omega
  · exact ⟨k, hk, hexpand.trans hlen⟩

section
variable {junk : Nat → UInt8} {s s' : Reader} {string : List UInt8} {out : Output}

lemma cacheString_eq_ok (h : cacheString junk s string = .ok (out, s')) :
    s.cacheUsed + string.length ≤ (grown junk s string).data.length ∧
      (s.cacheUsed + string.length) % 2 ^ 32 + 1 ≤ (grown junk s string).data.length ∧
      out = .string (grown junk s string).generation s.cacheUsed ∧
      s' = { s with
        cache := ⟨(grown junk s string).generation,
          splice (splice (grown junk s string).data s.cacheUsed string)
            ((s.cacheUsed + string.length) % 2 ^ 32) [0]⟩
        cacheUsed := ((s.cacheUsed + string.length) % 2 ^ 32 + 1) % 2 ^ 32 } := by
  obtain ⟨c1, hcopy, h⟩ := bind_eq_ok.mp h
  obtain ⟨c2, hend, h⟩ := bind_eq_ok.mp h
  cases h
  rw [Cache.write] at hcopy
  split at hcopy
  · next hfits =>
    cases hcopy
    rw [Cache.write] at hend
    split at hend
    · next hfits' =>
      cases hend
      rw [length_splice hfits] at hfits'
      exact ⟨hfits, hfits', rfl, rfl⟩
    · cases hend
  · cases hcopy

lemma Reader.Sized.cacheString (hs : s.Sized) (h : cacheString junk s string = .ok (out, s')) :
    s'.Sized := by
  obtain ⟨hcopy, hend, -, rfl⟩ := cacheString_eq_ok h
  have hlen : (splice (splice (grown junk s string).data s.cacheUsed string)
      ((s.cacheUsed + string.length) % 2 ^ 32) [0]).length = (grown junk s string).data.length := by
    rw [length_splice (by rw [length_splice hcopy]; exact hend), length_splice hcopy]
  obtain ⟨k, hk, hsize⟩ := hs.cache.expand junk (Nat.mod_lt _ (by decide))
  refine ⟨⟨k, hk, hlen.trans hsize⟩, ?_, Nat.mod_lt _ (by decide)⟩
  rw [hlen]
  exact (Nat.mod_le _ _).trans hend

lemma writesInside_iff (hs : s.Sized) (hlen : string.length < 256) :
    WritesInside junk s string ↔ s.cacheUsed + string.length ≤ 2 ^ 32 ∧
      (s.cacheUsed + string.length = s.cache.data.length → s.cacheUsed + string.length = 2 ^ 32) := by
  obtain ⟨hmin, hmax⟩ := hs.cache.bounds
  have hused := hs.used
  have hlt := hs.used_lt
  have hgrown : (grown junk s string).data.length = _ :=
    s.cache.length_expand junk ((s.cacheUsed + string.length) % 2 ^ 32)
  rw [WritesInside, hgrown]
  constructor
  · rintro ⟨hcopy, hend⟩
    have hlast := hcopy (string.length - 1)
    split at hlast <;> split at hend <;> omega
  · rintro ⟨hroom, hfull⟩
    split
    · exact ⟨fun j hj => by omega, by omega⟩
    · exact ⟨fun j hj => by omega, by omega⟩

end

structure Incoming where
  picture : List Char
  data : Block
  more : Bool
  parts : List (List UInt8 × Bool)

def call (junk : Nat → UInt8) (cache : Option Cache) (m : Incoming) :
    Except Fault ((Int × List Output) × Option Cache) := do
  let (rc, outs, s) ← brecv junk cache m.picture m.data m.more m.parts
  pure ((rc, outs), some s.cache)

/-- In this call, for the element at `i`, this string is copied into the cache. -/
def Caches (junk : Nat → UInt8) (cache : Option Cache) (m : Incoming) (i : Nat) (s : Reader)
    (string : List UInt8) : Prop :=
  ∃ c rest outs p, Element.ofChar c = some .string ∧ outs.length = i ∧
    Reached junk m.data m.picture (start junk cache m.data m.more m.parts) (c :: rest) s outs ∧
    fetch m.data (ceiling m.data) s.needle .string = .ok (some (string, p))

section
variable {junk : Nat → UInt8} {b : Block} {picture rest : List Char} {s s1 : Reader}
  {outs outs' : List Output}

lemma Reached.sized (hs : s.Sized) (h : Reached junk b picture s rest s1 outs) : s1.Sized := by
  induction h with
  | refl => exact hs
  | @next c rest e s1 s2 outs out _ _ hget ih =>
    obtain ⟨bs, p, -, hkeep⟩ := get_eq_some hget
    have hmoved : Reader.Sized { s1 with needle := p } := { ih with }
    rcases keep_cases hkeep with ⟨-, hstring⟩ | ⟨-, -, hcache, hused, -⟩
    · exact hmoved.cacheString hstring
    · refine ⟨hcache ▸ ih.cache, ?_, ?_⟩
      · rw [hused, hcache]
        exact ih.used
      · rw [hused]
        exact ih.used_lt

lemma start_sized {cache : Option Cache} (h : ∀ c ∈ cache, c.Sized) (more : Bool)
    (parts : List (List UInt8 × Bool)) : (start junk cache b more parts).Sized := by
  refine ⟨?_, Nat.zero_le _, Nat.two_pow_pos 32⟩
  cases cache with
  | none => exact ⟨0, by decide, by simp [start]⟩
  | some c => exact h c rfl

lemma Reached.of_getAll {rc : Int} (h : Reached junk b picture s rest s1 outs) {s2 : Reader}
    (hrun : getAll junk b (ceiling b) rest s1 outs = .ok (rc, outs', s2)) :
    ∃ rest', Reached junk b picture s rest' s2 outs' ∧ (rc = 0 → rest' = []) := by
  induction rest generalizing s1 outs with
  | nil =>
    cases hrun
    exact ⟨[], h, fun _ => rfl⟩
  | cons c rest ih =>
    rw [getAll] at hrun
    split at hrun
    · cases hrun
    · next e he =>
      obtain ⟨r, hget, hrun⟩ := bind_eq_ok.mp hrun
      rcases r with _ | ⟨out, s3⟩
      · cases hrun
        exact ⟨_, h, fun hrc => absurd hrc (by decide)⟩
      · exact ih (h.next he hget) hrun

lemma sized_of_call {cache cache' : Option Cache} {m : Incoming} {answer : Int × List Output}
    (hcache : ∀ c ∈ cache, c.Sized) (h : call junk cache m = .ok (answer, cache')) :
    ∀ c ∈ cache', c.Sized := by
  obtain ⟨⟨rc, outs, s⟩, hrun, h⟩ := bind_eq_ok.mp h
  cases h
  rintro c ⟨⟩
  obtain ⟨rest, hreached, -⟩ := Reached.refl.of_getAll hrun
  exact (hreached.sized (start_sized hcache _ _)).cache

end

/-- Along any calls on a socket, no write is outside the cache exactly when no string ends at the
last byte of the cache, without room for its terminator, or beyond the `2 ^ 32` bytes that the
counter can say. -/
theorem writesInside_calls_iff (junk : Nat → UInt8) (calls : List Incoming) :
    StepsMeet (call junk)
        (fun cache m => ∀ i s string, Caches junk cache m i s string → WritesInside junk s string)
        none calls ↔
      StepsMeet (call junk)
        (fun cache m => ∀ i s string, Caches junk cache m i s string →
          s.cacheUsed + string.length ≤ 2 ^ 32 ∧
          (s.cacheUsed + string.length = s.cache.data.length → s.cacheUsed + string.length = 2 ^ 32))
        none calls := by
  refine stepsMeet_congr (fun cache m (hcache : ∀ c ∈ cache, c.Sized) => ?_)
    (fun _ _ _ _ hcache _ => sized_of_call hcache) (fun c hc => by cases hc)
  refine forall_congr' fun i => forall_congr' fun s => forall_congr' fun string =>
    forall_congr' fun hcaches => ?_
  obtain ⟨c, rest, outs, p, -, -, hreached, hfetch⟩ := hcaches
  exact writesInside_iff (hreached.sized (start_sized hcache _ _)) (fetch_string_some hfetch).1

def longString : List UInt8 := 255 :: replicate 255 65

set_option maxRecDepth 10000 in
theorem terminator_outside : ∃ m : Incoming, m.picture = ['s', 's', 's'] ∧
    m.data.data = longString ++ longString ++ [0] ∧
    ¬ StepsMeet (call fun _ => 0)
      (fun cache m => ∀ i s string, Caches (fun _ => 0) cache m i s string →
        WritesInside (fun _ => 0) s string) none [m] := by
  refine ⟨⟨['s', 's', 's'], Block.of (longString ++ longString ++ [0]) (by decide), false, []⟩, rfl,
    rfl, fun h => ?_⟩
  have hwrites := (h.head _ _ _ ⟨'s', [], _, _, rfl, rfl, (Reached.refl.next rfl rfl).next rfl rfl, rfl⟩).2
  exact absurd hwrites (by decide +kernel)

/-! ## Pointers into the cache -/

/-- Each pointer to a string leads into the cache as the call leaves it, to the string and its
terminator. -/
def PointersLive (junk : Nat → UInt8) (cache : Option Cache) (m : Incoming) (outs : List Output)
    (s : Reader) : Prop :=
  ∀ i generation offset, outs[i]? = some (.string generation offset) →
    generation = s.cache.generation ∧
      ∃ s1 string, Caches junk cache m i s1 string ∧ string ++ [0] <+: s.cache.data.drop offset

lemma expand_cases (junk : Nat → UInt8) (cache : Cache) (need : Nat) :
    cache.expand junk need = cache ∨
      cache.data.length < need ∧ (cache.expand junk need).generation = cache.generation + 1 := by
  rw [Cache.expand]
  split
  · next h => exact .inr ⟨h, rfl⟩
  · exact .inl rfl

lemma prefix_drop_of_take {xs data data' : List UInt8} {offset n : Nat} (hn : offset + xs.length ≤ n)
    (htake : data'.take n = data.take n) (h : xs <+: data.drop offset) : xs <+: data'.drop offset := by
  have hdrop : (data.drop offset).take (n - offset) <+: data'.drop offset := by
    rw [← drop_take, ← htake, drop_take]
    exact take_prefix ..
  refine IsPrefix.trans ?_ hdrop
  exact prefix_take_iff.mpr ⟨h, by omega⟩

section
variable {junk : Nat → UInt8} {s s' : Reader} {string : List UInt8} {out : Output}

lemma cacheString_kept (hroom : s.cacheUsed + string.length + 1 < 2 ^ 32)
    (h : cacheString junk s string = .ok (out, s'))
    (hgen : s'.cache.generation ≤ s.cache.generation) :
    out = .string s.cache.generation s.cacheUsed ∧ s'.cache.generation = s.cache.generation ∧
      s'.cacheUsed = s.cacheUsed + string.length + 1 ∧
      s'.cache.data.take s.cacheUsed = s.cache.data.take s.cacheUsed ∧
      string ++ [0] <+: s'.cache.data.drop s.cacheUsed := by
  obtain ⟨hcopy, hend, rfl, rfl⟩ := cacheString_eq_ok h
  have hgrown : grown junk s string = s.cache := by
    rcases expand_cases junk s.cache ((s.cacheUsed + string.length) % 2 ^ 32) with h | ⟨-, h⟩
    · exact h
    · dsimp only at hgen
      rw [grown] at hgen
      omega
  rw [hgrown] at hcopy hend
  rw [Nat.mod_eq_of_lt (by omega)] at hend
  simp only [hgrown, Nat.mod_eq_of_lt (show s.cacheUsed + string.length < 2 ^ 32 by omega),
    Nat.mod_eq_of_lt hroom]
  have hend' : s.cacheUsed + string.length + [(0 : UInt8)].length ≤
      (splice s.cache.data s.cacheUsed string).length := by
    rw [length_splice hcopy]
    exact hend
  refine ⟨trivial, trivial, trivial, ?_, ?_⟩
  · rw [take_splice hend' (by omega), take_splice hcopy le_rfl]
  · have htake := take_splice_end hend'
    rw [take_splice_end hcopy, length_singleton] at htake
    have hfront : (s.cache.data.take s.cacheUsed).length = s.cacheUsed := by
      rw [length_take]
      omega
    rw [← take_append_drop (s.cacheUsed + string.length + 1) (splice _ _ _), htake,
      append_assoc, append_assoc, drop_append_of_le_length hfront.ge,
      drop_eq_nil_of_le hfront.le, nil_append, ← append_assoc]
    exact prefix_append ..

end

section
variable {junk : Nat → UInt8} {cache : Option Cache} {m : Incoming} {rest : List Char} {s s1 : Reader}
  {outs : List Output}

lemma Reached.first (hs : s.Sized) (hused : s.cacheUsed = 0)
    (h : Reached junk m.data m.picture s rest s1 outs) :
    s1.cache.generation = s.cache.generation ∧ s1.cacheUsed = 0 ∨
      ∃ i offset : Nat, outs[i]? = some (.string s.cache.generation offset) := by
  induction h with
  | refl => exact .inl ⟨rfl, hused⟩
  | @next c rest e s1 s2 outs out hreached _ hget ih =>
    rcases ih with ⟨hgen, hzero⟩ | ⟨i, offset, hi⟩
    · obtain ⟨bs, p, hfetch, hkeep⟩ := get_eq_some hget
      rcases keep_cases hkeep with ⟨rfl, hstring⟩ | ⟨-, -, hcache, hused2, -⟩
      · obtain ⟨hlen, -⟩ := fetch_string_some hfetch
        obtain ⟨hmin, -⟩ := (hreached.sized hs).cache.bounds
        obtain ⟨-, -, rfl, -⟩ := cacheString_eq_ok hstring
        refine .inr ⟨outs.length, s1.cacheUsed, ?_⟩
        rcases expand_cases junk s1.cache ((s1.cacheUsed + bs.length) % 2 ^ 32) with h | ⟨h, -⟩
        · rw [getElem?_concat_length, grown, h, hgen]
        · omega
      · exact .inl ⟨by rw [hcache, hgen], by rw [hused2, hzero]⟩
    · have hlt := (List.getElem?_eq_some_iff.mp hi).1
      exact .inr ⟨i, offset, by rw [getElem?_append_left hlt, hi]⟩

lemma Reached.live (hsize : m.data.data.length < 2 ^ 32)
    (h : Reached junk m.data m.picture (start junk cache m.data m.more m.parts) rest s1 outs) :
    (start junk cache m.data m.more m.parts).cache.generation ≤ s1.cache.generation ∧
      s1.cacheUsed + m.data.base ≤ s1.needle ∧
      (s1.cache.generation = (start junk cache m.data m.more m.parts).cache.generation →
        ∀ i generation offset, outs[i]? = some (.string generation offset) →
          generation = s1.cache.generation ∧ ∃ s string, Caches junk cache m i s string ∧
            offset + (string ++ [0]).length ≤ s1.cacheUsed ∧
            string ++ [0] <+: s1.cache.data.drop offset) := by
  induction h with
  | refl => exact ⟨le_rfl, by simp [start], fun _ i g o h => by simp at h⟩
  | @next c rest e s1 s2 outs out hreached he hget ih =>
    obtain ⟨hgen, hused, hlive⟩ := ih
    obtain ⟨bs, p, hfetch, hkeep⟩ := get_eq_some hget
    rcases keep_cases hkeep with ⟨rfl, hstring⟩ | ⟨-, hneedle, hcache, hused2, hout⟩
    · obtain ⟨-, hp, hend⟩ := fetch_string_some hfetch
      have hneedle := cacheString_needle hstring
      dsimp only at hneedle
      have hroom : s1.cacheUsed + bs.length + 1 < 2 ^ 32 := by omega
      obtain ⟨-, -, -, hs2⟩ := cacheString_eq_ok hstring
      have hcount : s2.cacheUsed = s1.cacheUsed + bs.length + 1 := by
        rw [hs2]
        rw [Nat.mod_eq_of_lt (show s1.cacheUsed + bs.length < 2 ^ 32 by omega), Nat.mod_eq_of_lt hroom]
      have hmono : s1.cache.generation ≤ s2.cache.generation := by
        rw [hs2]
        rcases expand_cases junk s1.cache ((s1.cacheUsed + bs.length) % 2 ^ 32) with h | ⟨-, h⟩
        · exact (congrArg Cache.generation h).ge
        · exact (Nat.le_succ _).trans_eq h.symm
      refine ⟨hgen.trans hmono, by omega, fun hsame i g o hi => ?_⟩
      have hsame1 := hmono.antisymm (hsame.trans_le hgen)
      obtain ⟨rfl, -, -, htake, hprefix⟩ := cacheString_kept (s := { s1 with needle := p }) hroom hstring hsame1.ge
      rcases Nat.lt_or_ge i outs.length with hlt | hge
      · rw [getElem?_append_left hlt] at hi
        obtain ⟨rfl, s, string, hcaches, hfits, hold⟩ := hlive (hsame1.trans hsame) i g o hi
        exact ⟨hsame1, s, string, hcaches, by omega, prefix_drop_of_take hfits htake hold⟩
      · rw [getElem?_append_right hge, getElem?_singleton] at hi
        split at hi
        · cases hi
          refine ⟨hsame1, s1, bs, ⟨c, rest, outs, p, he, by omega, hreached, hfetch⟩, ?_, hprefix⟩
          rw [length_append]
          exact hcount.ge
        · cases hi
    · obtain ⟨hle, -⟩ := fetch_some (by rw [← ceiling_eq]; exact (hreached.needle rfl).2) hfetch
      dsimp only at hneedle hcache hused2
      rw [hcache, hused2]
      refine ⟨hgen, by omega, fun hsame i g o hi => ?_⟩
      rcases Nat.lt_or_ge i outs.length with hlt | hge
      · rw [getElem?_append_left hlt] at hi
        exact hlive hsame i g o hi
      · rw [getElem?_append_right hge, getElem?_singleton] at hi
        split at hi
        · exact absurd (Option.some.inj hi) (hout g o)
        · cases hi

end

end Czmq.Zsock
