import Czmq.Zsock.Bounds
import Czmq.Zsock.RoundTrip

/-! `NULL` arguments and messages without frames. For a `NULL` chunk the first pass counts four
bytes that the second does not write, and a message without frames leaves `zsock_brecv` none to
receive. -/

namespace Czmq

open List Bytes Arg

def Arg.received : Arg → Arg
  | .string none => .string (some ⟨[], zero_not_mem_nil⟩)
  | .longstr none => .longstr (some ⟨[], zero_not_mem_nil⟩)
  | .chunk none => .chunk (some [])
  | a => a

def Arg.counted (a : Arg) : Nat :=
  (Zsock.put a).length + match a with
    | .chunk none => 4
    | _ => 0

namespace Zsock

/-- Arguments without frames of their own and within the limits of their types, a message that is
there and only at the end, fewer frames than the table holds, strings for a cache of `size` bytes,
and a data frame that is an object. -/
structure Within (size : Nat) (args : List Arg) : Prop where
  each : ∀ a ∈ args, a.element ≠ .msg → a.received.Sendable ∧ a.element ≠ .frame
  msg : ∀ msg, .msg msg ∈ args → msg ≠ none
  msg_last : ∀ a ∈ args.dropLast, a.element ≠ .msg
  table : (args.flatMap frames).length < bsendMaxFrames
  cache : (args.map fun a => a.received.cached).sum ≤ size
  count : (args.map fun a => a.received.cached).sum < 2 ^ 32
  memory : (args.map counted).sum < 2 ^ 63

/-- Both passes agree on the size of the data frame, and the receiver gets what was sent, with an
empty value for each `NULL`. -/
def Travels (junk junk' : Nat → UInt8) (cache : Option Cache) (args : List Arg) : Prop :=
  ∃ size frames written data more parts,
    overPicture count (args.map code) args (0, []) = .ok (size, frames) ∧
    overPicture (fun _ => fill size) (args.map code) args [] = .ok written ∧
    written.length = size ∧
    bsend junk (args.map code) args = .ok ((data, more) :: parts) ∧
    ∀ b : Block, b.data = data → ∃ outs s,
      brecv junk' cache (args.map code) b more parts = .ok (0, outs, s) ∧
      Forall₂ (Output.Equals s.cache) outs (args.map received)

/-! ## The sender -/

lemma element_received (a : Arg) : a.received.element = a.element := by
  unfold received
  split <;> rfl

lemma code_received (a : Arg) : a.received.code = a.code := by
  unfold received
  split <;> rfl

lemma frames_received (a : Arg) : a.received.frames = a.frames := by
  unfold received
  split <;> rfl

lemma put_received {a : Arg} (h : a ≠ .chunk none) : put a.received = put a := by
  unfold received
  split <;> first | rfl | exact absurd rfl h

lemma count_received (a : Arg) (last : Bool) (s : Nat × List (Option (List UInt8))) :
    count last s a.received = count last s a := by
  unfold received
  split <;> rfl

lemma overPicture_received {σ : Type} (body : Bool → σ → Arg → Except Fault σ) (args : List Arg)
    (hbody : ∀ a ∈ args, ∀ last s, body last s a.received = body last s a) (s : σ) :
    overPicture body (args.map code) (args.map received) s =
      overPicture body (args.map code) args s := by
  induction args generalizing s with
  | nil => rfl
  | cons a args ih =>
    have hcons := overPicture_cons body a.received (args.map code) (args.map received) s
    rw [code_received] at hcons
    rw [map_cons, map_cons, hcons, overPicture_cons, hbody a mem_cons_self]
    exact bind_congr fun s => ih (fun a ha => hbody a (mem_cons_of_mem _ ha)) s

variable {args : List Arg}

lemma bsend_received (junk : Nat → UInt8) (h : ∀ a ∈ args, a ≠ .chunk none) :
    bsend junk (args.map code) (args.map received) =
      bsend junk (args.map code) args := by
  have hcount := overPicture_received count args (fun a _ => count_received a) (0, [])
  have hfill (size : Nat) := overPicture_received (fun _ => fill size) args
    (fun a ha _ s => by rw [fill, fill, put_received (h a ha)]) []
  rw [bsend, bsend, hcount]
  simp only [hfill]

lemma count_size {last : Bool} {n size : Nat} {frames frames' : List (Option (List UInt8))} {a : Arg}
    (h : count last (n, frames) a = .ok (size, frames')) : size = (n + a.counted) % 2 ^ 64 ∨
      size = n ∧ a.counted = 0 := by
  cases a with
  | number1 | number2 | number4 | number8 | string | longstr =>
    cases h
    exact .inl (by simp [counted, put])
  | pointer repr =>
    cases h
    exact .inl (by simp [counted, put])
  | chunk data =>
    cases h
    cases data <;> exact .inl (by simp [counted, put])
  | uuid data =>
    cases data with
    | none => cases h
    | some d =>
      cases h
      exact .inl (by simp [counted, put])
  | frame data =>
    obtain ⟨x, -, h⟩ := bind_eq_ok.mp h
    cases h
    exact .inr ⟨rfl, rfl⟩
  | msg msg =>
    cases last with
    | false => cases h
    | true =>
      cases msg with
      | some m =>
        obtain ⟨x, -, h⟩ := bind_eq_ok.mp h
        cases h
        exact .inr ⟨rfl, rfl⟩
      | none =>
        cases h
        exact .inr ⟨rfl, rfl⟩

lemma overPicture_count_size {n size : Nat}
    {frames frames' : List (Option (List UInt8))} (hn : n + (args.map counted).sum < 2 ^ 64)
    (h : overPicture count (args.map code) args (n, frames) = .ok (size, frames')) :
    size = n + (args.map counted).sum := by
  induction args generalizing n frames with
  | nil =>
    cases h
    rfl
  | cons a args ih =>
    rw [map_cons, overPicture_cons] at h
    obtain ⟨⟨n1, frames1⟩, hcount, h⟩ := bind_eq_ok.mp h
    rw [map_cons, sum_cons] at hn ⊢
    have hn1 : n1 = n + a.counted := by
      rcases count_size hcount with rfl | ⟨rfl, hzero⟩
      · exact Nat.mod_eq_of_lt (by omega)
      · rw [hzero, Nat.add_zero]
    rw [ih (by omega) h]
    omega

lemma length_put_le (args : List Arg) :
    (args.flatMap put).length ≤ (args.map counted).sum ∧
      (.chunk none ∈ args → (args.flatMap put).length < (args.map counted).sum) := by
  induction args with
  | nil => simp
  | cons a args ih =>
    rw [flatMap_cons, length_append, map_cons, sum_cons]
    have ha : (put a).length ≤ a.counted := Nat.le_add_right ..
    refine ⟨by omega, fun h => ?_⟩
    rcases mem_cons.mp h with rfl | h
    · have hchunk : (put (.chunk none)).length < (chunk none).counted := by decide
      omega
    · have := ih.2 h
      omega

/-! ## The receiver -/

lemma getAll_sent (junk : Nat → UInt8) {b : Block}
    (hargs : ∀ a ∈ args, a.Sendable ∧ a.element ≠ .frame)
    (hlast : ∀ a ∈ args.dropLast, a.element ≠ .msg) {pre : List UInt8}
    (hdata : b.data = pre ++ args.flatMap put) {s : Reader} (hneedle : s.needle = b.base + pre.length)
    (hparts : s.parts = withMore (args.flatMap frames))
    (hmore : s.more = !(args.flatMap frames).isEmpty)
    (hroom : s.cacheUsed + (args.map cached).sum ≤ s.cache.data.length)
    (hcount : s.cacheUsed + (args.map cached).sum < 2 ^ 32) (outs : List Output) :
    ∃ outs' s', getAll junk b (b.base + b.data.length) (args.map code) s outs =
        .ok (0, outs ++ outs', s') ∧
      Forall₂ (Output.Equals s'.cache) outs' args ∧ Cache.Keeps s.cacheUsed s.cache s'.cache := by
  induction args generalizing pre s outs with
  | nil => exact ⟨[], s, by rw [append_nil]; rfl, .nil, rfl, rfl⟩
  | cons a args ih =>
    obtain ⟨ha, hframe⟩ := hargs a mem_cons_self
    have hround : b.data = pre ++ put a ++ args.flatMap put := by
      rw [hdata, flatMap_cons, append_assoc]
    rw [map_cons, sum_cons] at hroom hcount
    rw [flatMap_cons] at hparts hmore
    -- the state that the loop goes on with, and the output that stays good from there
    have hgo : ∀ out s1, get junk b (b.base + b.data.length) (args.map code).isEmpty s a.element =
          .ok (some (out, s1)) →
        s1.needle = b.base + (pre ++ put a).length → s1.parts = withMore (args.flatMap frames) →
        s1.more = !(args.flatMap frames).isEmpty → s1.cacheUsed = s.cacheUsed + a.cached →
        s1.cache.data.length = s.cache.data.length → Cache.Keeps s.cacheUsed s.cache s1.cache →
        (∀ c, Cache.Keeps s1.cacheUsed s1.cache c → out.Equals c a) →
        ∃ outs' s', getAll junk b (b.base + b.data.length) ((a :: args).map code) s outs =
            .ok (0, outs ++ outs', s') ∧
          Forall₂ (Output.Equals s'.cache) outs' (a :: args) ∧
          Cache.Keeps s.cacheUsed s.cache s'.cache := by
      intro out s1 hget hneedle1 hparts1 hmore1 hused1 hsize1 hkeep1 hout
      obtain ⟨outs', s', hrun, hequals, hkeep⟩ := ih
        (fun x hx => hargs x (mem_cons_of_mem _ hx)) (msgLast_tail hlast) hround hneedle1 hparts1
        hmore1 (by omega) (by omega) (outs ++ [out])
      refine ⟨out :: outs', s', ?_, .cons (hout _ hkeep) hequals, hkeep1.trans hkeep (by omega)⟩
      rw [map_cons, getAll, a.ofChar_code]
      dsimp only
      rw [hget]
      simpa using hrun
    by_cases hmsg : a.element = .msg
    · obtain rfl := isEmpty_of_msg hlast hmsg
      cases a with
      | msg o =>
        obtain ⟨m, rfl, hne⟩ := ha
        have hmore' : s.more = true := by
          rw [hmore]
          simpa [frames] using hne
        obtain ⟨hget, hframes⟩ :=
          get_msg junk hne hmore' (by simpa [frames] using hparts)
        exact hgo _ _ hget (by simpa [put] using hneedle) rfl rfl rfl rfl ⟨rfl, rfl⟩ fun _ _ => hframes
      | _ => cases hmsg
    · have hframes : a.frames = [] := by
        cases a <;> first | rfl | exact absurd rfl hmsg | exact absurd rfl hframe
      rw [hframes] at hparts hmore
      by_cases hstring : a.element = .string
      · cases a with
        | string o =>
          obtain ⟨str, rfl, hlen⟩ := ha
          change s.cacheUsed + (str.1.length + 1 + _) ≤ _ at hroom
          change s.cacheUsed + (str.1.length + 1 + _) < _ at hcount
          obtain ⟨cache, hget, hsize, hkeep, hequals⟩ :=
            get_string junk _ hlen hround hneedle (by omega) (by omega)
          exact hgo _ _ hget rfl hparts hmore rfl hsize hkeep hequals
        | _ => cases hstring
      · have hcached : a.cached = 0 := by
          cases a <;> first | rfl | exact absurd rfl hstring
        obtain ⟨out, hget, hout⟩ := get_plain junk _ ha hround hneedle hframes hcached
        exact hgo _ _ hget rfl hparts hmore (by rw [hcached]; rfl) rfl ⟨rfl, rfl⟩ fun c _ => hout c

lemma exists_mem_of_forall₂ {α β : Type} {R : α → β → Prop} {xs : List α} {ys : List β} {y : β}
    (h : Forall₂ R xs ys) (hy : y ∈ ys) : ∃ x ∈ xs, R x y := by
  induction h with
  | nil => cases hy
  | @cons x z xs ys hxz _ ih =>
    rcases mem_cons.mp hy with rfl | hy
    · exact ⟨x, mem_cons_self, hxz⟩
    · obtain ⟨x', hx', hR⟩ := ih hy
      exact ⟨x', mem_cons_of_mem _ hx', hR⟩

lemma zmsgRecv_frames {self msg : Zmsg} {parts rest : List (List UInt8 × Bool)}
    (h : zmsgRecv self parts = .ok (msg, rest)) : msg.frames ≠ [] := by
  induction parts generalizing self with
  | nil => cases h
  | cons part parts ih =>
    rw [zmsgRecv] at h
    split at h
    · exact ih h
    · cases h
      simp [Zmsg.append]

lemma Reached.msg_frames {junk : Nat → UInt8} {b : Block} {picture rest : List Char} {s s1 : Reader}
    {outs : List Output} (h : Reached junk b picture s rest s1 outs) :
    ∀ m, .msg m ∈ outs → m.frames ≠ [] := by
  induction h with
  | refl => simp
  | @next c rest e s1 s2 outs out _ _ hget ih =>
    intro m hm
    rcases mem_append.mp hm with hm | hm
    · exact ih m hm
    · obtain ⟨bs, p, -, hkeep⟩ := get_eq_some hget
      obtain rfl := mem_singleton.mp hm
      cases e with
      | msg =>
        rw [keep] at hkeep
        split at hkeep
        · split at hkeep
          · obtain ⟨⟨m', parts⟩, hrecv, hkeep⟩ := bind_eq_ok.mp hkeep
            cases hkeep
            exact zmsgRecv_frames hrecv
          · cases hkeep
        · cases hkeep
      | frame =>
        rw [keep] at hkeep
        split at hkeep
        · split at hkeep <;> cases hkeep
        · cases hkeep
      | string =>
        obtain ⟨r, hr, hkeep⟩ := Machine.exists_of_map_eq_ok hkeep
        cases hkeep
        cases (cacheString_eq_ok hr).2.2.1
      | _ => cases hkeep

lemma received_sendable {size : Nat} (h : Within size args)
    (hframes : ∀ m, .msg (some m) ∈ args → m.frames ≠ []) {a : Arg} (ha : a ∈ args) :
    a.received.Sendable ∧ a.received.element ≠ .frame := by
  rw [element_received]
  by_cases hmsg : a.element = .msg
  · cases a with
    | msg o =>
      obtain ⟨m, rfl⟩ := Option.ne_none_iff_exists'.mp (h.msg o ha)
      exact ⟨⟨m, rfl, hframes m ha⟩, by simp [element]⟩
    | _ => cases hmsg
  · exact h.each a ha hmsg

/-- Within the limits, absent and empty arguments travel as empty values exactly when no chunk is
`NULL` and the message has a frame. -/
theorem travels_iff (junk junk' : Nat → UInt8) (cache : Option Cache) {args : List Arg}
    (h : Within (cache.elim 512 (·.data.length)) args) :
    Travels junk junk' cache args ↔
      (∀ a ∈ args, a ≠ .chunk none) ∧ ∀ m, .msg (some m) ∈ args → m.frames ≠ [] := by
  have hput := length_put_le args
  have hmem := h.memory
  constructor
  · rintro ⟨size, frames, written, data, more, parts, hcount, hfill, hlen, hsend, hrecv⟩
    have hsize := overPicture_count_size (by omega) hcount
    refine ⟨?_, fun m hm => ?_⟩
    · rintro a ha rfl
      rw [overPicture_fill (by rw [length_nil]; omega)] at hfill
      cases hfill
      have := hput.2 ha
      rw [nil_append] at hlen
      omega
    · rw [bsend, hcount, ok_bind] at hsend
      dsimp only at hsend
      rw [hfill] at hsend
      cases hsend
      obtain ⟨outs, s, hrun, hequals⟩ := hrecv (.of _ (by simp; omega)) rfl
      obtain ⟨rest, hreached, -⟩ := Reached.refl.of_getAll hrun
      obtain ⟨out, hout, hmsg⟩ := exists_mem_of_forall₂ hequals (mem_map_of_mem hm)
      cases out with
      | msg m' =>
        have hm' := hreached.msg_frames m' hout
        rwa [show m'.frames = m.frames from hmsg] at hm'
      | _ => cases hmsg
  · rintro ⟨hchunk, hframes⟩
    have hargs : ∀ a ∈ args.map received, a.Sendable ∧ a.element ≠ .frame := by
      intro a' ha'
      obtain ⟨a, ha, rfl⟩ := mem_map.mp ha'
      exact received_sendable h hframes ha
    have hlast : ∀ a ∈ (args.map received).dropLast, a.element ≠ .msg := by
      intro a' ha'
      rw [← map_dropLast] at ha'
      obtain ⟨a, ha, rfl⟩ := mem_map.mp ha'
      rw [element_received]
      exact h.msg_last a ha
    have hcode : (args.map received).map code = args.map code := by
      rw [map_map]
      exact map_congr_left fun a _ => code_received a
    have hputs : (args.map received).flatMap put = args.flatMap put := by
      rw [flatMap_map]
      exact flatMap_congr fun a ha => put_received (hchunk a ha)
    have htable : (args.map received).flatMap frames = args.flatMap frames := by
      rw [flatMap_map]
      exact flatMap_congr fun a _ => frames_received a
    have hcount : _ = Except.ok _ := overPicture_count (fun a ha => (hargs a ha).1) hlast
      (show 0 + _ < 2 ^ 64 by rw [hputs]; omega)
      (show [].length + _ < bsendMaxFrames by rw [htable, length_nil, Nat.zero_add]; exact h.table)
    rw [hcode, overPicture_received count args fun a _ => count_received a, hputs]
      at hcount
    have hsend := bsend_eq junk (fun a ha => (hargs a ha).1) hlast (by rw [htable]; exact h.table)
      (by rw [hputs]; omega)
    rw [hcode, bsend_received junk hchunk] at hsend
    refine ⟨_, _, _, _, _, _, hcount, overPicture_fill (by simp), by simp, hsend, fun b hb => ?_⟩
    have hsum : ((args.map received).map cached).sum =
        (args.map fun a => a.received.cached).sum := by
      rw [map_map]
      rfl
    have hstart : ∀ more parts, (start junk' cache b more parts).cache.data.length =
        cache.elim 512 (·.data.length) := by
      intro more parts
      cases cache <;> simp [start]
    obtain ⟨outs, s, hrun, hequals, -⟩ := getAll_sent junk' hargs hlast
      (show b.data = [] ++ _ by rw [hb, hputs]; rfl) (s := start junk' cache b _ _) rfl rfl rfl
      (by rw [hsum, hstart]; exact (Nat.zero_add _).trans_le h.cache)
      (by rw [hsum]; exact (Nat.zero_add _).trans_lt h.count) []
    refine ⟨outs, s, ?_, hequals⟩
    rw [hcode] at hrun
    rw [brecv, ptrAdd_of_lt b.end_lt]
    exact hrun

theorem travels_null_strings : ∃ args : List Arg,
    args = [.string none, .longstr none, .number2 5, .msg (some ⟨[[1], []], 1⟩)] ∧
    Travels (fun _ => 0) (fun _ => 0) none args := by
  have hwithin : Within 512 [.string none, .longstr none, .number2 5, .msg (some ⟨[[1], []], 1⟩)] :=
    ⟨by simp [received, Arg.Sendable, element], by simp, by decide, by decide, by decide,
      by decide, by decide⟩
  exact ⟨_, rfl, (travels_iff (fun _ => 0) (fun _ => 0) none hwithin).mpr ⟨by simp, by simp⟩⟩

/-- A `NULL` chunk: four bytes are counted and none written. -/
theorem null_chunk_lost : ¬ Travels (fun _ => 0) (fun _ => 0) none [.chunk none] := by
  rintro ⟨size, frames, written, data, more, parts, hcount, hfill, hlen, -⟩
  cases hcount
  cases hfill
  cases hlen

end Zsock

end Czmq
