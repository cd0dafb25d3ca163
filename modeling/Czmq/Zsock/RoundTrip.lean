import Czmq.Zsock.Picture

/-! A message sent with `zsock_bsend` is received as it was sent. The sender's passes are sums over
the arguments, and the receiver keeps its places argument by argument. -/

namespace Czmq

open List Bytes Arg

def Arg.code : Arg → Char
  | .number1 _ => '1'
  | .number2 _ => '2'
  | .number4 _ => '4'
  | .number8 _ => '8'
  | .string _ => 's'
  | .longstr _ => 'S'
  | .chunk _ => 'c'
  | .pointer _ => 'p'
  | .frame _ => 'f'
  | .uuid _ => 'u'
  | .msg _ => 'm'

lemma Arg.ofChar_code (a : Arg) : Element.ofChar a.code = some a.element := by
  cases a <;> rfl

def Arg.Sendable : Arg → Prop
  | .string o => ∃ s, o = some s ∧ s.1.length ≤ 255
  | .longstr o => ∃ s, o = some s ∧ s.1.length ≤ Zsock.maxAllocSize
  | .chunk o => ∃ d, o = some d ∧ d.length ≤ Zsock.maxAllocSize
  | .frame o => ∃ d, o = some d
  | .uuid o => ∃ d, o = some d
  | .msg o => ∃ m, o = some m ∧ m.frames ≠ []
  | _ => True

def Arg.frames : Arg → List (List UInt8)
  | .frame (some d) => [d]
  | .msg (some m) => m.frames
  | _ => []

def Arg.cached : Arg → Nat
  | .string (some s) => s.1.length + 1
  | _ => 0

namespace Zsock

/-- Arguments for one message: each within its limits, a message only at the end, fewer frames than
the table holds, the short strings within a new cache, and a data frame that is an object. -/
structure Sendable (args : List Arg) : Prop where
  each : ∀ a ∈ args, a.Sendable
  msg_last : ∀ a ∈ args.dropLast, a.element ≠ .msg
  table : (args.flatMap Arg.frames).length < bsendMaxFrames
  cache : (args.map cached).sum < 512
  memory : (args.flatMap put).length < 2 ^ 63

/-! ## The sender -/

lemma overPicture_cons {σ : Type} (body : Bool → σ → Arg → Except Fault σ) (a : Arg)
    (picture : List Char) (args : List Arg) (s : σ) :
    overPicture body (a.code :: picture) (a :: args) s =
      body picture.isEmpty s a >>= fun s => overPicture body picture args s := by
  conv_lhs => unfold overPicture
  rw [a.ofChar_code]
  exact if_pos rfl

variable {frames : List (Option (List UInt8))}

lemma foldlM_addFrame {fs : List (List UInt8)} (h : frames.length + fs.length < bsendMaxFrames) :
    (fs.map some).foldlM addFrame frames = .ok (frames ++ fs.map some) := by
  induction fs generalizing frames with
  | nil => simp [pure, Except.pure]
  | cons f fs ih =>
    rw [length_cons] at h
    have hadd : addFrame frames (some f) = .ok (frames ++ [some f]) := if_pos (by omega)
    rw [map_cons, foldlM_cons, hadd, ok_bind, ih (by simp; omega), append_assoc]
    rfl

lemma count_eq {a : Arg} (ha : a.Sendable) (last : Bool) (hlast : a.element = .msg → last = true)
    {n : Nat} (hn : n + (put a).length < 2 ^ 64)
    (hf : frames.length + a.frames.length < bsendMaxFrames) :
    count last (n, frames) a = .ok (n + (put a).length, frames ++ a.frames.map some) := by
  have hsize : ∀ k, (put a).length = k → a.frames = [] →
      (Except.ok ((n + k) % 2 ^ 64, frames) : Except Fault _) =
        .ok (n + (put a).length, frames ++ a.frames.map some) := by
    rintro k rfl hnone
    rw [Nat.mod_eq_of_lt hn, hnone, map_nil, append_nil]
  cases a with
  | number1 m => exact hsize 1 (length_toBytes 1 _) rfl
  | number2 m => exact hsize 2 (length_toBytes 2 _) rfl
  | number4 m => exact hsize 4 (length_toBytes 4 _) rfl
  | number8 m => exact hsize 8 (length_toBytes 8 _) rfl
  | pointer repr => exact hsize 8 repr.toList_length rfl
  | string string =>
    obtain ⟨s, rfl, -⟩ := ha
    exact hsize (1 + s.1.length) (by simp [put, stringBytes]) rfl
  | longstr string =>
    obtain ⟨s, rfl, -⟩ := ha
    exact hsize (4 + s.1.length) (by simp [put, stringBytes]) rfl
  | chunk data =>
    obtain ⟨d, rfl, -⟩ := ha
    exact hsize (4 + d.length) (by simp [put]) rfl
  | uuid data =>
    obtain ⟨d, rfl⟩ := ha
    exact hsize 16 d.toList_length rfl
  | frame data =>
    obtain ⟨d, rfl⟩ := ha
    have hadd : addFrame frames (some d) = .ok (frames ++ [some d]) := by
      refine if_pos ?_
      rw [Arg.frames, length_singleton] at hf
      omega
    rw [count, hadd]
    rfl
  | msg msg =>
    obtain ⟨m, rfl, -⟩ := ha
    have hfold : (m.frames.map some).foldlM addFrame frames = .ok (frames ++ m.frames.map some) :=
      foldlM_addFrame hf
    rw [count, if_pos (hlast rfl)]
    rw [hfold]
    rfl

variable {args : List Arg}

lemma isEmpty_of_msg {a : Arg}
    (hlast : ∀ x ∈ (a :: args).dropLast, x.element ≠ .msg) (ha : a.element = .msg) :
    args = [] := by
  cases args with
  | nil => rfl
  | cons x args => exact absurd ha (hlast a (by simp))

lemma msgLast_tail {a : Arg} (hlast : ∀ x ∈ (a :: args).dropLast, x.element ≠ .msg) :
    ∀ x ∈ args.dropLast, x.element ≠ .msg := by
  cases args with
  | nil => simp
  | cons y args =>
    intro x hx
    refine hlast x ?_
    exact mem_cons_of_mem _ hx

lemma overPicture_count (hargs : ∀ a ∈ args, a.Sendable)
    (hlast : ∀ a ∈ args.dropLast, a.element ≠ .msg) {n : Nat}
    (hn : n + (args.flatMap put).length < 2 ^ 64)
    (hf : frames.length + (args.flatMap Arg.frames).length < bsendMaxFrames) :
    overPicture count (args.map code) args (n, frames) =
      .ok (n + (args.flatMap put).length, frames ++ (args.flatMap Arg.frames).map some) := by
  induction args generalizing n frames with
  | nil => simp [overPicture]
  | cons a args ih =>
    simp only [flatMap_cons, length_append] at hn hf
    have hend : a.element = .msg → (args.map code).isEmpty = true := by
      intro ha
      rw [isEmpty_of_msg hlast ha]
      rfl
    rw [map_cons, overPicture_cons,
      count_eq (hargs a (mem_cons_self ..)) _ hend (by omega) (by omega), ok_bind,
      ih (fun x hx => hargs x (mem_cons_of_mem _ hx)) (msgLast_tail hlast) (by omega)
        (by simp only [length_append, length_map]; omega)]
    simp only [flatMap_cons, length_append, map_append, append_assoc,
      Nat.add_assoc]

lemma overPicture_fill {size : Nat} {written : List UInt8}
    (h : written.length + (args.flatMap put).length ≤ size) :
    overPicture (fun _ => fill size) (args.map code) args written =
      .ok (written ++ args.flatMap put) := by
  induction args generalizing written with
  | nil => simp [overPicture]
  | cons a args ih =>
    rw [flatMap_cons, length_append] at h
    have hfill : fill size written a = .ok (written ++ put a) :=
      if_pos (by rw [length_append]; omega)
    rw [map_cons, overPicture_cons, hfill, ok_bind, ih (by rw [length_append]; omega),
      append_assoc, flatMap_cons]

def withMore : List (List UInt8) → List (List UInt8 × Bool)
  | [] => []
  | f :: fs => (f, !fs.isEmpty) :: withMore fs

lemma sendFrames_map_some (fs : List (List UInt8)) : sendFrames (fs.map some) = withMore fs := by
  induction fs with
  | nil => rfl
  | cons f fs ih =>
    rw [map_cons, sendFrames, ih, isEmpty_map]
    rfl

lemma bsend_eq (junk : Nat → UInt8) (hargs : ∀ a ∈ args, a.Sendable)
    (hlast : ∀ a ∈ args.dropLast, a.element ≠ .msg)
    (htable : (args.flatMap Arg.frames).length < bsendMaxFrames)
    (hmem : (args.flatMap put).length < 2 ^ 63) :
    bsend junk (args.map code) args =
      .ok ((args.flatMap put, !(args.flatMap Arg.frames).isEmpty) ::
        withMore (args.flatMap Arg.frames)) := by
  have hcount : overPicture count (args.map code) args (0, []) =
      .ok (0 + (args.flatMap put).length, [] ++ (args.flatMap Arg.frames).map some) :=
    overPicture_count hargs hlast (by omega) (by simpa using htable)
  rw [nil_append] at hcount
  rw [bsend, hcount, ok_bind]
  dsimp only
  rw [overPicture_fill (by simp), sendFrames_map_some]
  simp [pure, Except.pure]

/-! ## The receiver -/

def Output.Equals (cache : Cache) : Output → Arg → Prop
  | .number1 n, .number1 n' => n = n'
  | .number2 n, .number2 n' => n = n'
  | .number4 n, .number4 n' => n = n'
  | .number8 n, .number8 n' => n = n'
  | .string generation offset, .string (some s) =>
    generation = cache.generation ∧ cstr (cache.data.drop offset) = s.1
  | .longstr buffer, .longstr (some s) => cstr buffer = s.1
  | .chunk d, .chunk (some d') => d = d'
  | .pointer repr, .pointer repr' => repr = repr'.toList
  | .frame f, .frame (some f') => f = f'
  | .uuid d, .uuid (some d') => d = d'.toList
  | .msg m, .msg (some m') => m.frames = m'.frames
  | _, _ => False

/-- The receiver has read `pre`, used `used` bytes of its cache, and has `fs` to come. -/
structure Ready (b : Block) (pre : List UInt8) (fs : List (List UInt8)) (used : Nat) (s : Reader) :
    Prop where
  needle : s.needle = b.base + pre.length
  size : 512 ≤ s.cache.data.length
  used : s.cacheUsed = used
  parts : s.parts = withMore fs
  more : s.more = !fs.isEmpty

def Cache.Keeps (n : Nat) (c c' : Cache) : Prop :=
  c'.generation = c.generation ∧ c'.data.take n = c.data.take n

lemma Cache.Keeps.trans {m n : Nat} {c c' c'' : Cache} (h : Cache.Keeps m c c')
    (h' : Cache.Keeps n c' c'') (hmn : m ≤ n) : Cache.Keeps m c c'' := by
  refine ⟨h'.1.trans h.1, ?_⟩
  rw [← h.2, ← min_eq_left hmn, ← take_take, h'.2, take_take]

lemma unlessMalformed_some {α β : Type} (a : α) (next : α → Except Fault (Option β)) :
    unlessMalformed (.ok (some a)) next = next a := rfl

section
variable {b : Block} {pre post : List UInt8}

variable {needle : Nat}

lemma take_append {mid : List UInt8} {size : Nat} (hdata : b.data = pre ++ mid ++ post)
    (hneedle : needle = b.base + pre.length) (hsize : size = mid.length) :
    take b (b.base + b.data.length) needle size =
      .ok (some (mid, b.base + (pre ++ mid).length)) := by
  have hlen := congrArg length hdata
  have hmem := b.end_lt
  simp only [length_append] at hlen
  subst hneedle hsize
  rw [take, ptrAdd_of_lt (by omega), if_neg (by omega), load_append hdata rfl rfl,
    length_append, Nat.add_assoc]
  rfl

lemma getNumber_append {n w : Nat} (hn : n < 256 ^ w)
    (hdata : b.data = pre ++ toBytes w n ++ post) (hneedle : needle = b.base + pre.length) :
    getNumber b (b.base + b.data.length) needle w =
      .ok (some (n, b.base + (pre ++ toBytes w n).length)) := by
  rw [getNumber, take_append hdata hneedle (length_toBytes w n).symm]
  change Except.ok (some (ofBytes (toBytes w n), _)) = _
  rw [ofBytes_toBytes_of_lt hn]

lemma takeLimited_append {d : List UInt8} {size : Nat} (hlen : d.length ≤ maxAllocSize)
    (hdata : b.data = pre ++ d ++ post) (hneedle : needle = b.base + pre.length)
    (hsize : size = d.length) :
    takeLimited b (b.base + b.data.length) needle size =
      .ok (some (d, b.base + (pre ++ d).length)) := by
  rw [takeLimited, if_neg (by omega), take_append hdata hneedle hsize]

lemma getNumber_takeLimited {β : Type} {d : List UInt8}
    (hlen : d.length ≤ maxAllocSize) (hdata : b.data = pre ++ (toBytes 4 d.length ++ d) ++ post)
    (hneedle : needle = b.base + pre.length) (next : List UInt8 × Nat → Except Fault (Option β)) :
    (unlessMalformed (getNumber b (b.base + b.data.length) needle 4) fun p =>
        unlessMalformed (takeLimited b (b.base + b.data.length) p.2 p.1) next) =
      next (d, b.base + (pre ++ (toBytes 4 d.length ++ d)).length) := by
  have hhead : b.data = pre ++ toBytes 4 d.length ++ (d ++ post) := by rw [hdata]; simp
  have hbody : b.data = (pre ++ toBytes 4 d.length) ++ d ++ post := by rw [hdata]; simp
  have hmax : d.length < 256 ^ 4 := lt_of_le_of_lt hlen (by decide)
  rw [getNumber_append hmax hhead hneedle, unlessMalformed_some,
    takeLimited_append hlen hbody rfl rfl, unlessMalformed_some, append_assoc]

lemma zmsgRecv_withMore {fs : List (List UInt8)} (hfs : fs ≠ []) (self : Zmsg) :
    zmsgRecv self (withMore fs) = .ok (fs.foldl Zmsg.append self, []) := by
  induction fs generalizing self with
  | nil => exact absurd rfl hfs
  | cons f fs ih =>
    cases fs with
    | nil => rfl
    | cons g gs => exact ih (by simp) (self.append f)

/-- The receiver reads `a` back as an output that is good as long as the cache keeps it. -/
def Reads (junk : Nat → UInt8) (b : Block) (last : Bool) (s : Reader) (a : Arg)
    (pre : List UInt8) (fs : List (List UInt8)) (used : Nat) : Prop :=
  ∃ out s', get junk b (b.base + b.data.length) last s a.element = .ok (some (out, s')) ∧
    Ready b (pre ++ put a) fs (used + a.cached) s' ∧ Cache.Keeps used s.cache s'.cache ∧
    ∀ c, Cache.Keeps (used + a.cached) s'.cache c → out.Equals c a

variable {junk : Nat → UInt8} {last : Bool} {s : Reader} {fs : List (List UInt8)} {used : Nat}

lemma get_plain (junk : Nat → UInt8) (last : Bool) {a : Arg} (ha : a.Sendable)
    (hdata : b.data = pre ++ put a ++ post) (hneedle : s.needle = b.base + pre.length)
    (hframes : a.frames = []) (hcached : a.cached = 0) :
    ∃ out, get junk b (b.base + b.data.length) last s a.element =
        .ok (some (out, { s with needle := b.base + (pre ++ put a).length })) ∧
      ∀ c, out.Equals c a := by
  cases a with
  | number1 n =>
    refine ⟨.number1 (UInt8.ofNat n.toNat), ?_, fun _ => UInt8.ofNat_toNat⟩
    simp only [get]
    rw [getNumber_append n.toNat_lt hdata hneedle]
    rfl
  | number2 n =>
    refine ⟨.number2 (UInt16.ofNat n.toNat), ?_, fun _ => UInt16.ofNat_toNat⟩
    simp only [get]
    rw [getNumber_append n.toNat_lt hdata hneedle]
    rfl
  | number4 n =>
    refine ⟨.number4 (UInt32.ofNat n.toNat), ?_, fun _ => UInt32.ofNat_toNat⟩
    simp only [get]
    rw [getNumber_append n.toNat_lt hdata hneedle]
    rfl
  | number8 n =>
    refine ⟨.number8 (UInt64.ofNat n.toNat), ?_, fun _ => UInt64.ofNat_toNat⟩
    simp only [get]
    rw [getNumber_append n.toNat_lt hdata hneedle]
    rfl
  | string o =>
    obtain ⟨str, rfl, -⟩ := ha
    cases hcached
  | longstr o =>
    obtain ⟨str, rfl, hlen⟩ := ha
    exact ⟨.longstr (str.1 ++ [0]), getNumber_takeLimited hlen hdata hneedle _,
      fun _ => cstr_append str []⟩
  | chunk o =>
    obtain ⟨d, rfl, hlen⟩ := ha
    exact ⟨.chunk d, getNumber_takeLimited hlen hdata hneedle _, fun _ => rfl⟩
  | pointer repr =>
    have hend := b.end_lt
    have hlen := congrArg length hdata
    simp only [length_append, put, repr.toList_length] at hlen
    refine ⟨.pointer repr.toList, ?_, fun _ => rfl⟩
    simp only [get]
    rw [load_append hdata hneedle repr.toList_length.symm, hneedle,
      ptrAdd_of_lt (by omega), length_append, put, repr.toList_length]
    rfl
  | uuid o =>
    obtain ⟨d, rfl⟩ := ha
    refine ⟨.uuid d.toList, ?_, fun _ => rfl⟩
    simp only [get]
    rw [takeLimited_append (by rw [put, d.toList_length]; decide) hdata hneedle
      d.toList_length.symm]
    rfl
  | frame o =>
    obtain ⟨d, rfl⟩ := ha
    cases hframes
  | msg o =>
    obtain ⟨m, rfl, hne⟩ := ha
    exact absurd hframes hne

lemma get_msg (junk : Nat → UInt8) {m : Zmsg} (hne : m.frames ≠ []) (hmore : s.more = true)
    (hparts : s.parts = withMore m.frames) :
    get junk b (b.base + b.data.length) true s .msg =
        .ok (some (.msg (m.frames.foldl Zmsg.append Zmsg.new), { s with more := false, parts := [] })) ∧
      (m.frames.foldl Zmsg.append Zmsg.new).frames = m.frames := by
  constructor
  · simp only [get]
    rw [if_pos hmore, hparts, zmsgRecv_withMore hne]
    rfl
  · rw [Zmsg.foldl_append_frames]
    rfl

lemma get_string (junk : Nat → UInt8) (last : Bool) {str : CString} (hlen : str.1.length ≤ 255)
    (hdata : b.data = pre ++ put (.string (some str)) ++ post)
    (hneedle : s.needle = b.base + pre.length)
    (hroom : s.cacheUsed + (str.1.length + 1) ≤ s.cache.data.length)
    (hcount : s.cacheUsed + (str.1.length + 1) < 2 ^ 32) :
    ∃ cache, get junk b (b.base + b.data.length) last s .string =
        .ok (some (.string s.cache.generation s.cacheUsed,
          { s with
            needle := b.base + (pre ++ put (.string (some str))).length
            cache := cache
            cacheUsed := s.cacheUsed + (str.1.length + 1) })) ∧
      cache.data.length = s.cache.data.length ∧ Cache.Keeps s.cacheUsed s.cache cache ∧
      ∀ c, Cache.Keeps (s.cacheUsed + (str.1.length + 1)) cache c →
        (Output.string s.cache.generation s.cacheUsed).Equals c (.string (some str)) := by
  have hput : put (.string (some str)) = toBytes 1 str.1.length ++ str.1 := rfl
  have hhead : b.data = pre ++ toBytes 1 str.1.length ++ (str.1 ++ post) := by
    rw [hdata, hput]
    simp
  have hbody : b.data = (pre ++ toBytes 1 str.1.length) ++ str.1 ++ post := by
    rw [hhead]
    simp
  have hend : (s.cacheUsed + str.1.length) % 2 ^ 32 = s.cacheUsed + str.1.length :=
    Nat.mod_eq_of_lt (by omega)
  have hfit : s.cacheUsed + str.1.length ≤ s.cache.data.length := by omega
  have hlen' := length_splice hfit
  have hfit' : s.cacheUsed + str.1.length + [(0 : UInt8)].length ≤
      (splice s.cache.data s.cacheUsed str.1).length := by
    rw [hlen']
    omega
  have hexpand : s.cache.expand junk (s.cacheUsed + str.1.length) = s.cache := if_neg (by omega)
  have htake := take_splice_end hfit'
  rw [take_splice_end hfit] at htake
  refine ⟨⟨s.cache.generation,
    splice (splice s.cache.data s.cacheUsed str.1) (s.cacheUsed + str.1.length) [0]⟩, ?_, ?_,
    ⟨rfl, ?_⟩, ?_⟩
  · simp only [get]
    rw [getNumber_append (by omega) hhead hneedle]
    change unlessMalformed (take _ _ _ _) _ = _
    rw [take_append hbody rfl rfl]
    simp only [unlessMalformed, ok_bind, hend, hexpand, Cache.write, hfit, hfit', if_true]
    rw [hput, ← append_assoc,
      Nat.mod_eq_of_lt (by omega : s.cacheUsed + str.1.length + 1 < 2 ^ 32)]
    rfl
  ·
    rw [length_splice hfit', hlen']
  ·
    rw [take_splice hfit' (by omega), take_splice hfit (Nat.le_refl _)]
  · rintro c ⟨hgen, hkeep⟩
    refine ⟨hgen.symm, ?_⟩
    have hfront : c.data.take (s.cacheUsed + str.1.length + 1) = _ := hkeep.trans htake
    have hpre : (s.cache.data.take s.cacheUsed).length = s.cacheUsed := by
      rw [length_take]
      omega
    rw [← take_append_drop (s.cacheUsed + str.1.length + 1) c.data, hfront, append_assoc,
      append_assoc, drop_append_of_le_length hpre.ge, drop_eq_nil_of_le hpre.le]
    exact cstr_append str _

lemma reads_string {str : CString} (hlen : str.1.length ≤ 255)
    (hdata : b.data = pre ++ put (.string (some str)) ++ post)
    (hs : Ready b pre fs used s) (hused : used + (str.1.length + 1) ≤ 512) :
    Reads junk b last s (.string (some str)) pre fs used := by
  have hsize := hs.size
  obtain rfl := hs.used
  obtain ⟨cache, hget, hlength, hkeeps, hequals⟩ :=
    get_string junk last hlen hdata hs.needle (by omega) (by omega)
  exact ⟨_, _, hget, ⟨rfl, hsize.trans_eq hlength.symm, rfl, hs.parts, hs.more⟩, hkeeps, hequals⟩

lemma get_reads (junk : Nat → UInt8) {a : Arg} (ha : a.Sendable)
    (hdata : b.data = pre ++ put a ++ post)
    (hs : Ready b pre (a.frames ++ fs) used s) (hused : used + a.cached ≤ 512)
    (hlast : a.element = .msg → last = true ∧ fs = []) : Reads junk b last s a pre fs used := by
  -- all but strings, frames and messages leave cache and frames as they are
  have hplain : a.frames = [] → a.cached = 0 → Reads junk b last s a pre fs used := by
    intro hframes hcached
    obtain ⟨out, hget, hout⟩ := get_plain junk last ha hdata hs.needle hframes hcached
    refine ⟨out, _, hget, ⟨rfl, hs.size, ?_, ?_, ?_⟩, ⟨rfl, rfl⟩, fun c _ => hout c⟩
    · rw [hcached]
      exact hs.used
    · rw [hs.parts, hframes, nil_append]
    · rw [hs.more, hframes, nil_append]
  cases a with
  | number1 | number2 | number4 | number8 | pointer => exact hplain rfl rfl
  | longstr | chunk | uuid => exact hplain rfl rfl
  | string o =>
    obtain ⟨str, rfl, hlen⟩ := ha
    exact reads_string hlen hdata hs hused
  | frame o =>
    obtain ⟨d, rfl⟩ := ha
    have hparts : s.parts = (d, !fs.isEmpty) :: withMore fs := hs.parts
    have hmore : s.more = true := hs.more
    refine ⟨.frame d, { s with more := !fs.isEmpty, parts := withMore fs }, ?_, ?_, ⟨rfl, rfl⟩,
      fun _ _ => rfl⟩
    · simp only [element, get]
      rw [if_pos hmore, hparts]
    · refine ⟨?_, hs.size, hs.used, rfl, rfl⟩
      rw [put, append_nil]
      exact hs.needle
  | msg o =>
    obtain ⟨m, rfl, hne⟩ := ha
    obtain ⟨rfl, rfl⟩ := hlast rfl
    have hmore : s.more = true := by
      rw [hs.more]
      simpa [Arg.frames] using hne
    obtain ⟨hget, hframes⟩ := get_msg junk hne hmore (by rw [hs.parts, append_nil]; rfl)
    refine ⟨_, _, hget, ⟨?_, hs.size, hs.used, rfl, rfl⟩, ⟨rfl, rfl⟩, fun _ _ => hframes⟩
    rw [put, append_nil]
    exact hs.needle

lemma getAll_eq (junk : Nat → UInt8) {args : List Arg} (hargs : ∀ a ∈ args, a.Sendable)
    (hlast : ∀ a ∈ args.dropLast, a.element ≠ .msg) (hdata : b.data = pre ++ args.flatMap put)
    (hs : Ready b pre (args.flatMap Arg.frames) used s)
    (hused : used + (args.map cached).sum ≤ 512) (outs : List Output) :
    ∃ outs' s', getAll junk b (b.base + b.data.length) (args.map code) s outs =
        .ok (0, outs ++ outs', s') ∧
      Forall₂ (Output.Equals s'.cache) outs' args ∧ Cache.Keeps used s.cache s'.cache ∧
      s'.needle = b.base + b.data.length ∧ s'.parts = [] := by
  induction args generalizing pre used s outs with
  | nil =>
    refine ⟨[], s, by rw [append_nil]; rfl, .nil, ⟨rfl, rfl⟩, ?_, hs.parts⟩
    rw [hs.needle, hdata, flatMap_nil, append_nil]
  | cons a args ih =>
    rw [map_cons, sum_cons] at hused
    have hround : b.data = pre ++ put a ++ args.flatMap put := by
      rw [hdata, flatMap_cons, append_assoc]
    have hend : a.element = .msg →
        (args.map code).isEmpty = true ∧ args.flatMap Arg.frames = [] := by
      intro ha
      rw [isEmpty_of_msg hlast ha]
      exact ⟨rfl, rfl⟩
    obtain ⟨out, s1, hget, hs1, hkeep, hout⟩ := get_reads junk
      (hargs a (mem_cons_self ..)) hround hs (by omega) hend
    obtain ⟨outs', s', hrun, heq, hkeep', hneedle, hparts⟩ :=
      ih (fun x hx => hargs x (mem_cons_of_mem _ hx)) (msgLast_tail hlast) hround hs1
        (by omega) (outs ++ [out])
    refine ⟨out :: outs', s', ?_, .cons (hout _ hkeep') heq, hkeep.trans hkeep' (by omega), hneedle,
      hparts⟩
    rw [map_cons, getAll, a.ofChar_code]
    dsimp only
    rw [hget]
    simpa using hrun

end

/-- What `zsock_bsend` sends, `zsock_brecv` with the same picture receives: it returns 0, every
output equals the argument, and the data frame is read to its end. -/
theorem brecv_bsend (junk junk' : Nat → UInt8) {args : List Arg} (h : Sendable args)
    (cache : Option Cache) (hcache : ∀ c ∈ cache, 512 ≤ c.data.length) :
    ∃ data more parts, bsend junk (args.map code) args = .ok ((data, more) :: parts) ∧
      ∀ b : Block, b.data = data → ∃ outs s,
        brecv junk' cache (args.map code) b more parts = .ok (0, outs, s) ∧
        Forall₂ (Output.Equals s.cache) outs args ∧
        s.needle = b.base + b.data.length ∧ s.parts = [] := by
  refine ⟨_, _, _, bsend_eq junk h.each h.msg_last h.table h.memory, fun b hb => ?_⟩
  have hsize : 512 ≤ (cache.getD ⟨0, (range 512).map junk'⟩).data.length := by
    cases cache with
    | none => simp
    | some c => exact hcache c rfl
  have hready : Ready b [] (args.flatMap Arg.frames) 0
      { needle := b.base, cache := cache.getD ⟨0, (range 512).map junk'⟩, cacheUsed := 0,
        more := !(args.flatMap Arg.frames).isEmpty,
        parts := withMore (args.flatMap Arg.frames) } := ⟨rfl, hsize, rfl, rfl, rfl⟩
  have hused := h.cache
  obtain ⟨outs, s, hrun, heq, -, hneedle, hparts⟩ :=
    getAll_eq junk' h.each h.msg_last hb hready (by omega) []
  refine ⟨outs, s, ?_, heq, hneedle, hparts⟩
  rw [brecv, ptrAdd_of_lt b.end_lt]
  exact hrun

theorem brecv_bsend_five_arguments : ∃ args : List Arg,
    args = [.number1 7, .number2 300, .string (some ⟨[104, 105], by decide⟩), .frame (some [1]),
      .msg (some ⟨[[2], []], 1⟩)] ∧
    ∃ data more parts, bsend (fun _ => 0) ['1', '2', 's', 'f', 'm'] args =
        .ok ((data, more) :: parts) ∧
      ∀ b : Block, b.data = data → ∃ outs s,
        brecv (fun _ => 0) none ['1', '2', 's', 'f', 'm'] b more parts = .ok (0, outs, s) ∧
        Forall₂ (Output.Equals s.cache) outs args ∧
        s.needle = b.base + b.data.length ∧ s.parts = [] := by
  have hsend : Sendable [.number1 7, .number2 300, .string (some ⟨[104, 105], by decide⟩),
      .frame (some [1]), .msg (some ⟨[[2], []], 1⟩)] :=
    ⟨by simp [Arg.Sendable], by decide, by decide, by decide, by decide⟩
  exact ⟨_, rfl, brecv_bsend (fun _ => 0) (fun _ => 0) hsend none (fun c hc => by cases hc)⟩

end Zsock

end Czmq
