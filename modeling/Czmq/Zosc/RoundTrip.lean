import Czmq.Zosc.Message

/-! What `zosc_create` writes, `zosc_retr` reads back, as long as no data stands behind an `'N'` or
an `'I'`: the reader moves by one for these, and nothing was written. -/

namespace Czmq.Zosc

open List Bytes Tag Value

lemma aligned_add {p : Nat} (hp : p % 4 = 0) (n : Nat) : aligned (p + n) = p + aligned n := by
  unfold aligned
  omega

lemma le_aligned (n : Nat) : n ≤ aligned n := by
  unfold aligned
  omega

lemma aligned_mod (n : Nat) : aligned n % 4 = 0 := by
  unfold aligned
  omega

def Value.bytes : Value → List UInt8
  | .int n => toBytes 4 n.toNat
  | .long n => toBytes 8 n.toNat
  | .float bits => toBytes 4 bits.toNat
  | .double bits => toBytes 8 bits.toNat
  | .string s =>
    s.1 ++ 0 :: replicate (aligned (s.1.length + 1) - (s.1.length + 1)) 0
  | .char c => [0, 0, 0, c]
  | .midi n => toLittle 4 n.toNat
  | .bool _ => []

lemma length_bytes_string (s : CString) :
    (string s).bytes.length = aligned (s.1.length + 1) := by
  have hle := le_aligned (s.1.length + 1)
  simp only [bytes, length_append, length_cons, length_replicate]
  omega

lemma length_bytes_mod (v : Value) : v.bytes.length % 4 = 0 := by
  cases v with
  | string s => rw [length_bytes_string, aligned_mod]
  | _ => simp [bytes]

lemma data_align (chunk : Chunk) :
    chunk.align.data = chunk.data ++
      replicate (aligned chunk.data.length - chunk.data.length) 0 := by
  rw [Chunk.align]
  split
  · rfl
  · next h =>
    have h0 : aligned chunk.data.length - chunk.data.length = 0 := by simpa using h
    rw [h0, replicate_zero, append_nil]

lemma data_align_mod (chunk : Chunk) : chunk.align.data.length % 4 = 0 := by
  have hle := le_aligned chunk.data.length
  rw [data_align, length_append, length_replicate, Nat.add_sub_cancel' hle, aligned_mod]

lemma data_put {chunk : Chunk} (h : chunk.data.length % 4 = 0) (v : Value) :
    (put chunk v).data = chunk.data ++ v.bytes := by
  cases v with
  | string s =>
    have hlen : (chunk.extend (s.1 ++ [0])).data.length = chunk.data.length + (s.1.length + 1) := by
      simp [Chunk.extend]
    rw [put, data_align, hlen, aligned_add h, Nat.add_sub_add_left]
    simp [Chunk.extend, bytes]
  | bool b => simp [put, bytes]
  | _ => rfl

lemma data_header_mod (address : CString) (format : List Char) :
    (header address format).data.length % 4 = 0 := data_align_mod _

section
variable {c : Char} {format : List Char} {args : List Value}

lemma fits_cons_carries (hc : (ofChar c).carries = true) :
    Fits (c :: format) args ↔
      ∃ v rest, args = v :: rest ∧ v.tag = ofChar c ∧ Fits format rest := by
  rw [Fits, map_cons, filter_cons_of_pos hc, map_eq_cons_iff]
  rfl

lemma fits_cons_of_not (hc : (ofChar c).carries = false) :
    Fits (c :: format) args ↔ Fits format args := by
  rw [Fits, map_cons, filter_cons_of_neg (by simp [hc])]
  rfl

lemma expected_cons_carries (hc : (ofChar c).carries = true) (v : Value) :
    expected (c :: format) (v :: args) = v :: expected format args := by
  rw [expected]
  revert hc
  cases ofChar c <;> simp [carries]

lemma appendData_of_fits {chunk : Chunk} (hfits : Fits format args)
    (hchunk : chunk.data.length % 4 = 0) :
    ∃ chunk', appendData format args chunk = .ok chunk' ∧
      chunk'.data = chunk.data ++ args.flatMap bytes := by
  induction format generalizing args chunk with
  | nil =>
    obtain rfl : args = [] := map_eq_nil_iff.mp hfits
    exact ⟨chunk, rfl, by simp⟩
  | cons c format ih =>
    cases hc : (ofChar c).carries with
    | false =>
      obtain ⟨chunk', he, hdata⟩ := ih ((fits_cons_of_not hc).mp hfits) hchunk
      exact ⟨chunk', by simp [appendData, hc, he], hdata⟩
    | true =>
      obtain ⟨v, rest, rfl, htag, hrest⟩ := (fits_cons_carries hc).mp hfits
      have hput := data_put hchunk v
      have hmod : (put chunk v).data.length % 4 = 0 := by
        rw [hput, length_append, Nat.add_mod, hchunk, length_bytes_mod]
      obtain ⟨chunk', he, hdata⟩ := ih hrest hmod
      refine ⟨chunk', ?_, ?_⟩
      · simp only [appendData, hc, if_true, htag, he]
      · rw [hdata, hput, flatMap_cons, append_assoc]

end

/-! ## Reading in step with the writer -/

section
variable {pre post : List UInt8} {c : Char} {format : List Char} {args : List Value}

lemma loadAt_append (bs : List UInt8) :
    loadAt (pre ++ (bs ++ post)) pre.length bs.length = .ok bs := by
  rw [loadAt, if_pos (by simp only [length_append]; omega), drop_left, take_left]

lemma number_append {w n : Nat} (hn : n < 256 ^ w) (value : Nat → Value) :
    number (pre ++ (toBytes w n ++ post)) pre.length w value =
      .ok ([value n], pre.length + w) := by
  have hload : loadAt (pre ++ (toBytes w n ++ post)) pre.length (toBytes w n).length =
      .ok (toBytes w n) := loadAt_append _
  rw [length_toBytes] at hload
  rw [number, hload, Except.map, ofBytes_toBytes_of_lt hn]

lemma get_bytes {v : Value} (hpre : pre.length % 4 = 0) (hv : v.tag.carries = true)
    (hm : v.tag ≠ .midi) :
    get (pre ++ (v.bytes ++ post)) pre.length v.tag = .ok ([v], pre.length + v.bytes.length) := by
  cases v with
  | int n =>
    rw [tag, get, bytes, number_append n.toNat_lt, UInt32.ofNat_toNat, length_toBytes]
  | long n =>
    rw [tag, get, bytes, number_append n.toNat_lt, UInt64.ofNat_toNat, length_toBytes]
  | float n =>
    rw [tag, get, bytes, number_append n.toNat_lt, UInt32.ofNat_toNat, length_toBytes]
  | double n =>
    rw [tag, get, bytes, number_append n.toNat_lt, UInt64.ofNat_toNat, length_toBytes]
  | string s =>
    have hread : CString.ofBuffer ((pre ++ ((string s).bytes ++ post)).drop pre.length) = s := by
      rw [drop_left]
      apply Subtype.ext
      rw [bytes, append_assoc]
      exact cstr_append s _
    have hlen := length_bytes_string s
    have hle := le_aligned (s.1.length + 1)
    rw [tag, get, stringAt, hread, if_pos (by simp only [length_append]; omega),
      Except.map, aligned_add hpre, hlen]
  | char c =>
    have hsplit : pre ++ ([0, 0, 0, c] ++ post) = (pre ++ [0, 0, 0]) ++ ([c] ++ post) := by simp
    have hload : loadAt ((pre ++ [0, 0, 0]) ++ ([c] ++ post)) (pre ++ [0, 0, 0]).length 1 =
        .ok [c] := loadAt_append [c]
    rw [← hsplit, length_append] at hload
    change loadAt _ (pre.length + 3) 1 = _ at hload
    rw [tag, get, bytes, hload]
    rfl
  | midi n => exact absurd rfl hm
  | bool b => cases b <;> cases hv

def Tag.plain : Tag → List Value
  | .yes => [.bool true]
  | .no => [.bool false]
  | _ => []

def isGap (c : Char) : Bool := ofChar c == .nil || ofChar c == .infinitum

lemma get_plain (hc : (ofChar c).carries = false) (buffer : List UInt8) (needle : Nat) :
    get buffer needle (ofChar c) =
      .ok ((ofChar c).plain, if isGap c then needle + 1 else needle) := by
  rw [isGap]
  revert hc
  cases ofChar c <;> intro hc <;> first | rfl | cases hc

lemma eq_ok_of_map_append {values rest : List Value} {x : Except Fault (List Value)}
    (h : (x.map fun vs => values ++ vs) = .ok (values ++ rest)) : x = .ok rest := by
  cases x with
  | error e => cases h
  | ok vs => rw [append_cancel_left (Except.ok.inj h)]

lemma expected_cons_plain (hc : (ofChar c).carries = false) :
    expected (c :: format) args = (ofChar c).plain ++ expected format args := by
  rw [expected]
  revert hc
  cases ofChar c <;> simp [carries, plain]

lemma getAll_plain (h : ∀ c ∈ format, (ofChar c).carries = false) (buffer : List UInt8)
    (needle : Nat) : getAll buffer format needle = .ok (expected format args) := by
  induction format generalizing needle with
  | nil => rfl
  | cons c format ih =>
    have hc := h c mem_cons_self
    rw [getAll, get_plain hc, ok_bind, ih fun x hx => h x (mem_cons_of_mem _ hx),
      expected_cons_plain hc]
    rfl

def Clear (format : List Char) : Prop :=
  ∀ c ∈ format.dropWhile (!isGap ·), (ofChar c).carries = false

instance (format : List Char) : Decidable (Clear format) :=
  decidableBAll (fun c => (ofChar c).carries = false) (format.dropWhile (!isGap ·))

lemma clear_cons_of_not (hc : isGap c = false) : Clear (c :: format) ↔ Clear format := by
  rw [Clear, dropWhile_cons_of_pos (by rw [hc]; rfl)]
  rfl

lemma clear_cons_gap (hc : isGap c = true) :
    Clear (c :: format) ↔ ∀ d ∈ c :: format, (ofChar d).carries = false := by
  rw [Clear, dropWhile_cons_of_neg (by rw [hc]; decide)]

lemma not_carries_of_isGap (hc : isGap c = true) : (ofChar c).carries = false := by
  rw [isGap, Bool.or_eq_true, beq_iff_eq, beq_iff_eq] at hc
  rcases hc with hc | hc <;> rw [hc] <;> rfl

lemma getAll_of_clear (hm : ∀ c ∈ format, ofChar c ≠ .midi) (hfits : Fits format args)
    (hclear : Clear format) (hpre : pre.length % 4 = 0) :
    getAll (pre ++ (args.flatMap bytes ++ post)) format pre.length =
      .ok (expected format args) := by
  induction format generalizing args pre with
  | nil => rfl
  | cons c format ih =>
    have hm' := fun x hx => hm x (mem_cons_of_mem _ hx)
    cases hgap : isGap c with
    | true => exact getAll_plain ((clear_cons_gap hgap).mp hclear) _ _
    | false =>
      have hclear := (clear_cons_of_not hgap).mp hclear
      cases hc : (ofChar c).carries with
      | false =>
        have htail := ih hm' ((fits_cons_of_not hc).mp hfits) hclear hpre
        rw [getAll, get_plain hc, hgap, ok_bind]
        simp only [Bool.false_eq_true, if_false]
        rw [htail, expected_cons_plain hc]
        rfl
      | true =>
        obtain ⟨v, rest, rfl, htag, hrest⟩ := (fits_cons_carries hc).mp hfits
        have hv : get (pre ++ (v.bytes ++ (rest.flatMap bytes ++ post))) pre.length v.tag =
            .ok ([v], pre.length + v.bytes.length) :=
          get_bytes hpre (htag ▸ hc) (htag ▸ hm c mem_cons_self)
        have hmod : (pre ++ v.bytes).length % 4 = 0 := by
          rw [length_append, Nat.add_mod, hpre, length_bytes_mod]
        have htail := ih hm' hrest hclear hmod
        rw [length_append, append_assoc] at htail
        rw [getAll, ← htag, flatMap_cons, append_assoc, hv, ok_bind, htail,
          expected_cons_carries hc]
        rfl

end

/-! ## Reading out of step -/

def Tag.zero : Tag → Value
  | .long => .long 0
  | .float => .float 0
  | .double => .double 0
  | .string => .string ⟨[], by simp⟩
  | .char => .char 0
  | .midi => .midi 0
  | _ => .int 0

def Tag.spike : Tag → Value
  | .long => .long 0x0100000000000000
  | .float => .float 0x01000000
  | .double => .double 0x0100000000000000
  | .string => .string ⟨[1], by decide⟩
  | .char => .char 1
  | .midi => .midi 1
  | _ => .int 0x01000000

lemma Tag.tag_zero {t : Tag} (ht : t.carries = true) : t.zero.tag = t := by
  cases t <;> first | rfl | cases ht

lemma Tag.tag_spike {t : Tag} (ht : t.carries = true) : t.spike.tag = t := by
  cases t <;> first | rfl | cases ht

lemma Tag.bytes_zero (t : Tag) : ∃ n, t.zero.bytes = replicate n 0 := by
  cases t <;> first | exact ⟨4, by decide⟩ | exact ⟨8, by decide⟩

lemma exists_fits_zero (format : List Char) :
    ∃ args n, Fits format args ∧ args.flatMap bytes = replicate n 0 := by
  induction format with
  | nil => exact ⟨[], 0, rfl, rfl⟩
  | cons c format ih =>
    obtain ⟨args, n, hfits, hbytes⟩ := ih
    cases hc : (ofChar c).carries with
    | false => exact ⟨args, n, (fits_cons_of_not hc).mpr hfits, hbytes⟩
    | true =>
      obtain ⟨m, hm⟩ := (ofChar c).bytes_zero
      refine ⟨(ofChar c).zero :: args, m + n,
        (fits_cons_carries hc).mpr ⟨_, args, rfl, tag_zero hc, hfits⟩, ?_⟩
      rw [flatMap_cons, hm, hbytes, replicate_add]

section
variable {pre : List UInt8} {c : Char} {format : List Char}

variable {first : UInt8}

lemma drop_zeros {m k : Nat} (hk : 0 < k) :
    (pre ++ first :: replicate m 0).drop (pre.length + k) = replicate (m - (k - 1)) 0 := by
  obtain ⟨j, rfl⟩ := Nat.exists_eq_add_of_le' hk
  rw [← drop_drop, drop_left, drop_succ_cons, drop_replicate]
  rfl

lemma loadAt_zeros {m k w : Nat} (hk : 0 < k) {bs : List UInt8}
    (h : loadAt (pre ++ first :: replicate m 0) (pre.length + k) w = .ok bs) :
    bs = replicate w 0 := by
  rw [loadAt] at h
  split at h
  · next hin =>
    rw [length_append, length_cons, length_replicate] at hin
    rw [drop_zeros hk, take_replicate, min_eq_left (by omega)] at h
    exact (Except.ok.inj h).symm
  · cases h

lemma number_zeros {m k w : Nat} (hk : 0 < k) {value : Nat → Value} {x : List Value × Nat}
    (h : number (pre ++ first :: replicate m 0) (pre.length + k) w value = .ok x) :
    x.1 = [value (ofBytes (replicate w 0))] := by
  rw [number] at h
  cases hload : loadAt (pre ++ first :: replicate m 0) (pre.length + k) w with
  | error e => rw [hload] at h; cases h
  | ok bs =>
    rw [hload, loadAt_zeros hk hload] at h
    cases h
    rfl

lemma get_spike {t : Tag} (ht : t.carries = true) (hm : t ≠ .midi) {m k : Nat} (hk : 0 < k)
    {x : List Value × Nat}
    (h : get (pre ++ (t.spike.bytes ++ replicate m 0)) (pre.length + k) t = .ok x) :
    ∃ v, x.1 = [v] ∧ v ≠ t.spike := by
  have hjoin : ∀ n, (1 :: replicate n 0) ++ replicate m (0 : UInt8) =
      1 :: replicate (n + m) 0 := by
    intro n
    rw [cons_append, replicate_add]
  cases t with
  | int =>
    have hbytes : (spike .int).bytes = 1 :: replicate 3 0 := by decide
    rw [hbytes, hjoin, get] at h
    exact ⟨_, number_zeros hk h, by decide⟩
  | float =>
    have hbytes : (spike .float).bytes = 1 :: replicate 3 0 := by decide
    rw [hbytes, hjoin, get] at h
    exact ⟨_, number_zeros hk h, by decide⟩
  | long =>
    have hbytes : (spike .long).bytes = 1 :: replicate 7 0 := by decide
    rw [hbytes, hjoin, get] at h
    exact ⟨_, number_zeros hk h, by decide⟩
  | double =>
    have hbytes : (spike .double).bytes = 1 :: replicate 7 0 := by decide
    rw [hbytes, hjoin, get] at h
    exact ⟨_, number_zeros hk h, by decide⟩
  | string =>
    have hbytes : (spike .string).bytes = 1 :: replicate 3 0 := by decide
    rw [hbytes, hjoin, get, stringAt, drop_zeros hk] at h
    have hempty : ∀ n, CString.ofBuffer (replicate n 0) = ⟨[], by simp⟩ := by
      intro n
      apply Subtype.ext
      change cstr _ = []
      cases n <;> simp [cstr]
    rw [hempty] at h
    split at h
    · cases h
      exact ⟨_, rfl, by decide⟩
    · cases h
  | char =>
    -- its byte is the last of four
    have hbytes : pre ++ ((spike .char).bytes ++ replicate m 0) =
        (pre ++ [0, 0, 0]) ++ 1 :: replicate m 0 := by simp [spike, bytes]
    have hplace : pre.length + k + 3 = (pre ++ [0, 0, 0]).length + k := by
      rw [length_append]
      simp only [length_cons, length_nil]
      omega
    rw [hbytes, get, hplace] at h
    cases hload : loadAt (pre ++ [0, 0, 0] ++ 1 :: replicate m 0)
        ((pre ++ [0, 0, 0]).length + k) 1 with
    | error e => rw [hload] at h; cases h
    | ok bs =>
      rw [hload, loadAt_zeros hk hload] at h
      cases h
      exact ⟨_, rfl, by decide⟩
  | midi => exact absurd rfl hm
  | _ => cases ht

lemma exists_misread (hm : ∀ c ∈ format, ofChar c ≠ .midi)
    (hdata : ∃ c ∈ format, (ofChar c).carries = true) :
    ∃ args, Fits format args ∧ ∀ (pre : List UInt8) (n needle : Nat), pre.length < needle →
      getAll (pre ++ (args.flatMap bytes ++ replicate n 0)) format needle ≠
        .ok (expected format args) := by
  induction format with
  | nil =>
    obtain ⟨c, hc, -⟩ := hdata
    cases hc
  | cons c format ih =>
    cases hc : (ofChar c).carries with
    | true =>
      -- a spike for this tag and zeros for all that follow
      obtain ⟨args, m, hfits, hbytes⟩ := exists_fits_zero format
      refine ⟨(ofChar c).spike :: args,
        (fits_cons_carries hc).mpr ⟨_, args, rfl, tag_spike hc, hfits⟩, ?_⟩
      intro pre n needle hlt heq
      obtain ⟨k, rfl⟩ := Nat.exists_eq_add_of_lt hlt
      rw [flatMap_cons, hbytes, append_assoc, ← replicate_add,
        expected_cons_carries hc] at heq
      obtain ⟨x, hget, hrest⟩ := bind_eq_ok.mp heq
      obtain ⟨v, hx, hv⟩ := get_spike hc (hm c mem_cons_self) (Nat.succ_pos k) hget
      rw [hx] at hrest
      cases hall : getAll (pre ++ ((ofChar c).spike.bytes ++ replicate (m + n) 0)) format
          x.2 with
      | error e => rw [hall] at hrest; cases hrest
      | ok values =>
        rw [hall] at hrest
        exact hv (cons.inj (Except.ok.inj hrest)).1
    | false =>
      have hdata' : ∃ d ∈ format, (ofChar d).carries = true := by
        obtain ⟨d, hd, hcd⟩ := hdata
        rcases mem_cons.mp hd with rfl | hd
        · rw [hc] at hcd
          cases hcd
        · exact ⟨d, hd, hcd⟩
      obtain ⟨args, hfits, hmis⟩ := ih (fun x hx => hm x (mem_cons_of_mem _ hx)) hdata'
      refine ⟨args, (fits_cons_of_not hc).mpr hfits, fun pre n needle hlt heq => ?_⟩
      rw [getAll, get_plain hc, expected_cons_plain hc] at heq
      refine hmis pre n _ ?_ (eq_ok_of_map_append heq)
      split <;> omega

lemma exists_misread_of_not_clear (hm : ∀ c ∈ format, ofChar c ≠ .midi)
    (hclear : ¬ Clear format) :
    ∃ args, Fits format args ∧ ∀ (pre : List UInt8) (n : Nat), pre.length % 4 = 0 →
      getAll (pre ++ (args.flatMap bytes ++ replicate n 0)) format pre.length ≠
        .ok (expected format args) := by
  induction format with
  | nil => exact absurd (fun _ hc => nomatch hc) hclear
  | cons c format ih =>
    have hm' := fun x hx => hm x (mem_cons_of_mem _ hx)
    cases hgap : isGap c with
    | true =>
      have hc := not_carries_of_isGap hgap
      have hdata : ∃ d ∈ format, (ofChar d).carries = true := by
        by_contra hnone
        push Not at hnone
        refine hclear ((clear_cons_gap hgap).mpr (forall_mem_cons.mpr ⟨hc, fun d hd => ?_⟩))
        exact Bool.eq_false_iff.mpr (hnone d hd)
      obtain ⟨args, hfits, hmis⟩ := exists_misread hm' hdata
      refine ⟨args, (fits_cons_of_not hc).mpr hfits, fun pre n _ heq => ?_⟩
      rw [getAll, get_plain hc, hgap, expected_cons_plain hc] at heq
      exact hmis pre n _ (Nat.lt_succ_self _) (eq_ok_of_map_append heq)
    | false =>
      rw [clear_cons_of_not hgap] at hclear
      obtain ⟨args, hfits, hmis⟩ := ih hm' hclear
      cases hc : (ofChar c).carries with
      | true =>
        have htag := tag_zero hc
        refine ⟨(ofChar c).zero :: args,
          (fits_cons_carries hc).mpr ⟨_, args, rfl, htag, hfits⟩, fun pre n hpre heq => ?_⟩
        have hget : get (pre ++ ((ofChar c).zero.bytes ++
            (args.flatMap bytes ++ replicate n 0))) pre.length (ofChar c).zero.tag =
            .ok ([(ofChar c).zero], pre.length + (ofChar c).zero.bytes.length) :=
          get_bytes hpre (by rw [htag]; exact hc) (by rw [htag]; exact hm c mem_cons_self)
        rw [htag] at hget
        rw [getAll, flatMap_cons, append_assoc, hget,
          expected_cons_carries hc] at heq
        have htail := @eq_ok_of_map_append [(ofChar c).zero] _ _ heq
        rw [← length_append, ← append_assoc] at htail
        refine hmis _ n ?_ htail
        rw [length_append, Nat.add_mod, hpre, length_bytes_mod]
      | false =>
        refine ⟨args, (fits_cons_of_not hc).mpr hfits, fun pre n hpre heq => ?_⟩
        rw [getAll, get_plain hc, hgap, expected_cons_plain hc] at heq
        exact hmis pre n hpre (eq_ok_of_map_append heq)

end

lemma create_of_fits (address : CString) {format : List Char} {args : List Value}
    (hfits : Fits format args) :
    ∃ msg, create address format args = .ok msg ∧
      msg.dataBegin = (header address format).data.length ∧
      ∀ junk, ∃ n, msg.chunk.buffer junk = (header address format).data ++
        (args.flatMap bytes ++ (range' msg.chunk.data.length n).map junk) := by
  obtain ⟨chunk, he, hdata⟩ := appendData_of_fits hfits (data_header_mod address format)
  refine ⟨_, by rw [create, he]; rfl, rfl, fun junk => ⟨chunk.maxSize - chunk.data.length, ?_⟩⟩
  rw [Chunk.buffer, ← append_assoc, ← hdata]

end Czmq.Zosc
