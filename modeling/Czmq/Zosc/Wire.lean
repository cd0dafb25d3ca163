import Czmq.Zosc.RoundTrip

/-! The bytes of an OSC message, what `zosc_append` makes of them, and what `zosc_frommem` finds in
any bytes. -/

namespace Czmq.Zosc

open List Bytes Value

def padded (bytes : List UInt8) : List UInt8 :=
  bytes ++ replicate (aligned bytes.length - bytes.length) 0

def heading (address : CString) (format : List UInt8) : List UInt8 :=
  padded (address.1 ++ [0]) ++ padded (44 :: (format ++ [0]))

lemma length_padded (bytes : List UInt8) : (padded bytes).length = aligned bytes.length := by
  rw [padded, length_append, length_replicate, Nat.add_sub_cancel' (le_aligned _)]

lemma padded_append {pre : List UInt8} (h : pre.length % 4 = 0) (bytes : List UInt8) :
    padded (pre ++ bytes) = pre ++ padded bytes := by
  rw [padded, length_append, aligned_add h, Nat.add_sub_add_left, append_assoc, padded]

lemma length_heading (address : CString) (format : List UInt8) :
    (heading address format).length = aligned (address.1.length + 1) + aligned (format.length + 2) := by
  simp [heading, length_padded]

lemma length_heading_mod (address : CString) (format : List UInt8) :
    (heading address format).length % 4 = 0 := by
  rw [length_heading, Nat.add_mod, aligned_mod, aligned_mod]

/-- The part of `zosc_create` and `zosc_append` that writes address and format. -/
def layout (room : Nat) (address : CString) (format : List UInt8) : Chunk :=
  let chunk : Chunk := ⟨[], room⟩
  let chunk := (chunk.extend (address.1 ++ [0])).align
  let chunk := chunk.extend [44]
  (chunk.extend (format ++ [0])).align

lemma data_layout (room : Nat) (address : CString) (format : List UInt8) :
    (layout room address format).data = heading address format := by
  have halign (chunk : Chunk) : chunk.align.data = padded chunk.data := data_align chunk
  have hmod : (padded (address.1 ++ [0])).length % 4 = 0 := by rw [length_padded, aligned_mod]
  simp only [layout, Chunk.extend, halign, nil_append, append_assoc, padded_append hmod]
  rfl

lemma create_data (address : CString) {format : List Char} {args : List Value}
    (hfits : Fits format args) :
    ∃ msg, create address format args = .ok msg ∧
      msg.chunk.data = heading address (formatBytes format) ++ args.flatMap bytes ∧
      msg.format = aligned (address.1.length + 1) + 1 ∧
      msg.dataBegin = (heading address (formatBytes format)).length := by
  have hhead : (header address format).data = heading address (formatBytes format) :=
    data_layout _ address _
  obtain ⟨chunk, he, hdata⟩ := appendData_of_fits hfits (data_header_mod address format)
  refine ⟨_, by rw [create, he]; rfl, ?_, rfl, ?_⟩
  · rw [hdata, hhead]
  · rw [← hhead]

/-- An argument in the wire format. -/
def Value.wire : Value → List UInt8
  | .int n | .float n | .midi n => toBytes 4 n.toNat
  | .long n | .double n => toBytes 8 n.toNat
  | .string s => padded (s.1 ++ [0])
  | .char c => [0, 0, 0, c]
  | .bool _ => []

def wire (address : CString) (format : List Char) (args : List Value) : List UInt8 :=
  heading address (formatBytes format) ++ args.flatMap Value.wire

def InWireFormat (address : CString) (format : List Char) (args : List Value) : Prop :=
  ∃ msg, create address format args = .ok msg ∧ msg.chunk.data = wire address format args ∧
    ∀ sent rest, args = sent ++ rest → (wire address format sent).length % 4 = 0

lemma length_wire (v : Value) : v.wire.length = v.bytes.length := by
  cases v with
  | string s => rw [length_bytes_string, Value.wire, length_padded, length_append]; rfl
  | _ => simp [Value.wire, bytes]

lemma wire_eq_bytes_iff (v : Value) :
    v.wire = v.bytes ↔ ∀ n, v = .midi n → toLittle 4 n.toNat = toBytes 4 n.toNat := by
  cases v with
  | midi n => simp [Value.wire, bytes, eq_comm]
  | string s => simp [Value.wire, bytes, padded]
  | _ => simp [Value.wire, bytes]

lemma flatMap_wire_iff (args : List Value) :
    args.flatMap Value.wire = args.flatMap bytes ↔ ∀ v ∈ args, v.wire = v.bytes := by
  induction args with
  | nil => simp
  | cons v args ih =>
    rw [flatMap_cons, flatMap_cons, forall_mem_cons, ← ih]
    constructor
    · exact fun h => append_inj h (length_wire v)
    · rintro ⟨hv, hargs⟩
      rw [hv, hargs]

lemma length_flatMap_mod {f : Value → List UInt8} (hf : ∀ v, (f v).length % 4 = 0)
    (args : List Value) : (args.flatMap f).length % 4 = 0 := by
  induction args with
  | nil => rfl
  | cons v args ih => rw [flatMap_cons, length_append, Nat.add_mod, hf, ih]

/-- `zosc_t`. The format of a new message is the literal `""`, not in the chunk. -/
structure Osc where
  chunk : Chunk
  format : Option Nat
  dataBegin : Nat

def new (address : CString) : Osc := ⟨⟨address.1 ++ [0], address.1.length + 1⟩, none, 0⟩

def Message.toOsc (msg : Message) : Osc := ⟨msg.chunk, some msg.format, msg.dataBegin⟩

def Osc.formatString (self : Osc) : Except Fault CString :=
  match self.format with
  | none => .ok ⟨[], zero_not_mem_nil⟩
  | some p => stringAt self.chunk.data p

/-- The size of the array for the new format, by way of an `int`. -/
def formatRoom (formatlen : Nat) : Except Fault Nat :=
  let n := formatlen % 2 ^ 32
  if 2 ^ 31 - 3 ≤ n ∧ n < 2 ^ 31 then .error .overflow else .ok (aligned n % 2 ^ 32)

def Osc.copyTo (self : Osc) (chunk : Chunk) : Chunk :=
  if self.dataBegin ≠ 0 then chunk.extend (self.chunk.data.drop self.dataBegin) else chunk

def Osc.append (self : Osc) (format : List Char) (args : List Value) : Except Fault Message := do
  let old ← self.formatString
  let room ← formatRoom (format.length + old.1.length + 1)
  -- an array of no bytes has no string in it
  if room = 0 then .error (.outOfBounds 0) else
    let address ← stringAt self.chunk.data 0
    let head := layout (2 + address.1.length + room * 10 % 2 ^ 32) address
      ((old.1 ++ formatBytes format).take (room - 1))
    let chunk ← appendData format args (self.copyTo head)
    pure ⟨chunk, aligned (address.1.length + 1) + 1, head.data.length⟩

def Message.parts (msg : Message) : List UInt8 × Nat × Nat :=
  (msg.chunk.data, msg.format, msg.dataBegin)

def Equals (x y : Except Fault Message) : Prop :=
  ∃ a b, x = .ok a ∧ y = .ok b ∧ a.parts = b.parts

def Short (formatlen : Nat) : Prop :=
  formatlen + 3 < 2 ^ 32 ∧ (formatlen + 3 < 2 ^ 31 ∨ 2 ^ 31 ≤ formatlen)

lemma formatRoom_of_short {n : Nat} (h : Short n) : formatRoom n = .ok (aligned n) := by
  obtain ⟨hlt, hint⟩ := h
  rw [formatRoom, Nat.mod_eq_of_lt (by omega), if_neg (by omega), Nat.mod_eq_of_lt]
  unfold aligned
  omega

lemma lt_of_formatRoom {n room : Nat} (h : formatRoom n = .ok room) (hshort : ¬ Short n) :
    room + 8 ≤ n := by
  rw [formatRoom] at h
  split at h
  · cases h
  · obtain rfl := Except.ok.inj h
    unfold aligned Short at *
    omega

lemma stringAt_append (pre : List UInt8) (s : CString) (post : List UInt8) :
    stringAt (pre ++ (s.1 ++ 0 :: post)) pre.length = .ok s := by
  have hread : CString.ofBuffer (s.1 ++ 0 :: post) = s := Subtype.ext (cstr_append s post)
  rw [stringAt, drop_left, hread, if_pos]
  simp only [length_append, length_cons]
  omega

lemma stringAt_new (address : CString) : stringAt (new address).chunk.data 0 = .ok address :=
  stringAt_append [] address []

section
variable {self : Osc} {old address : CString} {format : List Char} {args : List Value}

def Osc.kept (self : Osc) : List UInt8 :=
  if self.dataBegin ≠ 0 then self.chunk.data.drop self.dataBegin else []

lemma data_copyTo (self : Osc) (chunk : Chunk) :
    (self.copyTo chunk).data = chunk.data ++ self.kept := by
  rw [Osc.copyTo, Osc.kept]
  split
  · rfl
  · rw [append_nil]

lemma append_data {room : Nat} (hold : self.formatString = .ok old)
    (haddress : stringAt self.chunk.data 0 = .ok address) (hkept : self.kept.length % 4 = 0)
    (hroom : formatRoom (format.length + old.1.length + 1) = .ok room) (hpos : room ≠ 0)
    (hfits : Fits format args) :
    ∃ msg, self.append format args = .ok msg ∧ msg.parts =
      (heading address ((old.1 ++ formatBytes format).take (room - 1)) ++
          (self.kept ++ args.flatMap bytes),
        aligned (address.1.length + 1) + 1,
        (heading address ((old.1 ++ formatBytes format).take (room - 1))).length) := by
  set head := layout (2 + address.1.length + room * 10 % 2 ^ 32) address
    ((old.1 ++ formatBytes format).take (room - 1)) with hhead
  have hlayout : head.data = _ := data_layout _ _ _
  have hmod : (self.copyTo head).data.length % 4 = 0 := by
    rw [data_copyTo, length_append, Nat.add_mod, hkept, hlayout, length_heading_mod]
  obtain ⟨chunk, hwrite, hchunk⟩ := appendData_of_fits hfits hmod
  refine ⟨⟨chunk, aligned (address.1.length + 1) + 1, head.data.length⟩, ?_, ?_⟩
  · rw [Osc.append, hold, ok_bind, hroom, ok_bind, if_neg hpos, haddress, ok_bind, ← hhead]
    simp only [hwrite, ok_bind]
    rfl
  · rw [Message.parts, hchunk, data_copyTo, hlayout, append_assoc]

lemma equals_create_iff {whole : List Char} {all : List Value}
    (hold : self.formatString = .ok old) (haddress : stringAt self.chunk.data 0 = .ok address)
    (hwhole : formatBytes whole = old.1 ++ formatBytes format) (hfits : Fits format args)
    (hall : Fits whole all) (hkept : self.kept.length % 4 = 0)
    (hbytes : all.flatMap bytes = self.kept ++ args.flatMap bytes) :
    Equals (self.append format args) (create address whole all) ↔ Short (whole.length + 1) := by
  obtain ⟨msg, hcreate, hdata, hformat, hbegin⟩ := create_data address hall
  have hlen : format.length + old.1.length = whole.length := by
    have h := congrArg length hwhole
    rw [formatBytes, length_map, length_append, formatBytes, length_map] at h
    omega
  constructor
  · rintro ⟨a, b, happend, hb, hparts⟩
    by_contra hshort
    obtain rfl := Except.ok.inj (hcreate.symm.trans hb)
    -- a room that is too short puts the start of the data elsewhere
    have happend' := happend
    rw [Osc.append, hold, ok_bind] at happend'
    obtain ⟨room, hroom, hrest⟩ := bind_eq_ok.mp happend'
    split at hrest
    · cases hrest
    next hpos =>
    obtain ⟨a', ha', hparts'⟩ := append_data hold haddress hkept hroom hpos hfits
    obtain rfl := Except.ok.inj (happend.symm.trans ha')
    have hlt := lt_of_formatRoom (hlen ▸ hroom) hshort
    have hbegin' : msg.dataBegin = _ := congrArg (·.2.2) (hparts.symm.trans hparts')
    simp only [hbegin, length_heading, length_take, formatBytes, length_map] at hbegin'
    unfold aligned at hbegin'
    omega
  · intro hshort
    have hroom := formatRoom_of_short hshort
    rw [← hlen] at hroom
    have hle := le_aligned (format.length + old.1.length + 1)
    obtain ⟨msg', happend, hparts⟩ :=
      append_data hold haddress hkept hroom (by omega) hfits
    refine ⟨msg', msg, happend, hcreate, ?_⟩
    rw [hparts, ← hwhole, take_of_length_le (by rw [formatBytes, length_map]; omega), ← hbytes,
      Message.parts, hdata, hformat, hbegin]

end

lemma formatString_created {msg : Message} {address : CString} {format : List Char}
    {args : List UInt8} (hformat : 0 ∉ formatBytes format)
    (hdata : msg.chunk.data = heading address (formatBytes format) ++ args)
    (hat : msg.format = aligned (address.1.length + 1) + 1) :
    stringAt msg.chunk.data 0 = .ok address ∧
      stringAt msg.chunk.data msg.format = .ok ⟨formatBytes format, hformat⟩ := by
  rw [hdata, hat, heading, padded, padded]
  constructor
  · have h := stringAt_append [] address
    simp only [nil_append, length_nil] at h
    simp only [append_assoc, cons_append, nil_append, h]
  · have h := stringAt_append (padded (address.1 ++ [0]) ++ [44]) ⟨formatBytes format, hformat⟩
    rw [length_append, length_padded, length_append] at h
    simp only [length_cons, length_nil, padded, append_assoc, cons_append, nil_append,
      Nat.zero_add] at h
    simp only [append_assoc, cons_append, nil_append, h]

theorem append_equals_create_iff (address : CString) (first second : List Char)
    (x y : List Value) (hfirst : 0 ∉ formatBytes first) (hx : Fits first x) (hy : Fits second y) :
    ((∃ msg, create address first x = .ok msg ∧
        Equals (msg.toOsc.append second y) (create address (first ++ second) (x ++ y))) ↔
      Short (first.length + second.length + 1)) ∧
    (Equals ((new address).append second y) (create address second y) ↔
      Short (second.length + 1)) := by
  constructor
  · obtain ⟨msg, hcreate, hdata, hformat, hbegin⟩ := create_data address hx
    obtain ⟨haddress, hstring⟩ := formatString_created hfirst hdata hformat
    have hold : msg.toOsc.formatString = _ := hstring
    have hkept : msg.toOsc.kept = x.flatMap bytes := by
      have hne : msg.toOsc.dataBegin ≠ 0 := by
        change msg.dataBegin ≠ 0
        have hle := le_aligned (address.1.length + 1)
        rw [hbegin, length_heading]
        omega
      rw [Osc.kept, if_pos hne]
      change msg.chunk.data.drop msg.dataBegin = _
      rw [hbegin, hdata, drop_left]
    have hmod : msg.toOsc.kept.length % 4 = 0 := by
      rw [hkept, length_flatMap_mod length_bytes_mod]
    have hall : Fits (first ++ second) (x ++ y) := by
      rw [Fits, map_append, map_append, filter_append, ← hx, ← hy]
    have hiff := equals_create_iff hold haddress
      (by rw [formatBytes, map_append]; rfl) hy hall hmod (by rw [flatMap_append, hkept])
    rw [length_append] at hiff
    rw [← hiff]
    constructor
    · rintro ⟨msg', hcreate', h⟩
      obtain rfl := Except.ok.inj (hcreate.symm.trans hcreate')
      exact h
    · exact fun h => ⟨msg, hcreate, h⟩
  · exact equals_create_iff rfl (stringAt_new address) rfl hy hy rfl rfl

theorem append_equals_create : Equals ((new ⟨[47, 97], by decide⟩).append ['i', 's']
    [.int 1, .string ⟨[98], by decide⟩])
    (create ⟨[47, 97], by decide⟩ ['i', 's'] [.int 1, .string ⟨[98], by decide⟩]) :=
  (append_equals_create_iff ⟨[47, 97], by decide⟩ [] ['i', 's'] [] _ (by decide) rfl
    (by rw [Fits]; decide)).2.mpr (by rw [Short]; decide)

/-- Behind `(int) formatlen` there is room for three characters only. -/
theorem not_append_four_gigabytes :
    ¬ Equals ((new ⟨[47, 97], by decide⟩).append (replicate (2 ^ 32) 'N') [])
      (create ⟨[47, 97], by decide⟩ (replicate (2 ^ 32) 'N') []) := by
  have hfits : Fits (replicate (2 ^ 32) 'N') [] := by
    rw [Fits, map_replicate, filter_replicate]
    rfl
  intro h
  have hshort := (equals_create_iff rfl (stringAt_new _) rfl hfits hfits rfl rfl).mp h
  rw [length_replicate, Short] at hshort
  omega

/-! ## Parsing -/

def find (data : List UInt8) (c : UInt8) (needle : Nat) : Nat :=
  needle + ((data.drop needle).takeWhile (· != c)).length

/-- A scan without a limit: what lies behind the data is not to be read. -/
def scan (data : List UInt8) (c : UInt8) (needle : Nat) : Except Fault Nat :=
  if find data c needle < data.length then .ok (find data c needle)
  else .error (.outOfBounds data.length)

def frommem (data : List UInt8) : Except Fault (Option Message) := do
  let needle ← scan data 0 0
  if data.length ≤ needle then pure none else
    let start ← scan data 44 (needle + 1)
    let stop := find data 0 start
    if data.length ≤ stop then pure none else
      if aligned (stop + 1) ≤ data.length then
        pure (some ⟨⟨data, data.length⟩, start + 1, aligned (stop + 1)⟩)
      else .error .assertion

def fromframe (data : List UInt8) : Except Fault (Option Message) :=
  if data.length ≠ 0 then frommem data else .error .assertion

def dup (self : Message) : Except Fault (Option Message) := frommem self.chunk.data

lemma find_append {mid : List UInt8} {c : UInt8} (hmid : c ∉ mid) (pre post : List UInt8) :
    find (pre ++ (mid ++ c :: post)) c pre.length = pre.length + mid.length := by
  have hpass : ∀ b ∈ mid, (b != c) = true := fun b hb => bne_iff_ne.mpr fun h => hmid (h ▸ hb)
  rw [find, drop_left, takeWhile_append_of_pos hpass, takeWhile_cons_of_neg (by simp), append_nil]

lemma find_of_not_mem {post : List UInt8} {c : UInt8} (hpost : c ∉ post) (pre : List UInt8) :
    find (pre ++ post) c pre.length = (pre ++ post).length := by
  have hpass : ∀ b ∈ post, (b != c) = true := fun b hb => bne_iff_ne.mpr fun h => hpost (h ▸ hb)
  rw [find, drop_left, takeWhile_eq_self_iff.mpr hpass, length_append]

lemma scan_append {mid : List UInt8} {c : UInt8} (hmid : c ∉ mid) (pre post : List UInt8) :
    scan (pre ++ (mid ++ c :: post)) c pre.length = .ok (pre.length + mid.length) := by
  rw [scan, find_append hmid, if_pos]
  simp only [length_append, length_cons]
  omega

lemma scan_of_not_mem {post : List UInt8} {c : UInt8} (hpost : c ∉ post) (pre : List UInt8) :
    scan (pre ++ post) c pre.length = .error (.outOfBounds (pre ++ post).length) := by
  rw [scan, find_of_not_mem hpost, if_neg (Nat.lt_irrefl _)]

section
variable {address gap rest format post data : List UInt8}

lemma frommem_comma (haddress : 0 ∉ address) (hgap : 44 ∉ gap)
    (hdata : data = (address ++ 0 :: gap) ++ 44 :: rest) {stop : Nat}
    (hstop : find data 0 (address ++ 0 :: gap).length = stop) :
    frommem data = if data.length ≤ stop then .ok none else
      if aligned (stop + 1) ≤ data.length then
        .ok (some ⟨⟨data, data.length⟩, (address ++ 0 :: gap).length + 1, aligned (stop + 1)⟩)
      else .error .assertion := by
  have hfirst : scan data 0 0 = .ok address.length := by
    have h := scan_append haddress [] (gap ++ 44 :: rest)
    rwa [nil_append, length_nil, Nat.zero_add, ← cons_append, ← append_assoc, ← hdata] at h
  have hcomma : scan data 44 (address.length + 1) = .ok (address ++ 0 :: gap).length := by
    have h := scan_append hgap (address ++ [0]) rest
    rw [← append_assoc, append_assoc address, singleton_append, ← hdata, length_append,
      length_singleton] at h
    rw [h, length_append, length_cons, Nat.add_assoc, Nat.add_comm 1]
  have hlt : ¬ data.length ≤ address.length := by
    rw [hdata]
    simp
  rw [frommem, hfirst, ok_bind, if_neg hlt, hcomma, ok_bind, hstop]
  rfl

lemma frommem_format (haddress : 0 ∉ address) (hgap : 44 ∉ gap) (hformat : 0 ∉ format)
    (hdata : data = (address ++ 0 :: gap) ++ 44 :: (format ++ 0 :: post)) :
    frommem data =
      if aligned ((address ++ 0 :: gap).length + (format.length + 1) + 1) ≤ data.length then
        .ok (some ⟨⟨data, data.length⟩, (address ++ 0 :: gap).length + 1,
          aligned ((address ++ 0 :: gap).length + (format.length + 1) + 1)⟩)
      else .error .assertion := by
  have hmid : 0 ∉ 44 :: format := by simpa using hformat
  have hstop := find_append hmid (address ++ 0 :: gap) post
  rw [cons_append, ← hdata] at hstop
  rw [frommem_comma haddress hgap hdata hstop, if_neg, length_cons]
  rw [hdata]
  simp only [length_append, length_cons]
  omega

end

/-- Address, format and the padding of the format end in the data. -/
def Framed (data : List UInt8) : Prop :=
  ∃ address gap rest, data = (address ++ 0 :: gap) ++ 44 :: rest ∧ 0 ∉ address ∧ 44 ∉ gap ∧
    ∀ format post, rest = format ++ 0 :: post → 0 ∉ format →
      aligned ((address ++ 0 :: gap).length + (format.length + 1) + 1) ≤ data.length

def Safe (data : List UInt8) : Prop :=
  ∃ got, frommem data = .ok got ∧ ∀ msg ∈ got, msg.chunk.data = data ∧ 0 ∈ data ∧
    0 ∈ data.drop msg.format ∧ msg.dataBegin ≤ data.length

theorem safe_iff_framed (data : List UInt8) : Safe data ↔ Framed data := by
  constructor
  · rintro ⟨got, hgot, -⟩
    -- without a byte to stop at, a scan runs out of the data
    by_cases hzero : (0 : UInt8) ∈ data
    · obtain ⟨address, tail, rfl, haddress⟩ := eq_append_cons_of_mem hzero
      by_cases hcomma : (44 : UInt8) ∈ tail
      · obtain ⟨gap, rest, rfl, hgap⟩ := eq_append_cons_of_mem hcomma
        have hdata : address ++ 0 :: (gap ++ 44 :: rest) = (address ++ 0 :: gap) ++ 44 :: rest := by
          simp
        refine ⟨address, gap, rest, hdata, haddress, hgap, ?_⟩
        rintro format post rfl hformat
        have hparse := (frommem_format haddress hgap hformat hdata).symm.trans hgot
        by_contra hlong
        rw [if_neg hlong] at hparse
        cases hparse
      · have hfirst := scan_append haddress [] tail
        have hnone := scan_of_not_mem hcomma (address ++ [0])
        rw [append_assoc, singleton_append, length_append] at hnone
        rw [nil_append, length_nil, Nat.zero_add] at hfirst
        rw [frommem, hfirst, ok_bind, if_neg (by simp)] at hgot
        obtain ⟨_, hstart, -⟩ := bind_eq_ok.mp hgot
        cases hnone.symm.trans hstart
    · obtain ⟨_, hfirst, -⟩ := bind_eq_ok.mp hgot
      cases (scan_of_not_mem hzero []).symm.trans hfirst
  · rintro ⟨address, gap, rest, hdata, haddress, hgap, hfit⟩
    by_cases hzero : (0 : UInt8) ∈ rest
    · obtain ⟨format, post, rfl, hformat⟩ := eq_append_cons_of_mem hzero
      have hle := hfit format post rfl hformat
      refine ⟨_, by rw [frommem_format haddress hgap hformat hdata, if_pos hle], ?_⟩
      rintro msg ⟨⟩
      refine ⟨rfl, by simp [hdata], ?_, hle⟩
      rw [hdata, drop_length_add_append]
      exact mem_append_cons_self
    · have hpost : 0 ∉ 44 :: rest := by simpa using hzero
      have hend := find_of_not_mem hpost (address ++ 0 :: gap)
      rw [← hdata] at hend
      refine ⟨none, ?_, fun msg hmsg => by cases hmsg⟩
      rw [frommem_comma haddress hgap hdata hend, if_pos le_rfl]

/-- No byte stops the scan for the end of the address. -/
theorem not_safe_unterminated : ¬ Safe [47, 97] := by
  rintro ⟨got, hgot, -⟩
  cases hgot

theorem frommem_create (address : CString) (format : List Char) (args : List Value)
    (hformat : 0 ∉ formatBytes format) (hfits : Fits format args) :
    ∃ msg got, create address format args = .ok msg ∧ frommem msg.chunk.data = .ok (some got) ∧
      dup msg = .ok (some got) ∧ fromframe msg.chunk.data = .ok (some got) ∧
      stringAt got.chunk.data 0 = .ok address ∧
      stringAt got.chunk.data got.format = .ok ⟨formatBytes format, hformat⟩ ∧
      got.format = msg.format ∧ got.dataBegin = msg.dataBegin := by
  obtain ⟨msg, hcreate, hdata, hat, hbegin⟩ := create_data address hfits
  obtain ⟨haddress, hold⟩ := formatString_created hformat hdata hat
  set n := aligned (address.1.length + 1) - (address.1.length + 1) with hn
  have hle := le_aligned (address.1.length + 1)
  have hpre : (address.1 ++ 0 :: replicate n 0).length = aligned (address.1.length + 1) := by
    rw [length_append, length_cons, length_replicate]
    omega
  have hgap : (44 : UInt8) ∉ replicate n 0 := fun h => by cases eq_of_mem_replicate h
  obtain ⟨post, hsplit⟩ : ∃ post, msg.chunk.data =
      (address.1 ++ 0 :: replicate n 0) ++ 44 :: (formatBytes format ++ 0 :: post) := by
    refine ⟨replicate (aligned (formatBytes format ++ [44, 0]).length -
      (formatBytes format ++ [44, 0]).length) 0 ++ args.flatMap bytes, ?_⟩
    simp [hdata, heading, padded, hn]
  have hend : aligned ((address.1 ++ 0 :: replicate n 0).length +
      ((formatBytes format).length + 1) + 1) = msg.dataBegin := by
    rw [hpre, Nat.add_assoc, aligned_add (aligned_mod _), hbegin, length_heading]
  have hparse := frommem_format address.2 hgap hformat hsplit
  rw [hend, hpre, if_pos (by rw [hbegin, hdata, length_append]; omega), ← hat] at hparse
  refine ⟨msg, _, hcreate, hparse, hparse, ?_, haddress, hold, rfl, rfl⟩
  rw [fromframe, if_pos, hparse]
  rw [hsplit]
  simp

theorem frommem_create_two : ∃ msg got,
    create ⟨[47, 97], by decide⟩ ['i', 'T'] [.int 1] = .ok msg ∧
      frommem msg.chunk.data = .ok (some got) ∧ got.dataBegin = msg.dataBegin := by
  obtain ⟨msg, got, hcreate, hgot, -, -, -, -, -, hbegin⟩ :=
    frommem_create ⟨[47, 97], by decide⟩ ['i', 'T'] [.int 1] (by decide) (by rw [Fits]; decide)
  exact ⟨msg, got, hcreate, hgot, hbegin⟩

end Czmq.Zosc
