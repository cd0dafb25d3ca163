import Czmq.Base.Loop
import Czmq.Base.Machine
import Czmq.Fault

/-! Reading a file line by line (`zfile_readln` of `zfile.c`). -/

namespace Czmq.Readln

open List Bytes Machine

def newline : UInt8 := 10
def carriageReturn : UInt8 := 13

/-- The fields of `zfile_t` for reading lines, and what of the file is unread. -/
structure Zfile where
  handle : List UInt8
  curline : Option (List UInt8)
  linemax : Nat

def opened (content : List UInt8) : Zfile := ⟨content, none, 0⟩

structure Scan where
  handle : List UInt8
  curline : List UInt8
  linemax : Nat
  charNbr : Nat

section
variable (junk : Nat → UInt8)

def allocate (size : Nat) : List UInt8 := (range size).map junk

def resize (block : List UInt8) (size : Nat) : List UInt8 := (block ++ allocate junk size).take size

def grown (s : Scan) : Scan :=
  if s.charNbr = s.linemax - 1 then
    { s with
      curline := resize junk s.curline (s.linemax * 2 % 2 ^ 64)
      linemax := s.linemax * 2 % 2 ^ 64 }
  else s

def store (s : Scan) (curChar : UInt8) : Except Fault Scan :=
  if s.charNbr < s.curline.length then
    .ok { s with curline := s.curline.set s.charNbr curChar, charNbr := (s.charNbr + 1) % 2 ^ 32 }
  else .error (.outOfBounds s.charNbr)

def put (s : Scan) (curChar : UInt8) : Except Fault (Scan ⊕ (Option (List UInt8) × Scan)) := do
  let s ← store (grown junk s) curChar
  pure (if curChar = 0 then .inr (some (cstr s.curline), s) else .inl s)

def round (s : Scan) : Except Fault (Scan ⊕ (Option (List UInt8) × Scan)) :=
  match s.handle with
  | [] => if s.charNbr = 0 then .ok (.inr (none, s)) else put junk s 0
  | curChar :: handle =>
    if curChar = carriageReturn then .ok (.inl { s with handle := handle })
    else put junk { s with handle := handle } (if curChar = newline then 0 else curChar)

def start (self : Zfile) : Scan :=
  match self.curline with
  | some curline => ⟨self.handle, curline, self.linemax, 0⟩
  | none => ⟨self.handle, allocate junk 512, 512, 0⟩

def zfileReadln (self : Zfile) : Except Fault (Option (List UInt8) × Zfile) := do
  let (line, s) ← Loop.untilDone .endlessLoop (round junk) (self.handle.length + 1) (start junk self)
  pure (line, ⟨s.handle, some s.curline, s.linemax⟩)

end

def stripped (line : List UInt8) : List UInt8 := line.filter (· != carriageReturn)

/-- What is between newlines, without carriage returns; behind the last, only if it is not empty. -/
def lines (content : List UInt8) : List (List UInt8) :=
  let parts := (content.splitOn newline).map stripped
  if parts.getLast? = some [] then parts.dropLast else parts

def Exact (junk : Nat → UInt8) (content : List UInt8) : Prop :=
  ∀ n, ∃ self, run (fun self (_ : Unit) => zfileReadln junk self) (opened content)
    (replicate n ()) = .ok ((range n).map fun i => (lines content)[i]?, self)

variable {line rest content : List UInt8}

lemma splitOn_of_not_mem (h : newline ∉ line) : line.splitOn newline = [line] := by
  refine splitOnP_eq_singleton fun c hc => beq_false_of_ne ?_
  rintro rfl
  exact h hc

lemma lines_of_not_mem (h : newline ∉ content) :
    lines content = if stripped content = [] then [] else [stripped content] := by
  unfold lines
  rw [splitOn_of_not_mem h]
  by_cases hempty : stripped content = []
  · simp [hempty]
  · simp [hempty]

lemma lines_append (h : newline ∉ line) :
    lines (line ++ newline :: rest) = stripped line :: lines rest := by
  have hparts : (line ++ newline :: rest).splitOn newline = line :: rest.splitOn newline := by
    have happend := splitOnP_append_cons (p := (· == newline)) line rest
      (beq_self_eq_true newline)
    exact happend.trans (congrArg (· ++ rest.splitOn newline) (splitOn_of_not_mem h))
  have hne : (rest.splitOn newline).map stripped ≠ [] := by
    rw [ne_eq, map_eq_nil_iff]
    exact splitOn_ne_nil _ _
  unfold lines
  rw [hparts]
  dsimp only
  rw [map_cons, getLast?_cons_of_ne_nil hne, dropLast_cons_of_ne_nil hne]
  split <;> rfl

/-! ## The buffer -/

variable {s s' : Scan} (junk : Nat → UInt8)

structure Valid (s : Scan) : Prop where
  length_eq : s.curline.length = s.linemax
  linemax_le : s.linemax ≤ 2 ^ 33
  charNbr_lt : s.charNbr < s.linemax
  charNbr_lt' : s.charNbr < 2 ^ 32

lemma Valid.grown (h : Valid s) : Valid (grown junk s) ∧ (grown junk s).handle = s.handle ∧
    (grown junk s).charNbr = s.charNbr ∧ s.charNbr + 1 < (grown junk s).linemax ∧
    (grown junk s).curline.take s.charNbr = s.curline.take s.charNbr := by
  have hlength := h.length_eq
  have hlt := h.charNbr_lt
  have hlt' := h.charNbr_lt'
  unfold Readln.grown
  split
  · next hfull =>
    have hdouble : s.linemax * 2 % 2 ^ 64 = s.linemax * 2 := by omega
    rw [hdouble]
    refine ⟨⟨by simp [resize, allocate], ?_, ?_, hlt'⟩, rfl, rfl, ?_, ?_⟩
    · show s.linemax * 2 ≤ 2 ^ 33
      omega
    · show s.charNbr < s.linemax * 2
      omega
    · show s.charNbr + 1 < s.linemax * 2
      omega
    · show (resize junk s.curline (s.linemax * 2)).take s.charNbr = _
      rw [resize, take_take, min_eq_left (by omega), take_append_of_le_length (by omega)]
  · next hroom =>
    refine ⟨h, rfl, rfl, ?_, rfl⟩
    omega

lemma Valid.store (h : Valid s) (c : UInt8) :
    ∃ s', store (Readln.grown junk s) c = .ok s' ∧ Valid s' ∧ s'.handle = s.handle ∧
      s'.charNbr = (s.charNbr + 1) % 2 ^ 32 ∧
      ∃ rest, s'.curline = s.curline.take s.charNbr ++ c :: rest := by
  obtain ⟨hvalid, hhandle, hcharNbr, hroom, htake⟩ := h.grown junk
  have hlength := hvalid.length_eq
  unfold Readln.store
  rw [if_pos (by omega)]
  refine ⟨_, rfl, ⟨?_, hvalid.linemax_le, ?_, Nat.mod_lt _ (by decide)⟩, hhandle, ?_,
    (Readln.grown junk s).curline.drop (s.charNbr + 1), ?_⟩
  · rw [length_set]
    exact hlength
  · show ((Readln.grown junk s).charNbr + 1) % 2 ^ 32 < _
    rw [hcharNbr]
    exact (Nat.mod_le _ _).trans_lt hroom
  · rw [hcharNbr]
  · show (Readln.grown junk s).curline.set _ c = _
    rw [hcharNbr, set_eq_take_append_cons_drop, if_pos (by omega), htake]

lemma Valid.char (h : Valid s) {c : UInt8} {tail : List UInt8} (hhandle : s.handle = c :: tail)
    (hcr : c ≠ carriageReturn) (hnl : c ≠ newline) (hzero : c ≠ 0) :
    ∃ s', round junk s = .ok (.inl s') ∧ Valid s' ∧ s'.handle = tail ∧
      s'.charNbr = (s.charNbr + 1) % 2 ^ 32 ∧
      ∃ rest, s'.curline = s.curline.take s.charNbr ++ c :: rest := by
  have hvalid : Valid { s with handle := tail } := { h with }
  obtain ⟨s', he, hs', hhandle', hcharNbr, hcurline⟩ := hvalid.store junk c
  refine ⟨s', ?_, hs', hhandle', hcharNbr, hcurline⟩
  unfold round
  rw [hhandle]
  dsimp only
  rw [if_neg hcr, if_neg hnl, put, he, ok_bind, if_neg hzero]
  rfl

lemma Valid.scan (h : Valid s) {tail : List UInt8} (hhandle : s.handle = line ++ tail)
    (hnl : newline ∉ line) (hzero : 0 ∉ line) :
    ∃ s', Valid s' ∧ s'.handle = tail ∧
      s'.charNbr = (s.charNbr + (stripped line).length) % 2 ^ 32 ∧
      (s.charNbr + (stripped line).length < 2 ^ 32 →
        s'.curline.take s'.charNbr = s.curline.take s.charNbr ++ stripped line) ∧
      ∀ n, Loop.untilDone .endlessLoop (round junk) (n + line.length) s =
        Loop.untilDone .endlessLoop (round junk) n s' := by
  induction line generalizing s with
  | nil =>
    have hcharNbr : s.charNbr % 2 ^ 32 = s.charNbr := Nat.mod_eq_of_lt h.charNbr_lt'
    exact ⟨s, h, hhandle, hcharNbr.symm, fun _ => (append_nil _).symm, fun n => rfl⟩
  | cons c line ih =>
    rw [mem_cons, not_or] at hnl hzero
    rw [cons_append] at hhandle
    by_cases hcr : c = carriageReturn
    · -- the character is dropped
      have hvalid : Valid { s with handle := line ++ tail } := { h with }
      obtain ⟨s', hs', htail, hcharNbr, hcurline, hrun⟩ := ih hvalid rfl hnl.2 hzero.2
      have hstripped : stripped (c :: line) = stripped line :=
        filter_cons_of_neg (by simp [hcr])
      rw [hstripped]
      refine ⟨s', hs', htail, hcharNbr, hcurline, fun n => ?_⟩
      rw [← hrun n]
      refine Loop.untilDone_inl ?_ (n + line.length)
      unfold round
      rw [hhandle]
      dsimp only
      rw [if_pos hcr]
    · obtain ⟨s1, he, hs1, hhandle1, hcharNbr1, after, hcurline1⟩ :=
        h.char junk hhandle hcr (Ne.symm hnl.1) (Ne.symm hzero.1)
      obtain ⟨s', hs', htail, hcharNbr, hcurline, hrun⟩ := ih hs1 hhandle1 hnl.2 hzero.2
      have hstripped : stripped (c :: line) = c :: stripped line :=
        filter_cons_of_pos (by simp [hcr])
      have hlength : (s.curline.take s.charNbr).length = s.charNbr := by
        rw [length_take, h.length_eq]
        exact min_eq_left h.charNbr_lt.le
      rw [hstripped, length_cons]
      refine ⟨s', hs', htail, ?_, fun hlt => ?_, fun n => ?_⟩
      · omega
      · have hcharNbr1' : s1.charNbr = s.charNbr + 1 := by
          rw [hcharNbr1]
          exact Nat.mod_eq_of_lt (by omega)
        have htake : s1.curline.take s1.charNbr = s.curline.take s.charNbr ++ [c] := by
          rw [hcurline1, hcharNbr1', take_append, hlength, take_of_length_le (by omega),
            Nat.add_sub_cancel_left]
          rfl
        rw [hcurline (by omega), htake, append_assoc]
        rfl
      · rw [← hrun n]
        exact Loop.untilDone_inl he (n + line.length)

/-! ## One call -/

def Ready (self : Zfile) : Prop :=
  ∀ curline ∈ self.curline, curline.length = self.linemax ∧ 0 < self.linemax ∧ self.linemax ≤ 2 ^ 33

lemma ready_opened (content : List UInt8) : Ready (opened content) :=
  fun _ h => (Option.not_mem_none _ h).elim

variable {self : Zfile}

lemma Ready.start (h : Ready self) : Valid (start junk self) ∧
    (start junk self).handle = self.handle ∧ (start junk self).charNbr = 0 := by
  unfold Readln.start
  cases hcurline : self.curline with
  | none =>
    refine ⟨⟨?_, ?_, ?_, ?_⟩, rfl, rfl⟩
    · simp [allocate]
    · show 512 ≤ 2 ^ 33
      decide
    · show 0 < 512
      decide
    · show 0 < 2 ^ 32
      decide
  | some curline =>
    obtain ⟨hlength, hpos, hle⟩ := h curline hcurline
    exact ⟨⟨hlength, hle, hpos, Nat.two_pow_pos 32⟩, rfl, rfl⟩

def closed (s : Scan) : Zfile := ⟨s.handle, some s.curline, s.linemax⟩

lemma Valid.ready (h : Valid s) : Ready (closed s) := by
  rintro curline ⟨⟩
  exact ⟨h.length_eq, Nat.zero_lt_of_lt h.charNbr_lt, h.linemax_le⟩

lemma Valid.finish (h : Valid s) :
    ∃ s' rest, put junk s 0 = .ok (.inr (some (cstr (s.curline.take s.charNbr ++ 0 :: rest)), s')) ∧
      Valid s' ∧ s'.handle = s.handle := by
  obtain ⟨s', he, hs', hhandle, -, rest, hcurline⟩ := h.store junk 0
  refine ⟨s', rest, ?_, hs', hhandle⟩
  rw [put, he, ok_bind, hcurline]
  rfl

lemma stripped_subset (h : 0 ∉ line) : 0 ∉ stripped line := fun hmem =>
  h (mem_filter.mp hmem).1

lemma length_cstr_append_le (bs rest : List UInt8) :
    (cstr (bs ++ 0 :: rest)).length ≤ bs.length := by
  induction bs with
  | nil => rw [nil_append, cstr, takeWhile_cons_of_neg (by simp)]
  | cons c bs ih =>
    rw [cons_append, cstr, takeWhile_cons]
    split
    · exact Nat.succ_le_succ ih
    · exact Nat.zero_le _

lemma Ready.readln_line (h : Ready self) (hhandle : self.handle = line ++ newline :: rest)
    (hnl : newline ∉ line) (hzero : 0 ∉ line) :
    ∃ text self', zfileReadln junk self = .ok (some text, self') ∧ Ready self' ∧
      self'.handle = rest ∧ text.length ≤ (stripped line).length % 2 ^ 32 ∧
      ((stripped line).length < 2 ^ 32 → text = stripped line) := by
  obtain ⟨hvalid, hstart, hcharNbr0⟩ := h.start junk
  obtain ⟨s, hs, htail, hcharNbr, hcurline, hrun⟩ :=
    hvalid.scan junk (hstart.trans hhandle) hnl hzero
  rw [hcharNbr0, Nat.zero_add] at hcharNbr hcurline
  have hvalid' : Valid { s with handle := rest } := { hs with }
  obtain ⟨s', after, hput, hs', hhandle'⟩ := hvalid'.finish junk
  have hround :
      round junk s = .ok (.inr (some (cstr (s.curline.take s.charNbr ++ 0 :: after)), s')) := by
    unfold round
    rw [htail]
    exact hput
  refine ⟨cstr (s.curline.take s.charNbr ++ 0 :: after), closed s', bind_eq_ok.mpr ⟨(_, s'), ?_, rfl⟩,
    hs'.ready, hhandle', ?_, fun hlt => ?_⟩
  · have hfuel : self.handle.length + 1 = rest.length + 1 + 1 + line.length := by
      rw [hhandle, length_append, length_cons]
      omega
    rw [hfuel, hrun]
    exact Loop.untilDone_inr hround _
  · refine (length_cstr_append_le _ _).trans ?_
    rw [← hcharNbr]
    exact length_take_le _ _
  · rw [hcurline hlt]
    exact cstr_append ⟨stripped line, stripped_subset hzero⟩ after

lemma Ready.readln_last (h : Ready self) (hnl : newline ∉ self.handle) (hzero : 0 ∉ self.handle)
    (hlt : (stripped self.handle).length < 2 ^ 32) :
    ∃ self', zfileReadln junk self =
        .ok (if stripped self.handle = [] then none else some (stripped self.handle), self') ∧
      Ready self' ∧ self'.handle = [] := by
  obtain ⟨hvalid, hstart, hcharNbr0⟩ := h.start junk
  obtain ⟨s, hs, htail, hcharNbr, hcurline, hrun⟩ :=
    hvalid.scan junk (hstart.trans (append_nil _).symm) hnl hzero
  rw [hcharNbr0, Nat.zero_add, Nat.mod_eq_of_lt hlt] at hcharNbr
  rw [hcharNbr0, Nat.zero_add] at hcurline
  have hfuel : self.handle.length + 1 = 0 + 1 + self.handle.length := by omega
  by_cases hempty : stripped self.handle = []
  · rw [if_pos hempty]
    refine ⟨closed s, bind_eq_ok.mpr ⟨(none, s), ?_, rfl⟩, hs.ready, htail⟩
    rw [hfuel, hrun]
    refine Loop.untilDone_inr ?_ _
    unfold round
    rw [htail]
    exact if_pos (by rw [hcharNbr, hempty]; rfl)
  · rw [if_neg hempty]
    obtain ⟨s', after, hput, hs', hhandle'⟩ := hs.finish junk
    refine ⟨closed s', bind_eq_ok.mpr ⟨(some (stripped self.handle), s'), ?_, rfl⟩, hs'.ready,
      hhandle'.trans htail⟩
    rw [hfuel, hrun]
    refine Loop.untilDone_inr ?_ _
    unfold round
    rw [htail]
    rw [if_neg (by rw [hcharNbr]; exact mt length_eq_zero_iff.mp hempty), hput, hcurline hlt,
      take_zero, nil_append]
    rw [cstr_append ⟨stripped self.handle, stripped_subset hzero⟩ after]

lemma Ready.readln (h : Ready self) (hzero : 0 ∉ self.handle)
    (hshort : ∀ line ∈ lines self.handle, line.length < 2 ^ 32) :
    ∃ self', zfileReadln junk self = .ok ((lines self.handle).head?, self') ∧ Ready self' ∧
      0 ∉ self'.handle ∧ lines self'.handle = (lines self.handle).tail := by
  by_cases hnl : newline ∈ self.handle
  · obtain ⟨line, rest, hhandle, hline⟩ := eq_append_cons_of_mem hnl
    rw [hhandle] at hzero
    rw [hhandle, lines_append hline] at hshort ⊢
    have hlt := hshort _ mem_cons_self
    obtain ⟨text, self', he, hready, hrest, -, htext⟩ := h.readln_line junk hhandle hline
      fun hmem => hzero (mem_append_left _ hmem)
    rw [htext hlt] at he
    refine ⟨self', he, hready, fun hmem => hzero ?_, ?_⟩
    · rw [hrest] at hmem
      exact mem_append_right _ (mem_cons_of_mem _ hmem)
    · rw [hrest]
      rfl
  · rw [lines_of_not_mem hnl] at hshort ⊢
    have hlt : (stripped self.handle).length < 2 ^ 32 := by
      by_cases hempty : stripped self.handle = []
      · rw [hempty]
        exact Nat.two_pow_pos 32
      · rw [if_neg hempty] at hshort
        exact hshort _ mem_cons_self
    obtain ⟨self', he, hready, hrest⟩ := h.readln_last junk hnl hzero hlt
    refine ⟨self', ?_, hready, ?_, ?_⟩
    · rw [he]
      split <;> rfl
    · rw [hrest]
      exact not_mem_nil
    · rw [hrest]
      split <;> rfl

lemma put_short {c : UInt8} {x : Scan ⊕ (Option (List UInt8) × Scan)} (hlt : s.charNbr < 2 ^ 32)
    (hx : put junk s c = .ok x) :
    Sum.elim (fun s => s.charNbr < 2 ^ 32) (fun p => ∀ text ∈ p.1, text.length < 2 ^ 32) x := by
  obtain ⟨s', hstore, hx⟩ := bind_eq_ok.mp hx
  have hcharNbr : (grown junk s).charNbr = s.charNbr := by
    unfold grown
    split <;> rfl
  unfold store at hstore
  split at hstore
  · next hinside =>
    cases hstore
    split at hx
    · next hend =>
      cases hx
      rintro text ⟨⟩
      rw [hend, set_eq_take_append_cons_drop, if_pos hinside]
      refine (length_cstr_append_le _ _).trans_lt ((length_take_le _ _).trans_lt ?_)
      rw [hcharNbr]
      exact hlt
    · cases hx
      exact Nat.mod_lt _ (Nat.two_pow_pos 32)
  · cases hstore

lemma length_lt_of_readln {self' : Zfile} {text : List UInt8}
    (he : zfileReadln junk self = .ok (some text, self')) : text.length < 2 ^ 32 := by
  obtain ⟨⟨answer, s⟩, hloop, hpure⟩ := bind_eq_ok.mp he
  obtain ⟨rfl, -⟩ := Prod.mk.inj (Except.ok.inj hpure)
  refine Loop.untilDone_invariant (fun s => s.charNbr < 2 ^ 32)
    (fun p => ∀ text ∈ p.1, text.length < 2 ^ 32) (fun s hs x hx => ?_) ?_ hloop text rfl
  · unfold round at hx
    split at hx
    · split at hx
      · cases hx
        intro text htext
        exact (Option.not_mem_none _ htext).elim
      · exact put_short junk hs hx
    · split at hx
      · cases hx
        exact hs
      · refine put_short junk ?_ hx
        exact hs
  · unfold start
    split
    · exact Nat.two_pow_pos 32
    · exact Nat.two_pow_pos 32

lemma Ready.run_readln (h : Ready self) (hzero : 0 ∉ self.handle)
    (hshort : ∀ line ∈ lines self.handle, line.length < 2 ^ 32) (n : Nat) :
    ∃ self', run (fun self (_ : Unit) => zfileReadln junk self) self (replicate n ()) =
      .ok ((range n).map fun i => (lines self.handle)[i]?, self') := by
  induction n generalizing self with
  | zero => exact ⟨self, rfl⟩
  | succ n ih =>
    obtain ⟨self1, he, hready, hzero1, htail⟩ := h.readln junk hzero hshort
    obtain ⟨self', hrun⟩ := ih hready hzero1 fun line hline =>
      hshort line (mem_of_mem_tail (htail ▸ hline))
    refine ⟨self', ?_⟩
    rw [replicate_succ, run_cons_ok he, hrun, htail, range_succ_eq_map, map_cons,
      map_map]
    simp only [head?_eq_getElem?, getElem?_tail]
    rfl

/-- The lines are read as they are if none is too long for `char_nbr`. -/
theorem reads_exactly_iff (hzero : 0 ∉ content) :
    Exact junk content ↔ ∀ line ∈ lines content, line.length < 2 ^ 32 := by
  constructor
  · intro h line hline
    obtain ⟨i, hi, rfl⟩ := mem_iff_getElem.mp hline
    obtain ⟨self, hrun⟩ := h (i + 1)
    rw [replicate_succ', range_succ, map_append] at hrun
    obtain ⟨rs₁, self₁, rs₂, hpre, hlast, hanswers⟩ := run_append_eq_ok hrun
    obtain ⟨r, self₂, rs', he, hnil, rfl⟩ := run_cons_eq_ok hlast
    cases hnil
    have hr := congrArg getLast? hanswers
    rw [map_singleton, getLast?_concat, getLast?_concat,
      getElem?_eq_getElem hi] at hr
    rw [← Option.some.inj hr] at he
    exact length_lt_of_readln junk he
  · intro hshort n
    exact (ready_opened content).run_readln junk hzero hshort n

/-- `a`, a carriage return, a newline and `b`. -/
theorem reads_exactly_sample : Exact (fun _ => 7) [97, 13, 10, 98] :=
  (reads_exactly_iff (fun _ => 7) (by decide)).mpr (by decide +kernel)

/-- After `2 ^ 32` characters, the newline ends the line at its start. -/
theorem readln_wrapped :
    (∃ self, zfileReadln (fun _ => 7) (opened (replicate (2 ^ 32) 97 ++ [newline])) =
        .ok (some [], self)) ∧
      lines (replicate (2 ^ 32) 97 ++ [newline]) = [replicate (2 ^ 32) 97] := by
  have hnl : newline ∉ replicate (2 ^ 32) (97 : UInt8) := fun hmem =>
    absurd (eq_of_mem_replicate hmem) (by decide)
  have hzero : 0 ∉ replicate (2 ^ 32) (97 : UInt8) := fun hmem =>
    absurd (eq_of_mem_replicate hmem) (by decide)
  have hstripped : stripped (replicate (2 ^ 32) 97) = replicate (2 ^ 32) 97 :=
    filter_replicate_of_pos (by decide)
  constructor
  · obtain ⟨text, self, he, -, -, hlength, -⟩ :=
      (ready_opened _).readln_line (fun _ => 7) rfl hnl hzero
    rw [hstripped, length_replicate, Nat.mod_self, Nat.le_zero,
      length_eq_zero_iff] at hlength
    rw [hlength] at he
    exact ⟨self, he⟩
  · rw [lines_append hnl, hstripped]
    rfl

end Czmq.Readln
