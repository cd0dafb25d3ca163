import Czmq.Zarmour.RoundTrip

/-! Line breaks come after every `lineLength` characters, digits and padding alike. The decoder
reads over them, but between the last digit and the end of the padding it loses count. -/

namespace Czmq.Zarmour

open Bytes Spelling List

/-- A text from position `i` on, with `lineEnd` before every position that starts a new line. -/
def breakAt (lineLength : Nat) (lineEnd : List UInt8) : Nat → List UInt8 → List UInt8
  | _, [] => []
  | i, c :: s =>
    (if 0 < i ∧ lineLength ∣ i then lineEnd else []) ++ c :: breakAt lineLength lineEnd (i + 1) s

section
variable {L i : Nat} {lineEnd s t : List UInt8}

lemma breakAt_append :
    breakAt L lineEnd i (s ++ t) = breakAt L lineEnd i s ++ breakAt L lineEnd (i + s.length) t := by
  induction s generalizing i with
  | nil => rfl
  | cons c s ih =>
    rw [cons_append, breakAt, breakAt, ih, length_cons, Nat.add_right_comm i 1, ← Nat.add_assoc]
    simp

lemma breakAt_eq_self (h : ∀ j < s.length, ¬(0 < i + j ∧ L ∣ i + j)) :
    breakAt L lineEnd i s = s := by
  induction s generalizing i with
  | nil => rfl
  | cons c s ih =>
    have hhead : ¬(0 < i ∧ L ∣ i) := h 0 (Nat.succ_pos _)
    rw [breakAt, if_neg hhead, nil_append, ih]
    intro j hj
    have hnext := h (j + 1) (Nat.succ_lt_succ hj)
    rwa [← Nat.add_assoc, Nat.add_right_comm] at hnext

lemma breakAt_line (hi : L ∣ i) (hs : s ≠ []) (hlen : s.length ≤ L) :
    breakAt L lineEnd i s = (if 0 < i then lineEnd else []) ++ s := by
  obtain ⟨c, s, rfl⟩ := exists_cons_of_ne_nil hs
  rw [breakAt, breakAt_eq_self]
  · simp [hi]
  · rintro j hj ⟨-, hdvd⟩
    rw [length_cons] at hlen
    rw [Nat.add_assoc, Nat.dvd_add_right hi] at hdvd
    exact absurd (Nat.le_of_dvd (by omega) hdvd) (by omega)

lemma length_breakAt_succ : (breakAt L lineEnd (i + 1) s).length +
    lineEnd.length * (i / L) = s.length + lineEnd.length * ((i + s.length) / L) := by
  induction s generalizing i with
  | nil => simp [breakAt]
  | cons c s ih =>
    have ih := ih (i := i + 1)
    rw [breakAt, length_append, length_cons, length_cons,
      show i + (s.length + 1) = i + 1 + s.length by omega]
    rw [Nat.succ_div] at ih
    split
    · next h =>
      rw [if_pos h.2, Nat.mul_add] at ih
      omega
    · next h =>
      rw [if_neg (fun hdvd => h ⟨Nat.succ_pos i, hdvd⟩), Nat.mul_add] at ih
      rw [length_nil]
      omega

lemma length_breakAt_le (L : Nat) (lineEnd s : List UInt8) :
    (breakAt L lineEnd 0 s).length ≤ s.length + lineEnd.length * (s.length / L) := by
  cases s with
  | nil => simp [breakAt]
  | cons c s =>
    have hrest : (breakAt L lineEnd 1 s).length + lineEnd.length * (0 / L) =
        s.length + lineEnd.length * ((0 + s.length) / L) := length_breakAt_succ
    have hmono : lineEnd.length * (s.length / L) ≤ lineEnd.length * ((s.length + 1) / L) :=
      Nat.mul_le_mul_left _ (Nat.div_le_div_right (Nat.le_succ _))
    rw [Nat.zero_div, Nat.mul_zero, Nat.add_zero, Nat.zero_add] at hrest
    rw [breakAt, if_neg (by simp), nil_append, length_cons, length_cons, hrest]
    omega

end

lemma copyLines_eq {L : Nat} (hL : 0 < L) (lineEnd src : List UInt8) :
    copyLines L lineEnd src = .ok (breakAt L lineEnd 0 src) := by
  let inv : List UInt8 × List UInt8 → Prop := fun s => ∃ done, src = done ++ s.1 ∧ L ∣ done.length ∧
    s.2 = breakAt L lineEnd 0 done ++ if done = [] ∨ s.1 = [] then [] else lineEnd
  have hbody : ∀ s : List UInt8 × List UInt8, inv s → decide (L ≤ s.1.length) = true →
      inv (copyLine L lineEnd s) ∧ (copyLine L lineEnd s).1.length < s.1.length := by
    rintro ⟨rest, dest⟩ ⟨done, rfl, hdvd, hdest⟩ hguard
    have hle : L ≤ rest.length := of_decide_eq_true hguard
    have hrest : rest ≠ [] := ne_nil_of_length_pos (by omega)
    have hline : rest.take L ≠ [] := by simp [hrest, hL.ne']
    have hlen : (rest.take L).length = L := length_take_of_le hle
    refine ⟨⟨done ++ rest.take L, ?_, ?_, ?_⟩, ?_⟩
    · rw [append_assoc, copyLine, take_append_drop]
    · rw [length_append, hlen]
      exact Nat.dvd_add_self_right.mpr hdvd
    · have hdest' : dest = breakAt L lineEnd 0 done ++ if 0 < done.length then lineEnd else [] := by
        cases done <;> simpa [hrest] using hdest
      rw [copyLine, hdest', breakAt_append, Nat.zero_add, breakAt_line hdvd hline hlen.le]
      simp [hline]
    · change (rest.drop L).length < rest.length
      rw [length_drop]
      omega
  obtain ⟨⟨rest, dest⟩, hrun, ⟨done, hsrc, hdvd, hdest⟩, hend⟩ := Loop.whileLoop_rule inv
    (fun s => s.1.length) hbody src.length (src, []) ⟨[], rfl, dvd_zero L, rfl⟩ le_rfl
  have hlt : rest.length < L := by simpa using hend
  dsimp only at hsrc hdest
  simp only [copyLines, hrun]
  rw [hsrc, hdest, breakAt_append, Nat.zero_add]
  by_cases hrest : rest = []
  · simp [hrest, breakAt]
  · rw [breakAt_line hdvd hrest hlt.le]
    cases done <;> simp [hrest]

section
variable {L i : Nat} {s : List UInt8} {c : UInt8}

lemma mem_breakAt (h : c ∈ breakAt L newline.1 i s) : c = 10 ∨ c ∈ s := by
  induction s generalizing i with
  | nil => exact absurd h not_mem_nil
  | cons d s ih =>
    rw [breakAt, mem_append, mem_cons] at h
    rcases h with h | rfl | h
    · split at h
      · exact .inl (mem_singleton.mp h)
      · exact absurd h not_mem_nil
    · exact .inr (mem_cons_self ..)
    · exact (ih h).imp_right (mem_cons_of_mem d)

lemma newline_mem_breakAt (hs : 10 ∉ s) :
    10 ∈ breakAt L newline.1 i s ↔ ∃ j < s.length, 0 < i + j ∧ L ∣ i + j := by
  constructor
  · intro h
    by_contra hnone
    rw [breakAt_eq_self (fun j hj hbreak => hnone ⟨j, hj, hbreak⟩)] at h
    exact hs h
  · rintro ⟨j, hj, hbreak⟩
    -- The text up to the break, and from the first character of the new line on.
    rw [← take_append_drop j s, breakAt_append, length_take_of_le hj.le,
      drop_eq_getElem_cons hj, breakAt, if_pos hbreak]
    simp [newline]

lemma digitsIn_breakAt (m : Mode) :
    m.digitsIn (breakAt L newline.1 i s) = m.digitsIn s := by
  induction s generalizing i with
  | nil => rfl
  | cons c s ih =>
    have hskip : m.digitsIn (if 0 < i ∧ L ∣ i then newline.1 else []) = [] := by
      split
      · exact filterMap_cons_none m.digit_newline
      · rfl
    have happend : ∀ a b, m.digitsIn (a ++ b) = m.digitsIn a ++ m.digitsIn b :=
      fun _ _ => filterMap_append
    rw [breakAt, happend, hskip, nil_append, ← singleton_append, happend, ih,
      ← happend, singleton_append]

lemma getLast_breakAt (h : breakAt L newline.1 i s ≠ []) :
    ∃ hs : s ≠ [], (breakAt L newline.1 i s).getLast h = s.getLast hs := by
  have hs : s ≠ [] := by
    rintro rfl
    exact h rfl
  refine ⟨hs, ?_⟩
  have hsplit : breakAt L newline.1 i s = breakAt L newline.1 i s.dropLast ++
      breakAt L newline.1 (i + s.dropLast.length) [s.getLast hs] := by
    rw [← breakAt_append, dropLast_append_getLast]
  simp [hsplit, breakAt]

end

lemma armoured_breakAt {m : Mode} {data text trailing : List UInt8}
    (h : Armoured m data text trailing) (L i j : Nat) :
    Armoured m data (breakAt L newline.1 i text) (breakAt L newline.1 j trailing) where
  nul hc := (mem_breakAt hc).elim (by decide) h.nul
  chars c hc := (mem_breakAt hc).elim .inl (h.chars c)
  last hne := by
    obtain ⟨hs, he⟩ := getLast_breakAt hne
    rw [he]
    exact h.last hs
  behind c hc := (mem_breakAt hc).elim (fun he => he ▸ m.digit_newline) (h.behind c)
  base16 hm := by rw [h.base16 hm, breakAt]
  spells := by
    rw [digitsIn_breakAt]
    exact h.spells

section
variable {self : Zarmour} {data : List UInt8}

lemma breakLines_eq (hL : 0 < self.lineLength) (hend : self.lineEnd = newline)
    {encoded : List UInt8} (hlen : encoded.length + 1 < 2 ^ 63)
    (hroom : self.breakLines encoded ≠ .error .outOfMemory) :
    ∃ n, self.breakLines encoded =
        .ok (breakAt self.lineLength newline.1 0 encoded ++ 0 :: replicate n 0) ∧
      (breakAt self.lineLength newline.1 0 encoded).length + 1 < 2 ^ 63 := by
  have hbound := length_breakAt_le self.lineLength newline.1 encoded
  rw [show newline.1.length = 1 from rfl] at hbound
  have hdiv : encoded.length / self.lineLength ≤ encoded.length := Nat.div_le_self _ _
  have hlength : (encoded.length / self.lineLength * (self.lineLength + newline.1.length) +
      encoded.length % self.lineLength) % 2 ^ 64 =
      encoded.length + encoded.length / self.lineLength := by
    have hsplit := Nat.div_add_mod' encoded.length self.lineLength
    rw [show newline.1.length = 1 from rfl, Nat.mul_add]
    omega
  rw [breakLines, hend, zmalloc] at hroom ⊢
  split at hroom
  · next hsize =>
    rw [if_pos hsize, copyLines_eq hL, ok_bind, ok_bind,
      store_replicate (by rw [length_append, length_singleton]; omega),
      append_assoc]
    exact ⟨_, rfl, by omega⟩
  · exact absurd rfl hroom

lemma encode_breaks_eq (hon : self.lineBreaks = true) (hL : 0 < self.lineLength)
    (hend : self.lineEnd = newline) (hroom : self.encode data ≠ .error .outOfMemory) :
    self.encode data = .ok (breakAt self.lineLength newline.1 0
        (self.mode.letters data ++ self.padding data)) ∧
      (breakAt self.lineLength newline.1 0
        (self.mode.letters data ++ self.padding data)).length + 1 < 2 ^ 63 := by
  have hchars := length_chars_lt hroom
  have hlen := length_text_lt hchars
  have hencode := encode_eq hchars
  have hnul := nul_notMem_text self data
  rw [hencode] at hroom ⊢
  generalize self.mode.letters data ++ self.padding data = text at hroom hlen hnul ⊢
  split at hroom
  · next hlong =>
    have hbreak : self.breakLines text ≠ .error .outOfMemory := by
      intro h
      rw [h] at hroom
      exact hroom rfl
    obtain ⟨n, he, hlt⟩ := breakLines_eq hL hend hlen hbreak
    have hnul' : 0 ∉ breakAt self.lineLength newline.1 0 text := fun h =>
      (mem_breakAt h).elim (by decide) hnul
    rw [if_pos hlong, he, ok_bind, cstr_append ⟨_, hnul'⟩]
    exact ⟨rfl, hlt⟩
  · next hshort =>
    have hself : breakAt self.lineLength newline.1 0 text = text := by
      apply breakAt_eq_self
      rintro j hj ⟨hpos, hdvd⟩
      have hle := Nat.le_of_dvd hpos hdvd
      exact hshort ⟨hon, hL, by omega⟩
    rw [if_neg hshort, hself]
    exact ⟨rfl, hlen⟩

end

/-! ## Padding -/

namespace Mode

variable {m : Mode} {pad : Bool} {n : Nat}

lemma digitChars_pos (h : m.padChars pad n ≠ 0) : 0 < m.digitChars n := by
  cases m
  case base64Std | base64Url =>
    have hextra : base64ExtraChars n ≠ 0 := by
      rintro h0
      simp [padChars, base64PadChars, h0] at h
    simp only [digitChars]
    omega
  case base32Std | base32Hex =>
    have hextra : base32ExtraChars n ≠ 0 := by
      rintro h0
      simp [padChars, base32PadChars, h0] at h
    simp only [digitChars]
    omega
  case base16 => exact absurd rfl h

end Mode

/-- Text with line breaks decodes to the same chunk exactly when no line ends between the last digit
and the end of the padding. -/
theorem line_breaks_transparent_iff (self : Zarmour) (data : List UInt8)
    (hon : self.lineBreaks = true) (hL : 0 < self.lineLength) (hend : self.lineEnd = newline)
    (hpad : self.pad = true → self.padChar = 61)
    (hroom : self.encode data ≠ .error .outOfMemory) :
    (∃ chunk, (self.encode data >>= self.decode) = .ok chunk ∧
      ({ self with lineBreaks := false }.encode data >>=
        { self with lineBreaks := false }.decode) = .ok chunk) ↔
      ∀ k, ¬(self.mode.digitChars data.length ≤ k * self.lineLength ∧
        k * self.lineLength < self.mode.digitChars data.length +
          self.mode.padChars self.pad data.length) := by
  have hchars := length_chars_lt hroom
  have hpadding : self.padding data = replicate (self.mode.padChars self.pad data.length) 61 := by
    rw [padding]
    cases hon : self.pad with
    | true =>
      rw [hpad hon]
      rfl
    | false => cases self.mode <;> simp [Mode.padChars, base64PadChars, base32PadChars]
  have htext : Armoured self.mode data (self.mode.letters data) (self.padding data) := by
    apply armoured_letters _ _ _ (padding_base16 self data)
    intro c hc
    rw [hpadding] at hc
    rw [eq_of_mem_replicate hc]
    cases self.mode <;> decide
  have hplain : 10 ∉ self.padding data := by
    rw [hpadding]
    exact fun h => absurd (eq_of_mem_replicate h) (by decide)
  have hoff : ({ self with lineBreaks := false }.encode data >>=
      { self with lineBreaks := false }.decode) = .ok (data ++ [0]) := by
    have hencode : { self with lineBreaks := false }.encode data = _ := encode_eq hchars
    rw [hencode]
    exact (htext.decode_eq_ok_iff hend (length_text_lt hchars)).mpr hplain
  obtain ⟨hencode, hlen⟩ := encode_breaks_eq hon hL hend hroom
  rw [breakAt_append, Nat.zero_add, length_letters] at hencode hlen
  have hbroken := (armoured_breakAt htext self.lineLength 0
    (self.mode.digitChars data.length)).decode_eq_ok_iff hend hlen
  have hcount : (self.padding data).length = self.mode.padChars self.pad data.length := by
    rw [hpadding, length_replicate]
  rw [newline_mem_breakAt hplain] at hbroken
  rw [hoff, hencode]
  constructor
  · rintro ⟨chunk, hdecode, hsame⟩ k ⟨hge, hlt⟩
    rw [← hsame] at hdecode
    have hpadded : self.mode.padChars self.pad data.length ≠ 0 := by omega
    have hpos := Mode.digitChars_pos hpadded
    apply hbroken.mp hdecode
    refine ⟨k * self.lineLength - self.mode.digitChars data.length, by omega, by omega, ?_⟩
    rw [Nat.add_sub_cancel' hge]
    exact Nat.dvd_mul_left _ _
  · intro hnone
    refine ⟨data ++ [0], hbroken.mpr ?_, rfl⟩
    rintro ⟨j, hj, -, k, hk⟩
    rw [Nat.mul_comm] at hk
    exact hnone k ⟨by omega, by omega⟩

theorem line_breaks_transparent_inside :
    let self := { new with lineBreaks := true, lineLength := 3 }
    (∃ chunk, (self.encode [102, 111, 111, 98, 97] >>= self.decode) = .ok chunk ∧
      ({ self with lineBreaks := false }.encode [102, 111, 111, 98, 97] >>=
        { self with lineBreaks := false }.decode) = .ok chunk) ↔
      ∀ k, ¬(self.mode.digitChars 5 ≤ k * self.lineLength ∧
        k * self.lineLength < self.mode.digitChars 5 + self.mode.padChars self.pad 5) :=
  line_breaks_transparent_iff { new with lineBreaks := true, lineLength := 3 }
    [102, 111, 111, 98, 97] rfl (by decide) rfl (fun _ => rfl) (by decide)

/-- Six digits and two pad characters in lines of three: the second break falls before the padding,
and the decoder writes behind its buffer. -/
theorem line_breaks_before_padding :
    let self := { new with lineBreaks := true, lineLength := 3 }
    self.encode [1, 2, 3, 4] = .ok [65, 81, 73, 10, 68, 66, 65, 10, 61, 61] ∧
      self.decode [65, 81, 73, 10, 68, 66, 65, 10, 61, 61] = .error (.outOfBounds 4) ∧
      ({ self with lineBreaks := false }.encode [1, 2, 3, 4] >>=
        { self with lineBreaks := false }.decode) = .ok [1, 2, 3, 4, 0] := by
  decide

/-- The line breaks are taken off the length without a wrap around, and all that is written, with
the NUL, fits the computed size. -/
def FitsBuffer (self : Zarmour) (text : List UInt8) : Prop :=
  ∃ linebreakchars written, countLinebreakchars self.lineEnd.1 text = .ok linebreakchars ∧
    decodeLoop self.mode.round (self.mode.strip text) = .ok written ∧
    linebreakchars ≤ (self.mode.strip text).length ∧
    ∀ size, self.mode.size ((self.mode.strip text).length - linebreakchars) = .ok size →
      size ≤ (self.mode.strip text).length + 1 ∧ written.length + 1 ≤ size

lemma strip_prefix (m : Mode) (text : List UInt8) : m.strip text <+: text := by
  rw [Mode.strip]
  split
  · exact prefix_rfl
  · exact rdropWhile_prefix ..

/-- The buffer is large enough exactly when there are no more line breaks than characters up to the
last digit, and the characters without them make as many whole bytes as the digits. -/
theorem fitsBuffer_iff (self : Zarmour) (text : List UInt8) (hend : self.lineEnd = newline)
    (hnul : 0 ∉ text) :
    FitsBuffer self text ↔ text.count 10 ≤ (self.mode.strip text).length ∧
      ∀ size, self.mode.size ((self.mode.strip text).length - text.count 10) = .ok size →
        self.mode.width * (self.mode.digitsIn (self.mode.strip text)).length / 8 ≤
          self.mode.width * ((self.mode.strip text).length - text.count 10) / 8 := by
  have hcount := countLinebreakchars_newline text
  rw [← hend] at hcount
  obtain ⟨written, hloop, hdecodes⟩ := decodeLoop_decodes rfl (fun _ => round_readsAt)
    (isDigit_digitsIn fun h => hnul (( strip_prefix _ _).subset h))
  have hlength := hdecodes.length
  constructor
  · rintro ⟨linebreakchars, written', hcount', hloop', hle, hfits⟩
    cases hcount.symm.trans hcount'
    cases hloop.symm.trans hloop'
    refine ⟨hle, fun size hsize => ?_⟩
    have := (hfits size hsize).2
    rw [Mode.size_eq hsize] at this
    omega
  · rintro ⟨hle, hfits⟩
    refine ⟨_, _, hcount, hloop, hle, fun size hsize => ?_⟩
    have hbytes := hfits size hsize
    have hwidth := Nat.mul_le_mul_right ((self.mode.strip text).length - text.count 10)
      self.mode.width_le
    rw [Mode.size_eq hsize]
    omega

theorem fitsBuffer_two_lines : FitsBuffer new [81, 85, 10, 74, 68] :=
  (fitsBuffer_iff new [81, 85, 10, 74, 68] rfl (by decide)).mpr
    ⟨by decide, fun _ _ => by decide⟩

/-- A line break behind the last digit: three bytes and the NUL go into a buffer of three. -/
theorem buffer_overrun :
    new.decode [81, 85, 74, 68, 10] = .error (.outOfBounds 3) ∧
      ¬ FitsBuffer new [81, 85, 74, 68, 10] := by
  refine ⟨by decide, ?_⟩
  rintro ⟨linebreakchars, written, hcount, hloop, -, hfits⟩
  cases hcount
  cases hloop
  exact absurd (hfits 3 rfl).2 (by decide)

/-! ## Empty line endings -/

lemma strstr_eq_some {needle text found : List UInt8} (h : strstr needle text = some found) :
    needle <+: found ∧ found.length ≤ text.length := by
  induction text with
  | nil =>
    rw [strstr] at h
    split at h
    · next hnil =>
      cases h
      exact ⟨hnil ▸ nil_prefix, le_rfl⟩
    · cases h
  | cons c rest ih =>
    rw [strstr] at h
    split at h
    · next hpre =>
      cases h
      exact ⟨hpre, le_rfl⟩
    · obtain ⟨hpre, hle⟩ := ih h
      exact ⟨hpre, hle.trans (Nat.le_succ _)⟩

lemma exists_countLinebreakchars {lineEnd : List UInt8} (hne : lineEnd ≠ []) (data : List UInt8) :
    ∃ n, countLinebreakchars lineEnd data = .ok n := by
  have hbody : ∀ s : List UInt8 × Nat, True → (strstr lineEnd s.1).isSome = true →
      True ∧ (skipLineEnd lineEnd s).1.length < s.1.length := by
    intro s _ hguard
    obtain ⟨found, hfound⟩ := Option.isSome_iff_exists.mp hguard
    obtain ⟨hpre, hle⟩ := strstr_eq_some hfound
    have hpos := length_pos_iff.mpr hne
    have hlen := hpre.length_le
    rw [skipLineEnd, hfound]
    refine ⟨trivial, ?_⟩
    dsimp only
    rw [length_drop]
    omega
  obtain ⟨s, hrun, -⟩ := Loop.whileLoop_rule (fun _ => True) (fun s => s.1.length) hbody data.length
    (data, 0) trivial le_rfl
  exact ⟨s.2, by rw [countLinebreakchars, hrun]⟩

lemma strstr_nil (text : List UInt8) : strstr [] text = some text := by
  cases text <;> simp [strstr]

lemma whileLoop_strstr_nil (n : Nat) (s : List UInt8 × Nat) :
    Loop.whileLoop (fun s => (strstr [] s.1).isSome) (skipLineEnd []) n s = none := by
  induction n generalizing s with
  | zero => rw [Loop.whileLoop, strstr_nil]; rfl
  | succ n ih => rw [Loop.whileLoop, strstr_nil]; exact ih _

lemma Mode.size_ne_endlessLoop (m : Mode) (n : Nat) : m.size n ≠ .error .endlessLoop := by
  cases m with
  | base64Std | base64Url | base16 => exact nofun
  | base32Std | base32Hex =>
    change base32Size n ≠ _
    unfold base32Size
    split <;> exact nofun

end Czmq.Zarmour
