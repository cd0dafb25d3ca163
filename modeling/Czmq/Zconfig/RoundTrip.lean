import Czmq.Zconfig.Loaded
import Czmq.Zconfig.Saved
import Mathlib.Algebra.Order.BigOperators.Group.List

/-! Saving and loading. A line that was saved whole is read back, unless its value has a quote; a
line that was cut is shorter than its item. -/

namespace Czmq.Zconfig

open List

/-! ## Reading a saved line -/

structure Writable (a : Property) : Prop where
  name : ∃ name, a.name = some name ∧ ValidName name
  value : ∀ value ∈ a.value, newline ∉ value ∧ 0 ∉ value
  comments : a.comments = none

variable {a : Property}

lemma Loaded.writable (h : Loaded a) : Writable a := by
  obtain ⟨value, hvalue, hclean⟩ := h.value
  exact ⟨h.name, fun v hv => by cases hvalue.symm.trans hv; exact hclean, h.comments⟩

def asLoaded (a : Property) : Property := { a with value := some (a.value.getD []) }

def Unquoted (a : Property) : Prop := ∀ value ∈ a.value, quote ∉ value

lemma collectLevel_replicate (l : Nat) (hl : l ≤ intMax) {rest : List UInt8}
    (hrest : rest.head? ≠ some space) :
    collectLevel (replicate (l * 4) space ++ rest) = some (l, rest) := by
  have hpass : ∀ c ∈ replicate (l * 4) space, (c == space) = true := fun c hc => by
    rw [eq_of_mem_replicate hc, beq_self_eq_true]
  have htake : rest.takeWhile (· == space) = [] := by
    cases rest with
    | nil => rfl
    | cons c rest => exact takeWhile_cons_of_neg (by simpa using hrest)
  have hdrop : rest.dropWhile (· == space) = rest := by
    cases rest with
    | nil => rfl
    | cons c rest => exact dropWhile_cons_of_neg (by simpa using hrest)
  rw [collectLevel, takeWhile_append_of_pos hpass, dropWhile_append_of_pos hpass, htake,
    hdrop, append_nil, length_replicate]
  simp only [Nat.mul_div_cancel l (Nat.succ_pos 3), ne_eq, not_true_eq_false, if_false]
  rw [if_neg (by omega)]

lemma collectName_valuePart {name : List UInt8} (hname : ValidName name)
    (value : Option (List UInt8)) :
    collectName (name ++ valuePart value) = some (name, valuePart value) := by
  have htake : (valuePart value).takeWhile isNamechar = [] := by cases value <;> rfl
  have hdrop : (valuePart value).dropWhile isNamechar = valuePart value := by cases value <;> rfl
  rw [collectName, takeWhile_append_of_pos hname.namechars,
    dropWhile_append_of_pos hname.namechars, htake, hdrop, append_nil, if_neg]
  rintro ⟨-, h | h⟩
  · exact hname.head h
  · exact hname.last h

lemma collectValue_quoted (value : List UInt8) :
    collectValue (valuePart (some value)) = some value ↔ quote ∉ value := by
  have hrest : collectValue (valuePart (some value)) =
      (quoted quote (value ++ [quote])).bind fun x => if verifyEoln x.2 then some x.1 else none := rfl
  rw [hrest]
  constructor
  · intro h hquote
    obtain ⟨⟨v, rest⟩, hv, h⟩ := Option.bind_eq_some_iff.mp h
    split at h
    · cases h
      rw [quoted] at hv
      split at hv
      · cases hv
      · obtain ⟨hvalue, -⟩ := Prod.mk.inj (Option.some.inj hv)
        rw [← hvalue] at hquote
        exact absurd (mem_takeWhile_imp hquote) (by simp)
    · cases h
  · intro hquote
    have hpass : ∀ c ∈ value, (c != quote) = true := fun c hc => by
      rw [bne_iff_ne]
      rintro rfl
      exact hquote hc
    rw [quoted, dropWhile_append_of_pos hpass, takeWhile_append_of_pos hpass]
    simp [verifyEoln]

lemma Writable.not_mem_itemBody (ha : Writable a) (width : Nat) :
    newline ∉ itemBody a width ∧ 0 ∉ itemBody a width := by
  obtain ⟨name, hn, hname⟩ := ha.name
  have hbody : ∀ c, isNamechar c = false → c ≠ space → c ∉ valuePart a.value →
      c ∉ itemBody a width := by
    intro c hc hspace hpart
    rw [itemBody, hn]
    simp only [mem_append, mem_replicate, not_or]
    refine ⟨fun h => hspace h.2, fun h => ?_, hpart⟩
    rw [hname.namechars c h] at hc
    cases hc
  have hvalue : newline ∉ valuePart a.value ∧ 0 ∉ valuePart a.value := by
    cases hv : a.value with
    | none => exact ⟨not_mem_nil, not_mem_nil⟩
    | some value =>
      have := ha.value value hv
      simp [valuePart, this, newline, space, equals, quote]
      exact this.1
  exact ⟨hbody newline rfl (by decide) hvalue.1, hbody 0 rfl (by decide) hvalue.2⟩

lemma Writable.trimLine_itemBody (ha : Writable a) (width : Nat) :
    trimLine (itemBody a width) = itemBody a width := by
  have hcstr : Bytes.cstr (itemBody a width) = itemBody a width := by
    rw [Bytes.cstr, takeWhile_eq_self_iff]
    intro c hc
    rw [bne_iff_ne]
    rintro rfl
    exact (ha.not_mem_itemBody width).2 hc
  rw [trimLine, hcstr, rdropWhile_eq_self_iff]
  obtain ⟨name, hn, hname⟩ := ha.name
  intro hne
  cases hv : a.value with
  | none =>
    have hlast : (itemBody a width).getLast hne = name.getLast hname.ne_nil := by
      simp [itemBody, hn, hv, valuePart, getLast_append_of_ne_nil _ hname.ne_nil]
    rw [hlast, isSpace_of_isNamechar (hname.namechars _ (getLast_mem _))]
    exact Bool.false_ne_true
  | some value =>
    have hlast : (itemBody a width).getLast hne = quote := by
      simp [itemBody, hv, valuePart]
    rw [hlast]
    exact Bool.false_ne_true

lemma Writable.lineItem_itemBody (ha : Writable a) {l : Nat} (hl : l ≤ intMax) :
    ∃ name, a.name = some name ∧ lineItem (itemBody a (l * 4)) =
      (collectValue (valuePart a.value)).map fun value => some (l, ⟨some name, some value, none⟩) := by
  obtain ⟨name, hn, hname⟩ := ha.name
  refine ⟨name, hn, ?_⟩
  have hhead : (name ++ valuePart a.value).head? ≠ some space := by
    cases hc : name with
    | nil => exact absurd hc hname.ne_nil
    | cons c rest =>
      intro h
      cases h
      have := hname.namechars space (by simp [hc])
      cases this
  rw [lineItem, ha.trimLine_itemBody, collectItem, itemBody, hn, Option.getD_some, collectLevel_replicate l hl hhead]
  simp only [Option.bind_eq_bind, Option.bind_some, collectName_valuePart hname, ne_eq,
    hname.ne_nil]
  cases collectValue (valuePart a.value) <;> rfl

lemma Writable.lineItem_itemBody_iff (ha : Writable a) {l : Nat} (hl : l ≤ intMax) :
    lineItem (itemBody a (l * 4)) = some (some (l, asLoaded a)) ↔ Unquoted a := by
  obtain ⟨name, hn, hitem⟩ := ha.lineItem_itemBody hl
  have hload : asLoaded a = ⟨some name, some (a.value.getD []), none⟩ := by
    rw [asLoaded, hn, ha.comments]
  rw [hitem, hload, Unquoted]
  cases hv : a.value with
  | none =>
    have hnone : collectValue (valuePart none) = some [] := rfl
    simp [hnone]
  | some value =>
    simp [← collectValue_quoted value]

/-! ## The comments of the root -/

def Blank (line : List UInt8) : Prop := line = [] ∨ line.head? = some hash

lemma Blank.lineItem_eq {line : List UInt8} (h : Blank line) : lineItem line = some none := by
  have htrim := trimLine_begins line
  rw [lineItem]
  cases hc : trimLine line with
  | nil => rfl
  | cons c rest =>
    rw [hc] at htrim
    obtain ⟨behind, rfl⟩ := htrim
    rcases h with h | h
    · cases h
    · cases h
      have hlevel : collectLevel (hash :: rest) = some (0, hash :: rest) :=
        collectLevel_replicate 0 (Nat.zero_le _) (by simp [hash, space])
      have hname : collectName (hash :: rest) = some ([], hash :: rest) := rfl
      rw [collectItem, hlevel]
      rfl

variable {xs : List (Nat × Property)}

lemma exists_reads_blank_append {ls ls' : List (List UInt8)} (hls : ∀ line ∈ ls, Blank line) :
    (∃ items, Reads (ls ++ ls') items ∧ xs = items.flatMap Option.toList) ↔
      ∃ items, Reads ls' items ∧ xs = items.flatMap Option.toList := by
  induction ls with
  | nil => rfl
  | cons line ls ih =>
    rw [forall_mem_cons] at hls
    rw [← ih hls.2]
    constructor
    · rintro ⟨items, hreads, rfl⟩
      obtain ⟨item, items, hitem, hitems, rfl⟩ := forall₂_cons_left_iff.mp hreads
      obtain rfl := Option.some.inj (hls.1.lineItem_eq.symm.trans hitem)
      exact ⟨items, hitems, rfl⟩
    · rintro ⟨items, hreads, rfl⟩
      exact ⟨none :: items, .cons hls.1.lineItem_eq hreads, rfl⟩

lemma cut_line (body : List UInt8) :
    cut (body ++ [newline]) = body ++ [newline] ∨ cut (body ++ [newline]) = body.take 255 := by
  rw [cut]
  split
  · exact .inl rfl
  · next h =>
    right
    rw [length_append, length_singleton, intMax] at h
    exact take_append_of_le_length (by omega)

lemma exists_lines_comments {comments : List (List UInt8)}
    (h : ∀ comment ∈ comments, newline ∉ comment) :
    ∃ line ls, (∀ l ∈ line :: ls, Blank l) ∧ ∀ data,
      lines (printed (comments.map commentLine ++ [[newline]]) ++ data) = line :: (ls ++ lines data) := by
  induction comments with
  | nil =>
    refine ⟨[], [], by simp [Blank], fun data => ?_⟩
    exact lines_newline data
  | cons comment comments ih =>
    rw [forall_mem_cons] at h
    obtain ⟨line, ls, hblank, hlines⟩ := ih h.2
    have hbody : newline ∉ hash :: comment := by simpa [newline, hash] using h.1
    have hprinted : ∀ data, printed ((comment :: comments).map commentLine ++ [[newline]]) ++ data =
        cut ((hash :: comment) ++ [newline]) ++
          (printed (comments.map commentLine ++ [[newline]]) ++ data) := fun data => by
      rw [map_cons, cons_append, printed, flatMap_cons, append_assoc]
      rfl
    rcases cut_line (hash :: comment) with hcut | hcut
    · refine ⟨hash :: comment, line :: ls, ?_, fun data => ?_⟩
      · exact forall_mem_cons.mpr ⟨.inr rfl, hblank⟩
      · rw [hprinted, hcut, append_assoc, singleton_append, lines_line _ _ hbody, hlines]
        rfl
    · refine ⟨(hash :: comment).take 255 ++ line, ls, ?_, fun data => ?_⟩
      · exact forall_mem_cons.mpr ⟨.inr rfl, (forall_mem_cons.mp hblank).2⟩
      · rw [hprinted, hcut]
        exact lines_body_append (fun h => hbody (mem_of_mem_take h)) (hlines data)

lemma exists_lines_commentTexts (ha : OneLineComments a) :
    ∃ ls, (∀ l ∈ ls, Blank l) ∧
      ∀ data, lines (printed (commentTexts a) ++ data) = ls ++ lines data := by
  rw [OneLineComments] at ha
  rw [commentTexts]
  cases hc : a.comments with
  | none => exact ⟨[], by simp, fun data => rfl⟩
  | some comments =>
    rw [hc] at ha
    obtain ⟨line, ls, hblank, hlines⟩ := exists_lines_comments ha
    exact ⟨line :: ls, hblank, hlines⟩

/-! ## The lines of the items -/

def itemLine (x : Nat × Property) : List UInt8 := itemBody x.2 (x.1 * 4) ++ [newline]

lemma length_itemLine_le (x : Nat × Property) (hname : x.2.name.isSome) :
    (itemLine x).length ≤ weight x + 6 := by
  obtain ⟨name, hn⟩ := Option.isSome_iff_exists.mp hname
  cases hv : x.2.value <;> simp [itemLine, itemBody, weight, hn, hv, valuePart] <;> omega

lemma length_cut_le (text : List UInt8) : (cut text).length ≤ text.length := by
  rw [cut]
  split
  · exact Nat.le_refl _
  · exact length_take_le' _ _

lemma length_printed_le (h : ∀ x ∈ xs, Writable x.2) :
    (xs.flatMap fun x => cut (itemLine x)).length ≤ (xs.map (weight · + 1)).sum + 5 * xs.length ∧
      2 * xs.length ≤ (xs.map (weight · + 1)).sum := by
  induction xs with
  | nil => simp
  | cons x xs ih =>
    rw [forall_mem_cons] at h
    obtain ⟨name, hn, hname⟩ := h.1.name
    have hline := length_itemLine_le x (Option.isSome_iff_exists.mpr ⟨name, hn⟩)
    have hcut := length_cut_le (itemLine x)
    have hpos : name.length ≤ weight x := by rw [weight, hn, Option.getD_some]; omega
    have hne := length_pos_iff.mpr hname.ne_nil
    obtain ⟨hle, htwo⟩ := ih h.2
    simp only [flatMap_cons, length_append, map_cons, sum_cons, length_cons]
    omega

lemma length_itemLine_lt (h : ∀ x ∈ xs, Writable x.2)
    (hsum : (xs.map (weight · + 1)).sum ≤ (xs.flatMap fun x => cut (itemLine x)).length + 1)
    (hle : (xs.flatMap fun x => cut (itemLine x)).length + 1 ≤ intMax)
    {x : Nat × Property} (hx : x ∈ xs) : (itemLine x).length < intMax := by
  by_contra hcut
  obtain ⟨before, behind, rfl⟩ := append_of_mem hx
  obtain ⟨name, hn, -⟩ := (h x hx).name
  have hline := length_itemLine_le x (Option.isSome_iff_exists.mpr ⟨name, hn⟩)
  have h255 : (cut (itemLine x)).length ≤ 255 := by
    rw [cut, if_neg hcut]
    exact length_take_le _ _
  obtain ⟨hbefore, hrest⟩ := forall_mem_append.mp h
  obtain ⟨hle1, htwo1⟩ := length_printed_le hbefore
  obtain ⟨hle2, htwo2⟩ := length_printed_le (forall_mem_cons.mp hrest).2
  simp only [map_append, map_cons, sum_append, sum_cons, flatMap_append,
    flatMap_cons, length_append] at hsum hle
  -- the other items are at most two, as this one alone takes almost all of an `int`
  rw [intMax] at hcut hle
  omega

lemma lines_items (h : ∀ x ∈ xs, Writable x.2) (hlt : ∀ x ∈ xs, (itemLine x).length < intMax) :
    lines (xs.flatMap fun x => cut (itemLine x)) = xs.map fun x => itemBody x.2 (x.1 * 4) := by
  induction xs with
  | nil => rfl
  | cons x xs ih =>
    rw [forall_mem_cons] at h hlt
    rw [flatMap_cons, cut, if_pos hlt.1, itemLine, append_assoc, singleton_append,
      lines_line _ _ (h.1.not_mem_itemBody _).1, ih h.2 hlt.2]
    rfl

lemma exists_reads_items_iff (h : ∀ x ∈ xs, Writable x.2) (hlevel : ∀ x ∈ xs, x.1 ≤ intMax) :
    (∃ items, Reads (xs.map fun x => itemBody x.2 (x.1 * 4)) items ∧
      xs.map (Prod.map id asLoaded) = items.flatMap Option.toList) ↔ ∀ x ∈ xs, Unquoted x.2 := by
  induction xs with
  | nil => simp
  | cons x xs ih =>
    rw [forall_mem_cons] at h hlevel
    rw [forall_mem_cons, ← ih h.2 hlevel.2, ← h.1.lineItem_itemBody_iff hlevel.1]
    constructor
    · rintro ⟨items, hreads, hitems⟩
      obtain ⟨item, items, hitem, hrest, rfl⟩ := forall₂_cons_left_iff.mp hreads
      cases item with
      | none =>
        obtain ⟨name, -, hname⟩ := h.1.lineItem_itemBody hlevel.1
        rw [hname] at hitem
        simp [Option.map_eq_some_iff] at hitem
      | some y =>
        obtain ⟨rfl, hsame⟩ := cons.inj hitems
        exact ⟨hitem, items, hrest, hsame⟩
    · rintro ⟨hitem, items, hreads, hitems⟩
      refine ⟨some (Prod.map id asLoaded x) :: items, .cons hitem hreads, ?_⟩
      rw [map_cons, hitems]
      rfl

/-! ## Round trips -/

/-- The tree can be saved: no comment has the length that overflows, every line can be printed, and
the text has room. -/
structure Fits (a : Property) (child : Zconfig) : Prop where
  comments : Sayable (commentTexts a)
  lines : ∀ x ∈ child.outline 0, (itemLine x).length < intMax
  total : (printed (texts a child)).length + 1 ≤ intMax

section
variable {a : Property} {child : Zconfig} (ha : OneLineComments a) (hchild : child.All Writable)
include hchild

lemma itemTexts_eq {x : Nat × Property} (hx : x ∈ child.outline 0) : itemTexts x = [itemLine x] := by
  have hcomments := (Forest.forall_mem_outline.mpr hchild x hx).comments
  rw [itemTexts, commentTexts, hcomments]
  rfl

lemma printed_texts : printed (texts a child) =
    printed (commentTexts a) ++ (child.outline 0).flatMap fun x => cut (itemLine x) := by
  rw [texts, printed_append, printed, printed, flatMap_assoc]
  congr 1
  apply flatMap_congr
  intro x hx
  rw [itemTexts_eq hchild hx, flatMap_singleton]

lemma Fits.itemSayable (h : Fits a child) : ∀ x ∈ child.outline 0, ItemSayable x := by
  intro x hx
  have hlt := h.lines x hx
  refine ⟨?_, ?_⟩
  · simp only [itemLine, itemBody, length_append, length_replicate] at hlt
    omega
  · rw [itemTexts_eq hchild hx, Sayable, forall_mem_singleton]
    exact Nat.ne_of_lt hlt

include ha

lemma exists_chunkLoad_printed_iff {child' : Zconfig} :
    (∃ root, chunkLoad (printed (texts a child)) = some (.node root child' .nil)) ↔
      ∃ items, Reads (lines ((child.outline 0).flatMap fun x => cut (itemLine x))) items ∧
        child'.outline 0 = items.flatMap Option.toList := by
  obtain ⟨ls, hblank, hlines⟩ := exists_lines_commentTexts ha
  rw [exists_chunkLoad_iff, printed_texts hchild, hlines, exists_reads_blank_append hblank]

lemma exists_chunkLoad_asLoaded_iff (hlt : ∀ x ∈ child.outline 0, (itemLine x).length < intMax)
    (hsay : ∀ x ∈ child.outline 0, ItemSayable x) :
    (∃ root, chunkLoad (printed (texts a child)) = some (.node root (child.map asLoaded) .nil)) ↔
      child.All Unquoted := by
  have hwritable := Forest.forall_mem_outline (l := 0).mpr hchild
  rw [exists_chunkLoad_printed_iff ha hchild, Forest.outline_map, lines_items hwritable hlt,
    exists_reads_items_iff hwritable fun x hx => by have := (hsay x hx).1; omega]
  exact Forest.forall_mem_outline

lemma roundTrips_iff_fits {next : Zconfig} :
    (∃ chunk root, chunkSave (.node a child next) = .ok chunk ∧
      chunkLoad chunk.data = some (.node root (child.map asLoaded) .nil)) ↔
      Fits a child ∧ child.All Unquoted := by
  have hwritable := Forest.forall_mem_outline (l := 0).mpr hchild
  constructor
  · rintro ⟨chunk, root, hsave, hload⟩
    obtain ⟨⟨hcomments, hsay⟩, htotal, rfl⟩ := chunkSave_eq_ok_iff.mp hsave
    obtain ⟨items, hreads, hitems⟩ := (exists_chunkLoad_printed_iff ha hchild).mp ⟨root, hload⟩
    rw [Forest.outline_map] at hitems
    have hsum : ((child.outline 0).map (weight · + 1)).sum ≤
        ((child.outline 0).flatMap fun x => cut (itemLine x)).length + 1 := by
      have hle := hreads.sum_weight_le.trans (sum_lines_le _)
      rw [← hitems, map_map] at hle
      exact hle
    have hlt : ∀ x ∈ child.outline 0, (itemLine x).length < intMax := fun x hx => by
      refine length_itemLine_lt hwritable hsum ?_ hx
      rw [printed_texts hchild, length_append] at htotal
      omega
    exact ⟨⟨hcomments, hlt, htotal⟩,
      (exists_chunkLoad_asLoaded_iff ha hchild hlt hsay).mp ⟨root, hload⟩⟩
  · rintro ⟨hfits, hquotes⟩
    have hsay := hfits.itemSayable hchild
    obtain ⟨root, hload⟩ := (exists_chunkLoad_asLoaded_iff ha hchild hfits.lines hsay).mpr hquotes
    exact ⟨_, root, chunkSave_eq_ok_iff.mpr ⟨⟨hfits.comments, hsay⟩, hfits.total, rfl⟩, hload⟩

end

def savedSize (child : Zconfig) : Nat := ((child.outline 0).map fun x => (itemLine x).length).sum

lemma fits_iff_savedSize {child : Zconfig} (ha : a.comments = none)
    (hchild : child.All Writable) : Fits a child ↔ savedSize child + 1 ≤ intMax := by
  have hsize : (∀ x ∈ child.outline 0, (itemLine x).length < intMax) →
      (printed (texts a child)).length = savedSize child := fun hlt => by
    have hcut : (child.outline 0).flatMap (fun x => cut (itemLine x)) =
        (child.outline 0).flatMap itemLine :=
      flatMap_congr fun x hx => by rw [cut, if_pos (hlt x hx)]
    rw [printed_texts hchild, hcut, commentTexts, ha]
    exact length_flatMap
  constructor
  · intro h
    rw [← hsize h.lines]
    exact h.total
  · intro h
    have hlt : ∀ x ∈ child.outline 0, (itemLine x).length < intMax := fun x hx => by
      have hle : (itemLine x).length ≤ savedSize child :=
        le_sum_of_mem (mem_map.mpr ⟨x, hx, rfl⟩)
      omega
    refine ⟨?_, hlt, ?_⟩
    · rw [commentTexts, ha]
      exact fun t ht => absurd ht not_mem_nil
    · rw [hsize hlt]
      exact h

/-- What is saved is loaded again exactly when the text is shorter than the largest `int`. -/
theorem chunkLoad_chunkSave_iff {a : Property} {child next : Zconfig} (ha : a.comments = none)
    (hchild : child.All Writable) (hquotes : child.All Unquoted) :
    (∃ chunk root, chunkSave (.node a child next) = .ok chunk ∧
      chunkLoad chunk.data = some (.node root (child.map asLoaded) .nil)) ↔
      savedSize child + 1 ≤ intMax := by
  have hroot : OneLineComments a := by simp [OneLineComments, ha]
  rw [roundTrips_iff_fits hroot hchild, fits_iff_savedSize ha hchild, and_iff_left hquotes]

def oneItem (value : Option (List UInt8)) : Zconfig := .node ⟨some [97], value, none⟩ .nil .nil

lemma writable_oneItem {value : Option (List UInt8)}
    (h : ∀ v ∈ value, newline ∉ v ∧ 0 ∉ v) : (oneItem value).All Writable := by
  refine ⟨⟨⟨[97], rfl, ?_⟩, h, rfl⟩, trivial, trivial⟩
  exact ⟨by simp, by simp [isNamechar, isAlnum], by simp [slash], by simp [slash]⟩

lemma unquoted_oneItem {value : Option (List UInt8)} (h : ∀ v ∈ value, quote ∉ v) :
    (oneItem value).All Unquoted := ⟨h, trivial, trivial⟩

theorem chunkLoad_chunkSave_no_value : ∃ chunk root,
    chunkSave (.node (new none) (oneItem none) .nil) = .ok chunk ∧
      chunkLoad chunk.data = some (.node root ((oneItem none).map asLoaded) .nil) :=
  (chunkLoad_chunkSave_iff rfl (writable_oneItem (by simp)) (unquoted_oneItem (by simp))).mpr
    (by decide)

def letters (n : Nat) : List UInt8 := replicate n 120

lemma not_mem_letters {c : UInt8} (hc : c ≠ 120) (n : Nat) : c ∉ letters n := fun h =>
  hc (eq_of_mem_replicate h)

lemma writable_letters (n : Nat) : (oneItem (some (letters n))).All Writable := by
  apply writable_oneItem
  rintro v ⟨⟩
  exact ⟨not_mem_letters (by decide) n, not_mem_letters (by decide) n⟩

/-- A value of 2 GiB. -/
theorem chunkLoad_chunkSave_long : (oneItem (some (letters (2 ^ 31)))).All Writable ∧
    (oneItem (some (letters (2 ^ 31)))).All Unquoted ∧ ¬ ∃ chunk root,
      chunkSave (.node (new none) (oneItem (some (letters (2 ^ 31)))) .nil) = .ok chunk ∧
        chunkLoad chunk.data =
          some (.node root ((oneItem (some (letters (2 ^ 31)))).map asLoaded) .nil) := by
  refine ⟨writable_letters _, unquoted_oneItem ?_, fun h => ?_⟩
  · rintro v ⟨⟩
    exact not_mem_letters (by decide) _
  have hroot : OneLineComments (new none) := by simp [OneLineComments, new]
  have hlt := ((roundTrips_iff_fits hroot (writable_letters _)).mp h).1.lines _ mem_cons_self
  simp only [itemLine, itemBody, valuePart, letters, length_append, length_replicate] at hlt
  have hmax : intMax ≤ 2 ^ 31 := Nat.sub_le _ _
  omega

def dup : Zconfig → Except Fault (Option Zconfig)
  | .nil => .ok none
  | .node a child next => do
    let chunk ← chunkSave (.node a child next)
    .ok (chunkLoad chunk.data)

/-- The copy of a loaded tree has the same items exactly when it can be saved and no value has a
double quote. -/
theorem dup_chunkLoad_iff {text : List UInt8} {a : Property} {child next : Zconfig}
    (h : chunkLoad text = some (.node a child next)) :
    (∃ root, dup (.node a child next) = .ok (some (.node root child .nil))) ↔
      Fits a child ∧ child.All Unquoted := by
  obtain ⟨a', child', ht, hroot, hloaded⟩ := chunkLoad_spec h
  cases ht
  have hsame : child.map asLoaded = child :=
    Forest.map_id_of_all (hloaded.imp fun a ha => by
      obtain ⟨value, hvalue, -⟩ := ha.value
      rw [asLoaded, hvalue, Option.getD_some, ← hvalue])
  rw [← roundTrips_iff_fits hroot (hloaded.imp fun a ha => ha.writable), hsame]
  constructor
  · rintro ⟨root, hdup⟩
    obtain ⟨chunk, hchunk, hload⟩ := bind_eq_ok.mp hdup
    exact ⟨chunk, root, hchunk, Except.ok.inj hload⟩
  · rintro ⟨chunk, root, hchunk, hload⟩
    refine ⟨root, ?_⟩
    rw [dup, hchunk]
    exact congrArg Except.ok hload

/-- `a='b'`. -/
theorem dup_chunkLoad_apostrophes : ∃ root,
    dup (.node (new (some [114, 111, 111, 116])) (oneItem (some [98])) .nil) =
      .ok (some (.node root (oneItem (some [98])) .nil)) :=
  have h : chunkLoad [97, 61, 39, 98, 39] =
    some (.node (new (some [114, 111, 111, 116])) (oneItem (some [98])) .nil) := by decide
  (dup_chunkLoad_iff h).mpr ⟨⟨by simp [commentTexts, Sayable, new], by decide, by decide⟩,
    unquoted_oneItem (by decide)⟩

/-- `a='"'`. -/
theorem dup_chunkLoad_quote :
    chunkLoad [97, 61, 39, 34, 39] =
        some (.node (new (some [114, 111, 111, 116])) (oneItem (some [34])) .nil) ∧
      dup (.node (new (some [114, 111, 111, 116])) (oneItem (some [34])) .nil) = .ok none := by
  decide

end Czmq.Zconfig
