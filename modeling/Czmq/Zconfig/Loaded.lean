import Czmq.Zconfig.Zpl

/-! What `zconfig_chunk_load` takes from a text: the lines are read one by one, and the tree is the
one whose outline they give. -/

namespace Czmq.Zconfig

open List Option

@[simp] lemma lines_newline (data : List UInt8) : lines (newline :: data) = [] :: lines data := by
  rw [lines, if_pos rfl]

variable {data line : List UInt8}

lemma lines_body_append {body : List UInt8} {rest : List (List UInt8)}
    (hbody : newline ∉ body) (h : lines data = line :: rest) :
    lines (body ++ data) = (body ++ line) :: rest := by
  induction body with
  | nil => exact h
  | cons c body ih =>
    obtain ⟨hc, hbody⟩ := ne_and_not_mem_of_not_mem_cons hbody
    rw [cons_append, lines, if_neg hc.symm, ih hbody]
    rfl

lemma lines_line (body data : List UInt8) (hbody : newline ∉ body) :
    lines (body ++ newline :: data) = body :: lines data := by
  rw [lines_body_append hbody (lines_newline data), append_nil]

lemma newline_not_mem_lines (h : line ∈ lines data) :
    newline ∉ line := by
  induction data generalizing line with
  | nil => cases h
  | cons c data ih =>
    rw [lines] at h
    split at h
    · rcases mem_cons.mp h with rfl | h
      · exact not_mem_nil
      · exact ih h
    · next hc =>
      split at h
      · obtain rfl := mem_singleton.mp h
        simpa using Ne.symm hc
      · next first rest hlines =>
        rw [hlines] at ih
        rcases mem_cons.mp h with rfl | h
        · have := ih mem_cons_self
          simp [this, Ne.symm hc]
        · exact ih (mem_cons_of_mem _ h)

lemma sum_lines_le (data : List UInt8) :
    ((lines data).map (·.length + 1)).sum ≤ data.length + 1 := by
  induction data with
  | nil => exact Nat.zero_le _
  | cons c data ih =>
    rw [lines]
    split
    · simp only [map_cons, sum_cons, length_nil, length_cons]
      omega
    · split
      · simp
      · next first rest hlines =>
        rw [hlines] at ih
        simp only [map_cons, sum_cons, length_cons] at ih ⊢
        omega

/-! ## The items of a line -/

structure ValidName (name : List UInt8) : Prop where
  ne_nil : name ≠ []
  namechars : ∀ c ∈ name, isNamechar c = true
  head : name.head? ≠ some slash
  last : name.getLast? ≠ some slash

lemma isSpace_of_isNamechar {c : UInt8} (hc : isNamechar c = true) : isSpace c = false := by
  simp [isNamechar, isAlnum, isSpace, ← UInt8.toNat_inj, UInt8.le_iff_toNat_le] at hc ⊢
  omega

lemma length_takeWhile_add_dropWhile (p : UInt8 → Bool) (line : List UInt8) :
    (line.takeWhile p).length + (line.dropWhile p).length = line.length := by
  rw [← length_append, takeWhile_append_dropWhile]

variable {rest : List UInt8}

lemma collectLevel_spec {level : Nat} (h : collectLevel line = some (level, rest)) :
    line.length = level * 4 + rest.length ∧ rest.Sublist line := by
  have hsplit := length_takeWhile_add_dropWhile (· == space) line
  simp only [collectLevel] at h
  split at h
  · cases h
  · next hwidth =>
    split at h
    · cases h
    · cases h
      exact ⟨by omega, dropWhile_sublist _⟩

lemma collectName_spec {name : List UInt8} (h : collectName line = some (name, rest)) :
    line.length = name.length + rest.length ∧ rest.Sublist line ∧ (name ≠ [] → ValidName name) := by
  have hsplit := length_takeWhile_add_dropWhile isNamechar line
  simp only [collectName] at h
  split at h
  · cases h
  · next hslash =>
    cases h
    refine ⟨hsplit.symm, dropWhile_sublist _, fun hne => ?_⟩
    exact ⟨hne, fun c hc => mem_takeWhile_imp hc, fun h => hslash ⟨hne, .inl h⟩,
      fun h => hslash ⟨hne, .inr h⟩⟩

lemma unquoted_sublist (blanks line : List UInt8) : (unquoted blanks line).Sublist line := by
  simp only [unquoted]
  split
  · split
    · exact .refl _
    · exact ( rdropWhile_prefix _ _).sublist.trans (takeWhile_sublist _)
  · exact .refl _

lemma collectValue_sublist {value : List UInt8} (h : collectValue line = some value) :
    value.Sublist line := by
  rw [collectValue] at h
  split at h
  · cases h
    exact nil_sublist _
  · next c rest hline =>
    have hrest : (c :: rest).Sublist line := hline ▸ dropWhile_sublist _
    split at h
    · dsimp only at h
      split at h
      · cases h
        exact nil_sublist _
      · next c' rest' hrest' =>
        have hvalue : (c' :: rest').Sublist line :=
          ((hrest' ▸ dropWhile_sublist _ : (c' :: rest').Sublist rest).cons c).trans hrest
        split at h
        · obtain ⟨⟨v, behind⟩, hquoted, h⟩ := bind_eq_some_iff.mp h
          split at h
          · cases h
            rw [quoted] at hquoted
            split at hquoted <;> cases hquoted
            exact ((takeWhile_sublist _).cons c').trans hvalue
          · cases h
        · cases h
          exact (unquoted_sublist _ _).trans hvalue
    · split at h
      · cases h
        exact nil_sublist _
      · cases h

def weight (x : Nat × Property) : Nat :=
  x.1 * 4 + (x.2.name.getD []).length + (x.2.value.getD []).length

structure Loaded (a : Property) : Prop where
  name : ∃ name, a.name = some name ∧ ValidName name
  value : ∃ value, a.value = some value ∧ newline ∉ value ∧ 0 ∉ value
  comments : a.comments = none

lemma collectItem_spec {x : Nat × Property} (h : collectItem line = some (some x)) :
    weight x ≤ line.length ∧ (newline ∉ line → 0 ∉ line → Loaded x.2) := by
  obtain ⟨⟨level, line1⟩, hlevel, h1⟩ := bind_eq_some_iff.mp h
  obtain ⟨⟨name, line2⟩, hname, h2⟩ := bind_eq_some_iff.mp h1
  obtain ⟨hlen1, hsub1⟩ := collectLevel_spec hlevel
  obtain ⟨hlen2, hsub2, hvalid⟩ := collectName_spec hname
  dsimp only at h2
  split at h2
  · next hne =>
    obtain ⟨value, hvalue, h3⟩ := bind_eq_some_iff.mp h2
    cases h3
    have hsub := collectValue_sublist hvalue
    constructor
    · have := hsub.length_le
      simp only [weight, getD_some]
      omega
    · intro hnewline hzero
      have hmem : ∀ c, c ∉ line → c ∉ value := fun c hc hv =>
        hc ((hsub.trans (hsub2.trans hsub1)).mem hv)
      exact ⟨⟨name, rfl, hvalid hne⟩, ⟨value, rfl, hmem _ hnewline, hmem _ hzero⟩, rfl⟩
  · split at h2 <;> cases h2

/-! ## The items of a text -/

def lineItem (line : List UInt8) : Option (Option (Nat × Property)) := collectItem (trimLine line)

lemma trimLine_begins (line : List UInt8) : trimLine line <+: line :=
  ( rdropWhile_prefix _ _).trans ( takeWhile_prefix _)

lemma lineItem_spec {x : Nat × Property} (h : lineItem line = some (some x)) :
    weight x ≤ line.length ∧ (newline ∉ line → Loaded x.2) := by
  obtain ⟨hweight, hloaded⟩ := collectItem_spec h
  have hsub := (trimLine_begins line).sublist
  refine ⟨hweight.trans hsub.length_le, fun hline => hloaded (fun h => hline (hsub.mem h)) ?_⟩
  exact fun h => Bytes.zero_not_mem_cstr line (( rdropWhile_prefix _ _).sublist.mem h)

abbrev Reads (ls : List (List UInt8)) (items : List (Option (Nat × Property))) : Prop :=
  Forall₂ (fun line item => lineItem line = some item) ls items

lemma exists_loadLine_iff (root : Property) {f f' : Zconfig} :
    (∃ root', loadLine (root, f) line = some (root', f')) ↔
      ∃ item, lineItem line = some item ∧ Forest.growAll item.toList f = some f' := by
  simp only [loadLine, lineItem]
  cases collectItem (trimLine line) with
  | none => simp
  | some item =>
    cases item with
    | none => simp [Forest.growAll]
    | some x =>
      simp only [bind_eq_bind, bind_some, bind_eq_some_iff]
      simp [Forest.growAll]

lemma exists_loadLines_iff (root : Property) {f f' : Zconfig} {ls : List (List UInt8)} :
    (∃ root', ls.foldlM loadLine (root, f) = some (root', f')) ↔
      ∃ items, Reads ls items ∧ Forest.growAll (items.flatMap toList) f = some f' := by
  induction ls generalizing root f with
  | nil => simp [Forest.growAll]
  | cons line ls ih =>
    constructor
    · rintro ⟨root', h⟩
      obtain ⟨⟨root1, f1⟩, hline, h⟩ := bind_eq_some_iff.mp h
      obtain ⟨item, hitem, hgrow⟩ := (exists_loadLine_iff root).mp ⟨root1, hline⟩
      obtain ⟨items, hitems, hgrows⟩ := (ih root1).mp ⟨root', h⟩
      refine ⟨item :: items, .cons hitem hitems, ?_⟩
      rw [flatMap_cons, Forest.growAll_append, hgrow]
      exact hgrows
    · rintro ⟨items, hreads, hgrow⟩
      obtain ⟨item, rest, hitem, hrest, rfl⟩ := forall₂_cons_left_iff.mp hreads
      rw [flatMap_cons, Forest.growAll_append] at hgrow
      obtain ⟨f1, hf1, hf'⟩ := bind_eq_some_iff.mp hgrow
      obtain ⟨root1, hline⟩ := (exists_loadLine_iff root).mpr ⟨item, hitem, hf1⟩
      obtain ⟨root', h⟩ := (ih root1).mpr ⟨rest, hrest, hf'⟩
      exact ⟨root', by rw [foldlM_cons, hline]; exact h⟩

lemma exists_chunkLoad_iff {child : Zconfig} :
    (∃ a, chunkLoad data = some (.node a child .nil)) ↔
      ∃ items, Reads (lines data) items ∧ child.outline 0 = items.flatMap toList := by
  simp only [← Forest.growAll_eq_some_iff]
  rw [← exists_loadLines_iff (new (some [114, 111, 111, 116]))]
  constructor
  · rintro ⟨a, h⟩
    obtain ⟨⟨root, f⟩, hload, h⟩ := bind_eq_some_iff.mp h
    cases h
    exact ⟨_, hload⟩
  · rintro ⟨a, h⟩
    exact ⟨a, by rw [chunkLoad, h]; rfl⟩

section
variable {ls : List (List UInt8)} {items : List (Option (Nat × Property))}

lemma Reads.exists_line (h : Reads ls items) {x : Nat × Property}
    (hx : x ∈ items.flatMap toList) : ∃ line ∈ ls, lineItem line = some (some x) := by
  induction h with
  | nil => cases hx
  | @cons line item ls items hline _ ih =>
    rw [flatMap_cons, mem_append] at hx
    rcases hx with hx | hx
    · obtain rfl := mem_toList.mp hx
      exact ⟨line, mem_cons_self, hline⟩
    · obtain ⟨line', hmem, hline'⟩ := ih hx
      exact ⟨line', mem_cons_of_mem _ hmem, hline'⟩

lemma Reads.sum_weight_le (h : Reads ls items) :
    ((items.flatMap toList).map (weight · + 1)).sum ≤ (ls.map (·.length + 1)).sum := by
  induction h with
  | nil => exact Nat.le_refl _
  | @cons line item ls items hline _ ih =>
    cases item with
    | none => exact ih.trans (Nat.le_add_left _ _)
    | some x =>
      have := (lineItem_spec hline).1
      simp only [flatMap_cons, toList_some, cons_append, nil_append,
        map_cons, sum_cons]
      omega

end

def OneLineComments (a : Property) : Prop := ∀ comment ∈ a.comments.getD [], newline ∉ comment

lemma OneLineComments.loadLine {s s' : Property × Zconfig}
    (hs : OneLineComments s.1) (hline : newline ∉ line) (h : Zconfig.loadLine s line = some s') :
    OneLineComments s'.1 := by
  have hroot : OneLineComments (if (trimLine line).head? = some hash then
      { s.1 with comments := some (s.1.comments.getD [] ++ [(trimLine line).tail]) } else s.1) := by
    split
    · intro comment hmem
      rcases mem_append.mp hmem with hmem | hmem
      · exact hs comment hmem
      · obtain rfl := mem_singleton.mp hmem
        exact fun h => hline ((trimLine_begins line).sublist.mem (mem_of_mem_tail h))
    · exact hs
  obtain ⟨item, -, h⟩ := bind_eq_some_iff.mp h
  cases item with
  | none =>
    cases h
    exact hroot
  | some x =>
    obtain ⟨child, -, h⟩ := bind_eq_some_iff.mp h
    cases h
    exact hroot

lemma OneLineComments.loadLines {s s' : Property × Zconfig} {ls : List (List UInt8)}
    (hs : OneLineComments s.1) (hls : ∀ line ∈ ls, newline ∉ line)
    (h : ls.foldlM Zconfig.loadLine s = some s') : OneLineComments s'.1 := by
  induction ls generalizing s with
  | nil =>
    cases h
    exact hs
  | cons line ls ih =>
    rw [forall_mem_cons] at hls
    obtain ⟨s1, hline, h⟩ := bind_eq_some_iff.mp h
    exact ih (hs.loadLine hls.1 hline) hls.2 h

lemma chunkLoad_spec {t : Zconfig} (h : chunkLoad data = some t) :
    ∃ a child, t = .node a child .nil ∧ OneLineComments a ∧ child.All Loaded := by
  obtain ⟨⟨a, child⟩, hload, ht⟩ := bind_eq_some_iff.mp h
  cases ht
  refine ⟨a, child, rfl, ?_, ?_⟩
  · have hnew : OneLineComments (new (some [114, 111, 111, 116])) := by simp [OneLineComments, new]
    exact hnew.loadLines (fun _ h => newline_not_mem_lines h) hload
  · obtain ⟨items, hreads, hitems⟩ := exists_chunkLoad_iff.mp ⟨a, h⟩
    rw [← Forest.forall_mem_outline, hitems]
    intro x hx
    obtain ⟨line, hmem, hline⟩ := hreads.exists_line hx
    exact (lineItem_spec hline).2 (newline_not_mem_lines hmem)

end Czmq.Zconfig
