import Czmq.Zconfig.Loaded

/-! A comment behind an item. `s_verify_eoln` passes over it, and `s_collect_value` cuts it off an
unquoted value together with the blanks before it. -/

namespace Czmq

open List Option

namespace Zconfig

def Trimmed (text : List UInt8) : Prop := text.rdropWhile isSpace = text

namespace Trimmed

variable {text rest blanks : List UInt8}

lemma of_suffix (h : Trimmed text) (hrest : rest <:+ text) : Trimmed rest := by
  obtain ⟨before, rfl⟩ := hrest
  unfold Trimmed at h ⊢
  rw [rdropWhile_eq_self_iff] at h ⊢
  intro hne
  rw [← getLast_append_of_ne_nil (append_ne_nil_of_right_ne_nil before hne) hne]
  exact h _

lemma eq_nil (h : Trimmed text) (hall : text.dropWhile isSpace = []) : text = [] := by
  by_contra hne
  rw [dropWhile_eq_nil_iff] at hall
  exact rdropWhile_eq_self_iff.mp h hne (hall _ (getLast_mem hne))

end Trimmed

variable {text : List UInt8}

lemma span_append {p : UInt8 → Bool} {rest : List UInt8}
    (h : text.dropWhile p = [] → rest.dropWhile p = rest) :
    (text ++ rest).takeWhile p = text.takeWhile p ∧
      (text ++ rest).dropWhile p = text.dropWhile p ++ rest := by
  induction text with
  | nil =>
    have hdrop := h rfl
    have hsplit := takeWhile_append_dropWhile (p := p) (l := rest)
    rw [hdrop] at hsplit
    exact ⟨append_left_eq_self.mp hsplit, hdrop⟩
  | cons c text ih =>
    cases hc : p c with
    | true =>
      have hih := ih (by simpa [hc] using h)
      simp [hc, hih]
    | false => simp [hc]

section
variable {blanks comment : List UInt8} (hne : blanks ≠ []) (hblanks : ∀ c ∈ blanks, isSpace c = true)
include hblanks

lemma dropWhile_blanks : (blanks ++ hash :: comment).dropWhile isSpace = hash :: comment := by
  rw [dropWhile_append_of_pos hblanks, dropWhile_cons_of_neg (by decide)]

lemma unquoted_comment {value : List UInt8} (hvalue : value ≠ []) (htrim : Trimmed value)
    (hhash : hash ∉ value) (before : List UInt8) :
    unquoted before (value ++ (blanks ++ hash :: comment)) = value := by
  have hpass : ∀ c ∈ value ++ blanks, (c != hash) = true := by
    intro c hc
    rw [bne_iff_ne]
    rintro rfl
    rcases mem_append.mp hc with hc | hc
    · exact hhash hc
    · exact absurd (hblanks _ hc) (by decide)
  have htext : (value ++ (blanks ++ hash :: comment)).takeWhile (· != hash) = value ++ blanks := by
    rw [← append_assoc, takeWhile_append_of_pos hpass,
      takeWhile_cons_of_neg (by simp), append_nil]
  rw [unquoted, if_pos (by simp), htext]
  rw [if_neg (by simp [hvalue]), rdropWhile, reverse_append,
    dropWhile_append_of_pos fun c hc => hblanks c (mem_reverse.mp hc)]
  exact htrim

end

lemma dropWhile_ne_equals {rest : List UInt8} (h : text.dropWhile isSpace = equals :: rest) :
    text.dropWhile (· != equals) = equals :: rest := by
  have hsplit := takeWhile_append_dropWhile (p := isSpace) (l := text)
  have hpass : ∀ c ∈ text.takeWhile isSpace, (c != equals) = true := by
    intro c hc
    rw [bne_iff_ne]
    rintro rfl
    exact absurd (mem_takeWhile_imp hc) (by decide)
  rw [← hsplit, h, dropWhile_append_of_pos hpass, dropWhile_cons_of_neg (by simp)]

lemma collectValue_cases {value : List UInt8} (htrim : Trimmed text) (hhash : hash ∉ text)
    (h : collectValue text = some value) :
    text = [] ∧ value = [] ∨ ∃ rest, text.dropWhile isSpace = equals :: rest := by
  cases hdrop : text.dropWhile isSpace with
  | nil =>
    obtain rfl := htrim.eq_nil hdrop
    cases h
    exact .inl ⟨rfl, rfl⟩
  | cons c rest =>
    by_cases hc : c = equals
    · exact .inr ⟨rest, by rw [hc]⟩
    · -- what stands there instead would have to be a comment
      rw [collectValue, hdrop] at h
      dsimp only at h
      rw [if_neg hc] at h
      split at h
      · next heoln =>
        have hspace : isSpace c = false := by
          have hhead := head?_dropWhile_not isSpace text
          rw [hdrop] at hhead
          simpa using hhead
        rw [verifyEoln, dropWhile_cons_of_neg (by simp [hspace])] at heoln
        have hmem : c ∈ text := (dropWhile_sublist isSpace).mem (hdrop ▸ mem_cons_self)
        rw [eq_of_beq heoln] at hmem
        exact absurd hmem hhash
      · cases h

section
variable {blanks comment : List UInt8} (hne : blanks ≠ []) (hblanks : ∀ c ∈ blanks, isSpace c = true)
include hne hblanks

lemma collectValue_comment {text value : List UInt8} (htrim : Trimmed text)
    (hhash : hash ∉ text) (hquote : quote ∉ text) (hapost : apost ∉ text)
    (h : collectValue text = some value) :
    collectValue (text ++ (blanks ++ hash :: comment)) =
      some (if text.dropWhile (· != equals) = [equals] then hash :: comment else value) := by
  rcases collectValue_cases htrim hhash h with ⟨rfl, rfl⟩ | ⟨rest, hdrop⟩
  · rw [nil_append, collectValue, dropWhile_blanks hblanks]
    rfl
  · have hsuffix : equals :: rest <:+ text := hdrop ▸ dropWhile_suffix isSpace
    have hrest : rest <:+ text := (suffix_cons equals rest).trans hsuffix
    rw [collectValue, hdrop] at h
    rw [collectValue, (span_append (by simp [hdrop])).2, hdrop, dropWhile_ne_equals hdrop]
    dsimp only [cons_append] at h ⊢
    rw [if_pos rfl] at h ⊢
    cases hbehind : rest.dropWhile isSpace with
    | nil =>
      obtain rfl := (htrim.of_suffix hrest).eq_nil hbehind
      rw [nil_append, dropWhile_blanks hblanks, takeWhile_append_of_pos hblanks,
        takeWhile_cons_of_neg (by decide), append_nil]
      dsimp only
      rw [if_neg (by decide), unquoted]
      simp [hne]
    | cons c rest' =>
      have hvalue : c :: rest' <:+ text := (hbehind ▸ dropWhile_suffix isSpace).trans hrest
      have hmem := hvalue.mem (mem_cons_self )
      have hmark : ¬(c = quote ∨ c = apost) := by
        rintro (rfl | rfl)
        · exact hquote hmem
        · exact hapost hmem
      rw [hbehind] at h
      rw [(span_append (by simp [hbehind])).2, hbehind]
      dsimp only [cons_append] at h ⊢
      rw [if_neg hmark] at h ⊢
      have hkept : unquoted (rest.takeWhile isSpace) (c :: rest') = c :: rest' := by
        rw [unquoted, if_neg fun hc => hhash (hvalue.mem hc)]
      rw [hkept] at h
      cases h
      have hcut : ∀ before,
          unquoted before (c :: rest' ++ (blanks ++ hash :: comment)) = c :: rest' :=
        unquoted_comment hblanks (cons_ne_nil c rest') (htrim.of_suffix hvalue)
          fun hc => hhash (hvalue.mem hc)
      rw [← cons_append, hcut, if_neg]
      rintro heq
      cases cons.inj heq |>.2
      cases hbehind

end

variable {line : List UInt8}

lemma collectLevel_append (h : line.dropWhile (· == space) ≠ []) (more : List UInt8) :
    collectLevel (line ++ more) = (collectLevel line).map (Prod.map id (· ++ more)) := by
  obtain ⟨htake, hdrop⟩ : (line ++ more).takeWhile (· == space) = line.takeWhile (· == space) ∧
      (line ++ more).dropWhile (· == space) = line.dropWhile (· == space) ++ more :=
    span_append fun hnil => absurd hnil h
  simp only [collectLevel, htake, hdrop]
  split
  · rfl
  · split <;> rfl

lemma collectName_append {more : List UInt8} (h : more.dropWhile isNamechar = more)
    (line : List UInt8) :
    collectName (line ++ more) = (collectName line).map (Prod.map id (· ++ more)) := by
  obtain ⟨htake, hdrop⟩ : (line ++ more).takeWhile isNamechar = line.takeWhile isNamechar ∧
      (line ++ more).dropWhile isNamechar = line.dropWhile isNamechar ++ more :=
    span_append fun _ => h
  simp only [collectName, htake, hdrop]
  split <;> rfl

variable {level : Nat}

lemma collectItem_eq_some {a : Property} (h : collectItem line = some (some (level, a))) :
    ∃ name text value, name ≠ [] ∧ (∀ c ∈ name, isNamechar c = true) ∧
      line.dropWhile (· == space) = name ++ text ∧
      collectLevel line = some (level, name ++ text) ∧
      collectName (name ++ text) = some (name, text) ∧ collectValue text = some value ∧
      a = ⟨some name, some value, none⟩ := by
  obtain ⟨⟨level', line1⟩, hlevel, h⟩ := bind_eq_some_iff.mp h
  obtain ⟨⟨name, text⟩, hname, h⟩ := bind_eq_some_iff.mp h
  dsimp only at hname h
  have hline1 : line.dropWhile (· == space) = line1 := by
    simp only [collectLevel] at hlevel
    split at hlevel
    · cases hlevel
    · split at hlevel <;> cases hlevel
      rfl
  obtain ⟨rfl, rfl⟩ : name = line1.takeWhile isNamechar ∧ text = line1.dropWhile isNamechar := by
    simp only [collectName] at hname
    split at hname <;> cases hname
    exact ⟨rfl, rfl⟩
  split at h
  · next hne =>
    obtain ⟨value, hvalue, h⟩ := bind_eq_some_iff.mp h
    cases h
    refine ⟨_, _, value, hne, fun c hc => mem_takeWhile_imp hc, ?_, ?_, ?_, hvalue, rfl⟩ <;>
      rw [takeWhile_append_dropWhile]
    · exact hline1
    · exact hlevel
    · exact hname
  · split at h <;> cases h

lemma dropWhile_behind_name {name : List UInt8} (hname : ∀ c ∈ name, isNamechar c = true)
    (h : line.dropWhile (· == space) = name ++ text) :
    line.dropWhile (· != equals) = text.dropWhile (· != equals) := by
  have hsplit := takeWhile_append_dropWhile (p := (· == space)) (l := line)
  have hspaces : ∀ c ∈ line.takeWhile (· == space), (c != equals) = true := by
    intro c hc
    have hspace := mem_takeWhile_imp hc
    rw [eq_of_beq hspace]
    rfl
  have hpass : ∀ c ∈ name, (c != equals) = true := by
    intro c hc
    rw [bne_iff_ne]
    rintro rfl
    exact absurd (hname _ hc) (by decide)
  rw [← hsplit, h, dropWhile_append_of_pos hspaces, dropWhile_append_of_pos hpass]

lemma collectItem_comment {blanks comment : List UInt8} {a : Property}
    (hne : blanks ≠ []) (hblanks : ∀ c ∈ blanks, isSpace c = true) (htrim : Trimmed line)
    (hhash : hash ∉ line) (hquote : quote ∉ line) (hapost : apost ∉ line)
    (h : collectItem line = some (some (level, a))) :
    collectItem (line ++ (blanks ++ hash :: comment)) = some (some (level,
      { a with value := if line.dropWhile (· != equals) = [equals] then some (hash :: comment)
                        else a.value })) := by
  obtain ⟨name, text, value, hname, hchars, hdrop, hlevel, hcollect, hvalue, rfl⟩ :=
    collectItem_eq_some h
  have hsuffix : text <:+ line :=
    (suffix_append name text).trans (hdrop ▸ dropWhile_suffix (· == space))
  have hend : (blanks ++ hash :: comment).dropWhile isNamechar = blanks ++ hash :: comment := by
    obtain ⟨c, rest, rfl⟩ := exists_cons_of_ne_nil hne
    refine dropWhile_cons_of_neg fun hc => ?_
    have hspace := hblanks c mem_cons_self
    rw [isSpace_of_isNamechar hc] at hspace
    cases hspace
  have hvalue' : collectValue (text ++ (blanks ++ hash :: comment)) =
      some (if line.dropWhile (· != equals) = [equals] then hash :: comment else value) := by
    rw [dropWhile_behind_name hchars hdrop]
    exact collectValue_comment hne hblanks (htrim.of_suffix hsuffix)
      (fun hc => hhash (hsuffix.mem hc)) (fun hc => hquote (hsuffix.mem hc))
      (fun hc => hapost (hsuffix.mem hc)) hvalue
  rw [collectItem, collectLevel_append (by simp [hdrop, hname]), hlevel, map_some]
  dsimp only [bind_eq_bind, bind_some, Prod.map]
  rw [collectName_append hend, hcollect, map_some]
  dsimp only [bind_some, Prod.map, id]
  rw [if_pos hname, hvalue']
  split <;> rfl

/-! ## Lines -/

lemma rdropWhile_append_cons {p : UInt8 → Bool} {c : UInt8} (hc : p c = false)
    (before behind : List UInt8) :
    (before ++ c :: behind).rdropWhile p = before ++ c :: behind.rdropWhile p := by
  have hdrop : (behind.reverse ++ c :: before.reverse).dropWhile p =
      behind.reverse.dropWhile p ++ c :: before.reverse :=
    (span_append fun _ => dropWhile_cons_of_neg (by simp [hc])).2
  rw [rdropWhile, reverse_append, reverse_cons, append_assoc,
    singleton_append, hdrop]
  simp [rdropWhile]

lemma trimLine_comment (hzero : 0 ∉ line) {blank : UInt8}
    (hblank : isSpace blank = true) (text : List UInt8) :
    ∃ blanks comment, blanks ≠ [] ∧ (∀ c ∈ blanks, isSpace c = true) ∧
      trimLine (line ++ blank :: hash :: text) = trimLine line ++ (blanks ++ hash :: comment) := by
  obtain ⟨blanks, hline, hblanks⟩ :
      ∃ bs, line = line.rdropWhile isSpace ++ bs ∧ ∀ c ∈ bs, isSpace c = true :=
    ⟨line.rtakeWhile isSpace, (rdropWhile_append_rtakeWhile ..).symm, fun c hc =>
      mem_takeWhile_imp (mem_reverse.mp hc)⟩
  have hpass : ∀ c ∈ line ++ [blank, hash], (c != 0) = true := by
    intro c hc
    rw [bne_iff_ne]
    rintro rfl
    rcases mem_append.mp hc with hc | hc
    · exact hzero hc
    · rcases mem_pair.mp hc with rfl | hc
      · exact absurd hblank (by decide)
      · exact absurd hc (by decide)
  have hcstr : Bytes.cstr (line ++ blank :: hash :: text) =
      (line.rdropWhile isSpace ++ (blanks ++ [blank])) ++ hash :: Bytes.cstr text := by
    have hassoc : line ++ blank :: hash :: text = (line ++ [blank, hash]) ++ text := by simp
    rw [hassoc, Bytes.cstr, takeWhile_append_of_pos hpass]
    nth_rewrite 1 [hline]
    simp [Bytes.cstr]
  have hself : Bytes.cstr line = line :=
    takeWhile_eq_self_iff.mpr fun c hc => hpass c (mem_append_left _ hc)
  refine ⟨blanks ++ [blank], (Bytes.cstr text).rdropWhile isSpace, by simp, ?_, ?_⟩
  · intro c hc
    rcases mem_append.mp hc with hc | hc
    · exact hblanks c hc
    · rwa [mem_singleton.mp hc]
  · rw [trimLine, trimLine, hcstr, hself, rdropWhile_append_cons (by decide), append_assoc]

/-- What stands behind the line changes neither its item, with the level, nor what that is added to.
-/
def Inert (line comment : List UInt8) : Prop :=
  lineItem (line ++ comment) = lineItem line ∧
    ∀ s, loadLine s (line ++ comment) = loadLine s line

lemma mem_of_collectItem_eq_some {value : List UInt8} {a : Property}
    (h : collectItem line = some (some (level, a))) (hvalue : a.value = some value) {c : UInt8}
    (hc : c ∈ value) : c ∈ line := by
  obtain ⟨name, text, value', -, -, hdrop, -, -, hcollect, rfl⟩ := collectItem_eq_some h
  cases hvalue
  have htext : c ∈ name ++ text :=
    mem_append_right name ((collectValue_sublist hcollect).mem hc)
  exact (dropWhile_suffix (· == space)).mem (hdrop ▸ htext)

/-- A comment behind an item without quotes is inert unless it is the first thing behind the equals
sign. -/
theorem inert_comment_iff {line : List UInt8} {level : Nat} {a : Property}
    (hitem : lineItem line = some (some (level, a))) (hhash : hash ∉ line) (hquote : quote ∉ line)
    (hapost : apost ∉ line) {blank : UInt8} (hblank : isSpace blank = true) (text : List UInt8) :
    Inert line (blank :: hash :: text) ↔
      0 ∈ line ∨ (trimLine line).dropWhile (· != equals) ≠ [equals] := by
  by_cases hzero : 0 ∈ line
  · have hstop : line.dropWhile (· != 0) ≠ [] := fun hnil =>
      absurd (dropWhile_eq_nil_iff.mp hnil 0 hzero) (by decide)
    have htrim : trimLine (line ++ blank :: hash :: text) = trimLine line := by
      rw [trimLine, Bytes.cstr, (span_append fun hnil => absurd hnil hstop).1]
      rfl
    refine iff_of_true ⟨?_, fun s => ?_⟩ (.inl hzero)
    · rw [lineItem, htrim, lineItem]
    · rw [loadLine, htrim, loadLine]
  · have hsub := (trimLine_begins line).sublist
    have hnot : hash ∉ trimLine line := fun hc => hhash (hsub.mem hc)
    obtain ⟨blanks, comment, hne, hblanks, htrim⟩ := trimLine_comment hzero hblank text
    have hcomment : lineItem (line ++ blank :: hash :: text) = some (some (level,
        { a with value := if (trimLine line).dropWhile (· != equals) = [equals] then
                            some (hash :: comment) else a.value })) := by
      rw [lineItem, htrim]
      exact collectItem_comment hne hblanks (rdropWhile_idempotent isSpace _) hnot
        (fun hc => hquote (hsub.mem hc)) (fun hc => hapost (hsub.mem hc)) hitem
    by_cases hempty : (trimLine line).dropWhile (· != equals) = [equals]
    · refine iff_of_false ?_ (by simp [hzero, hempty])
      rintro ⟨hsame, -⟩
      -- the comment has become the value, and the line itself has no such character
      rw [hsame, hitem, if_pos hempty] at hcomment
      have hvalue : a.value = some (hash :: comment) :=
        congrArg Property.value (Prod.mk.inj (some.inj (some.inj hcomment))).2
      exact hnot (mem_of_collectItem_eq_some hitem hvalue mem_cons_self)
    · rw [if_neg hempty] at hcomment
      have hsame : lineItem (line ++ blank :: hash :: text) = lineItem line :=
        hcomment.trans hitem.symm
      have hhead : ∀ more, (trimLine line ++ more).head? ≠ some hash := by
        intro more
        cases hline : trimLine line with
        | nil =>
          rw [lineItem, hline] at hitem
          cases hitem
        | cons c rest =>
          rintro ⟨⟩
          exact hnot (hline ▸ mem_cons_self)
      refine iff_of_true ⟨hsame, fun s => ?_⟩ (.inr hempty)
      rw [loadLine, loadLine, if_neg (htrim ▸ hhead _), if_neg (by simpa using hhead [])]
      unfold lineItem at hsame
      rw [hsame]

/-- `a = b` and a comment. -/
theorem inert_comment_value : Inert [97, 32, 61, 32, 98] (32 :: hash :: [32, 99]) :=
  (inert_comment_iff
    (show lineItem [97, 32, 61, 32, 98] = some (some (0, ⟨some [97], some [98], none⟩)) from rfl)
    (by decide) (by decide) (by decide) rfl [32, 99]).mpr (.inr (by decide))

/-- With `a =` the comment is the value: `a = # c` gives `# c`. -/
theorem comment_as_value :
    lineItem [97, 32, 61] = some (some (0, ⟨some [97], some [], none⟩)) ∧
      lineItem ([97, 32, 61] ++ 32 :: hash :: [32, 99]) =
        some (some (0, ⟨some [97], some [hash, 32, 99], none⟩)) ∧
      ¬Inert [97, 32, 61] (32 :: hash :: [32, 99]) := by
  have hempty : lineItem [97, 32, 61] = some (some (0, ⟨some [97], some [], none⟩)) := rfl
  have hvalue : lineItem ([97, 32, 61] ++ 32 :: hash :: [32, 99]) =
      some (some (0, ⟨some [97], some [hash, 32, 99], none⟩)) := rfl
  refine ⟨hempty, hvalue, ?_⟩
  rintro ⟨hsame, -⟩
  cases hsame

end Zconfig

end Czmq
