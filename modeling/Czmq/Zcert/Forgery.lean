import Czmq.Zcert.Certificate

/-! Whose key a saved public certificate is loaded with. Metadata are written as they are, before
the keys, and `zconfig_locate` takes the first section of a name. -/

namespace Czmq

open List Option

namespace Zconfig

lemma lines_append (xs ys : List UInt8) :
    lines (xs ++ newline :: ys) = lines (xs ++ [newline]) ++ lines ys := by
  induction xs with
  | nil => rw [nil_append]; rfl
  | cons c xs ih =>
    rw [cons_append, cons_append, lines, lines, ih]
    split
    · rfl
    · cases hlines : lines (xs ++ [newline]) with
      | nil =>
        -- a text that is not empty has a line
        cases xs with
        | nil => cases hlines
        | cons d xs =>
          rw [cons_append, lines] at hlines
          split at hlines
          · cases hlines
          · split at hlines <;> cases hlines
      | cons line rest => rfl

lemma reads_append_iff {ls ls' : List (List UInt8)} {items : List (Option (Nat × Property))} :
    Reads (ls ++ ls') items ↔ ∃ is js, items = is ++ js ∧ Reads ls is ∧ Reads ls' js := by
  constructor
  · intro h
    induction ls generalizing items with
    | nil => exact ⟨[], items, rfl, .nil, h⟩
    | cons line ls ih =>
      obtain ⟨item, rest, hitem, hrest, rfl⟩ := forall₂_cons_left_iff.mp h
      obtain ⟨is, js, rfl, his, hjs⟩ := ih hrest
      exact ⟨item :: is, js, rfl, .cons hitem his, hjs⟩
  · rintro ⟨is, js, rfl, his, hjs⟩
    exact rel_append his hjs

def Short (a : Property) : Prop := (a.value.getD []).length < intMax

lemma all_short_of_chunkLoad {data : List UInt8} {a : Property} {child : Zconfig}
    (h : chunkLoad data = some (.node a child .nil)) (hlen : data.length ≤ intMax) :
    child.All Short := by
  obtain ⟨items, hreads, hitems⟩ := exists_chunkLoad_iff.mp ⟨a, h⟩
  rw [← Forest.forall_mem_outline , hitems]
  intro x hx
  obtain ⟨line, hmem, hline⟩ := hreads.exists_line hx
  obtain ⟨hweight, hloaded⟩ := lineItem_spec hline
  obtain ⟨name, hname, hvalid⟩ := (hloaded (newline_not_mem_lines hmem)).name
  have hpos := length_pos_iff.mpr hvalid.ne_nil
  have hsum := sum_lines_le data
  have hle : line.length + 1 ≤ ((lines data).map (·.length + 1)).sum :=
    le_sum_of_mem (mem_map_of_mem hmem)
  rw [weight, hname, getD_some] at hweight
  rw [Short]
  omega

lemma childNamed_eq {child : Zconfig} (name : List UInt8) (h : Named child) :
    ∃ r, childNamed name child = .ok r ∧ ∀ x ∈ r, ∀ {p : Property → Prop}, child.All p → x.2.All p := by
  induction child with
  | nil => exact ⟨none, rfl, fun x hx => nomatch hx⟩
  | node a child next _ ih =>
    obtain ⟨r, hr, hall⟩ := ih h.2.2
    rw [childNamed, if_neg (not_isNone_of_isSome h.1)]
    split
    · refine ⟨some (a, child), rfl, fun x hx p hp => ?_⟩
      cases hx
      exact hp.2.1
    · exact ⟨r, hr, fun x hx p hp => hall x hx hp.2.2⟩

end Zconfig

namespace Zcert

open Zconfig

def keyText (child : Zconfig) : Option (List UInt8) :=
  (findNames [curveName, publicKeyName] child).bind (·.value)

lemma exists_loadMetadata (self : Zcert) {items : Zconfig} (h : items.All Loaded)
    (hshort : items.All Short) :
    ∃ cert, self.loadMetadata items = .ok cert ∧ cert.publicKey = self.publicKey := by
  induction items generalizing self with
  | nil => exact ⟨self, rfl, rfl⟩
  | node a child next _ ih =>
    obtain ⟨name, hname, -⟩ := h.1.name
    obtain ⟨value, hvalue, -⟩ := h.1.value
    have hlt : value.length < intMax := by
      have := hshort.1
      rwa [Short, hvalue] at this
    rw [loadMetadata, hname, hvalue]
    dsimp only
    rw [setMeta, zsysVprintf_of_lt hlt]
    obtain ⟨cert, hcert, hkey⟩ := ih _ h.2.2 hshort.2.2
    refine ⟨cert, hcert, hkey.trans ?_⟩
    split <;> rfl

section
variable (z : Z85)

def keyOf (text : List UInt8) : Option Key := if text.length = 40 then some (z.decode text) else none

lemma ofConfig_eq {a : Property} {child : Zconfig} (h : child.All Loaded) (hshort : child.All Short) :
    ∃ r, ofConfig z (.node a child .nil) = .ok r ∧
      r.map publicKey = (keyText child).bind (keyOf z) := by
  have hnamed : Named child := h.imp fun b hb => by
    obtain ⟨name, hname, -⟩ := hb.name
    rw [hname]
    rfl
  have hget : get (.node a child .nil) publicKeyPath none = .ok (keyText child) := by
    have hpath : names publicKeyPath = [curveName, publicKeyName] := by decide
    rw [get_eq hnamed, keyText, hpath]
    cases findNames [curveName, publicKeyName] child with
    | none => rfl
    | some b => rfl
  rw [ofConfig, hget, ok_bind]
  cases keyText child with
  | none => exact ⟨none, rfl, rfl⟩
  | some text =>
    dsimp only
    rw [bind_some, keyOf]
    split
    · obtain ⟨r, hr, hall⟩ := childNamed_eq metadataName hnamed
      rw [get_eq hnamed, ok_bind, hr, ok_bind]
      cases r with
      | none => exact ⟨_, rfl, rfl⟩
      | some x =>
        obtain ⟨cert, hcert, hkey⟩ := exists_loadMetadata
          ⟨z.decode text, secretKeyOf z _, []⟩ (hall x rfl h) (hall x rfl hshort)
        refine ⟨some cert, ?_, congrArg some hkey⟩
        dsimp only
        rw [hcert]
        rfl
    · exact ⟨none, rfl, rfl⟩

lemma exists_ofText_iff {data : List UInt8} (hlen : data.length ≤ intMax) (key : Key) :
    (∃ cert, ofText z data = .ok (some cert) ∧ cert.publicKey = key) ↔
      ∃ child, (∃ a, chunkLoad data = some (.node a child .nil)) ∧
        (keyText child).bind (keyOf z) = some key := by
  rw [ofText]
  cases hload : chunkLoad data with
  | none => simp
  | some root =>
    obtain ⟨a, child, rfl, -, hall⟩ := chunkLoad_spec hload
    obtain ⟨r, hr, hkey⟩ := ofConfig_eq z (a := a) hall (all_short_of_chunkLoad hload hlen)
    simp only [hr]
    constructor
    · rintro ⟨cert, hcert, rfl⟩
      cases hcert
      exact ⟨child, ⟨a, rfl⟩, hkey.symm⟩
    · rintro ⟨child', ⟨a', hroot⟩, hbind⟩
      cases hroot
      rw [hbind, map_eq_some_iff] at hkey
      obtain ⟨cert, rfl, hcert⟩ := hkey
      exact ⟨cert, rfl, hcert⟩

end

/-! ## The text of a public certificate -/

def itemsOf : List (List UInt8 × List UInt8) → Zconfig
  | [] => .nil
  | (name, value) :: rest => .node (setValue (cut value) (new (some name))) .nil (itemsOf rest)

lemma metadataItems_eq_ok {xs : List (List UInt8 × List UInt8)} {f : Zconfig}
    (h : metadataItems xs = .ok f) : f = itemsOf xs := by
  induction xs generalizing f with
  | nil =>
    cases h
    rfl
  | cons x xs ih =>
    obtain ⟨value, hvalue, h⟩ := bind_eq_ok.mp h
    obtain ⟨next, hnext, h⟩ := bind_eq_ok.mp h
    cases h
    rw [itemsOf, ih hnext, (zsysVprintf_eq_ok_iff.mp hvalue).2]

lemma named_itemsOf (xs : List (List UInt8 × List UInt8)) : Named (itemsOf xs) := by
  induction xs with
  | nil => trivial
  | cons x xs ih => exact ⟨rfl, trivial, ih⟩

def sections (xs : List (List UInt8 × List UInt8)) : Zconfig :=
  .node (new (some metadataName)) (itemsOf xs) (.node (new (some curveName)) .nil .nil)

def keyItem (text : List UInt8) : Property := setValue text (new (some publicKeyName))

def metadataText (xs : List (List UInt8 × List UInt8)) : List UInt8 :=
  printed (((sections xs).outline 0).flatMap itemTexts)

lemma setComment_eq_ok {a : Property} {child next t : Zconfig} {text : List UInt8}
    (h : setComment (.node a child next) text = .ok t) (ha : OneLineComments a)
    (htext : newline ∉ text) : ∃ b, t = .node b child next ∧ OneLineComments b := by
  obtain ⟨comment, hcomment, h⟩ := bind_eq_ok.mp h
  cases h
  refine ⟨_, rfl, fun c hc => ?_⟩
  rcases mem_append.mp hc with hc | hc
  · exact ha c hc
  · obtain rfl := mem_singleton.mp hc
    rw [(zsysVprintf_eq_ok_iff.mp hcomment).2, cut]
    split
    · exact htext
    · exact fun h => htext (mem_of_mem_take h)

lemma setComments_eq_ok {a : Property} {child next t : Zconfig} {texts : List (List UInt8)}
    (h : texts.foldlM setComment (.node a child next) = .ok t) (ha : OneLineComments a)
    (htexts : ∀ text ∈ texts, newline ∉ text) : ∃ b, t = .node b child next ∧ OneLineComments b := by
  induction texts generalizing a with
  | nil =>
    cases h
    exact ⟨a, rfl, ha⟩
  | cons text texts ih =>
    rw [forall_mem_cons] at htexts
    obtain ⟨t', ht', h⟩ := bind_eq_ok.mp h
    obtain ⟨b, rfl, hb⟩ := setComment_eq_ok ht' ha htexts.1
    exact ih h hb htexts.2

section
variable {z : Z85} {order : List (List UInt8 × List UInt8) → List (List UInt8 × List UInt8)}
  {timestr file : List UInt8} {self : Zcert}

lemma put_publicKey (a : Property) (xs : List (List UInt8 × List UInt8)) {text : List UInt8}
    (htext : text.length < intMax) :
    put (.node a (.node (new (some metadataName)) (itemsOf xs) .nil) .nil) publicKeyPath text =
      .ok (.node a (.node (new (some metadataName)) (itemsOf xs)
        (.node (new (some curveName)) (.node (keyItem text) .nil .nil) .nil)) .nil) := by
  have hnamed : Named (.node (new (some metadataName)) (itemsOf xs) .nil) :=
    ⟨rfl, named_itemsOf xs, trivial⟩
  rw [put_eq hnamed, zsysVprintf_of_lt htext]
  rfl

lemma savePublic_eq_ok (htime : newline ∉ timestr) (h : savePublic z order timestr self = .ok file) :
    ∃ a, OneLineComments a ∧ file.length ≤ intMax ∧ file = printed (commentTexts a) ++
      (metadataText (order self.metadata) ++ itemLine (1, keyItem (self.publicTxt z))) := by
  have hlen : (self.publicTxt z).length = 40 := z.length_encode _
  obtain ⟨config, hconfig, h⟩ := bind_eq_ok.mp h
  obtain ⟨config', hconfig', h⟩ := bind_eq_ok.mp h
  obtain ⟨config'', hput, hsave⟩ := bind_eq_ok.mp h
  obtain ⟨items, hitems, hcomment⟩ := bind_eq_ok.mp hconfig
  obtain rfl := metadataItems_eq_ok hitems
  have hgenerated : newline ∉ generatedOn timestr := by
    rw [generatedOn, mem_append, mem_append]
    rintro ((h | h) | h)
    · exact absurd h (by decide)
    · exact htime h
    · exact absurd h (by decide)
  have hroot : OneLineComments (new (some [114, 111, 111, 116])) := fun c hc => nomatch hc
  obtain ⟨a, rfl, ha⟩ := setComment_eq_ok hcomment hroot hgenerated
  obtain ⟨b, rfl, hb⟩ := setComments_eq_ok hconfig' ha (by decide)
  rw [put_publicKey b _ (by rw [hlen]; decide)] at hput
  cases hput
  obtain ⟨hfile, hle⟩ := save_eq_ok hsave
  refine ⟨b, hb, hle, ?_⟩
  have hkey : cut (itemLine (1, keyItem (self.publicTxt z))) = itemLine (1, keyItem (self.publicTxt z)) := by
    have hlength := length_itemLine_le (1, keyItem (self.publicTxt z)) rfl
    have hweight : weight (1, keyItem (self.publicTxt z)) = 1 * 4 + 10 + (self.publicTxt z).length := rfl
    rw [cut, if_pos]
    rw [intMax]
    omega
  rw [hfile, texts, printed_append, ← hkey]
  have houtline : (Forest.node (new (some metadataName)) (itemsOf (order self.metadata))
      (.node (new (some curveName)) (.node (keyItem (self.publicTxt z)) .nil .nil) .nil)).outline 0 =
      (sections (order self.metadata)).outline 0 ++ [(1, keyItem (self.publicTxt z))] := by
    simp [sections, Forest.outline]
  rw [houtline, flatMap_append, printed_append, flatMap_singleton]
  congr 2
  exact append_nil _

/-! ## Reading it back -/

lemma writable_keyItem (key : Key) : Writable (keyItem (z.encode key)) where
  name := ⟨publicKeyName, rfl, by decide, by decide +kernel, by decide, by decide⟩
  value := by
    rintro value ⟨⟩
    exact ⟨fun h => (z.plain key _ h).2.1 rfl, fun h => (z.plain key _ h).2.2 rfl⟩
  comments := rfl

lemma lineItem_keyItem (key : Key) :
    lineItem (itemBody (keyItem (z.encode key)) (1 * 4)) =
      some (some (1, asLoaded (keyItem (z.encode key)))) := by
  rw [(writable_keyItem key).lineItem_itemBody_iff (by decide)]
  rintro value ⟨⟩
  exact fun h => (z.plain key _ h).1 rfl

lemma exists_metadataText_eq (xs : List (List UInt8 × List UInt8)) :
    ∃ text, metadataText xs = text ++ [newline] := by
  refine ⟨printed (((Forest.node (new (some metadataName)) (itemsOf xs) .nil).outline 0).flatMap
    itemTexts) ++ curveName, ?_⟩
  have houtline : (sections xs).outline 0 =
      (Forest.node (new (some metadataName)) (itemsOf xs) .nil).outline 0 ++
        [(0, new (some curveName))] := by
    simp [sections, Forest.outline]
  rw [metadataText, houtline, flatMap_append, printed_append, append_assoc]
  congr 1

lemma exists_chunkLoad_file_iff (xs : List (List UInt8 × List UInt8)) (key : Key) {a : Property}
    (ha : OneLineComments a) {g : Zconfig} :
    (∃ b, chunkLoad (printed (commentTexts a) ++
        (metadataText xs ++ itemLine (1, keyItem (z.encode key)))) = some (.node b g .nil)) ↔
      ∃ f, (∃ b, chunkLoad (metadataText xs) = some (.node b f .nil)) ∧
        Forest.grow 1 (asLoaded (keyItem (z.encode key))) f = some g := by
  obtain ⟨ls, hblank, hlines⟩ := exists_lines_commentTexts ha
  obtain ⟨text, htext⟩ := exists_metadataText_eq xs
  have hlast : lines (metadataText xs ++ itemLine (1, keyItem (z.encode key))) =
      lines (metadataText xs) ++ [itemBody (keyItem (z.encode key)) (1 * 4)] := by
    rw [htext, append_assoc, singleton_append, lines_append, itemLine,
      lines_line _ [] ((writable_keyItem key).not_mem_itemBody _).1]
    rfl
  rw [exists_chunkLoad_iff, hlines, exists_reads_blank_append hblank, hlast]
  simp only [exists_chunkLoad_iff, ← Forest.growAll_eq_some_iff]
  constructor
  · rintro ⟨items, hreads, hgrow⟩
    obtain ⟨is, js, rfl, his, hjs⟩ := reads_append_iff.mp hreads
    obtain ⟨j, js', hj, hjs', rfl⟩ := forall₂_cons_left_iff.mp hjs
    obtain rfl := forall₂_nil_left_iff.mp hjs'
    obtain rfl := some.inj ((lineItem_keyItem key).symm.trans hj)
    rw [flatMap_append, Forest.growAll_append] at hgrow
    obtain ⟨f, hf, hg⟩ := bind_eq_some_iff.mp hgrow
    obtain ⟨g', hg', hnil⟩ := bind_eq_some_iff.mp hg
    cases hnil
    exact ⟨f, ⟨is, his, hf⟩, hg'⟩
  · rintro ⟨f, ⟨is, his, hf⟩, hg⟩
    refine ⟨is ++ [some (1, asLoaded (keyItem (z.encode key)))],
      reads_append_iff.mpr ⟨_, _, rfl, his, .cons (lineItem_keyItem key) .nil⟩, ?_⟩
    rw [flatMap_append, Forest.growAll_append, hf]
    change (Forest.grow 1 _ f).bind some = some g
    rw [hg, bind_some]

lemma keyText_grow {f g : Zconfig} {key : Key}
    (h : Forest.grow 1 (asLoaded (keyItem (z.encode key))) f = some g) :
    keyText g = keyText f ∨ keyText f = none ∧ keyText g = some (z.encode key) := by
  have hcases : Forest.find Property.name ([curveName, publicKeyName].map some) g = _ ∨ _ :=
    Forest.find_grow h
  rcases hcases with hfind | ⟨hnone, hfind⟩
  · left
    rw [keyText, keyText, findNames, findNames, hfind]
  · right
    rw [keyText, keyText, findNames, findNames, hfind, hnone]
    exact ⟨rfl, rfl⟩

variable {xs : List (List UInt8 × List UInt8)}

lemma length_metadataText_le {comments line : List UInt8}
    (h : (comments ++ (metadataText xs ++ line)).length ≤ intMax) : (metadataText xs).length ≤ intMax := by
  rw [length_append, length_append] at h
  omega

lemma exists_ofText_file_of_metadata {key forged : Key}
    {a : Property} (ha : OneLineComments a) (hfile : file = printed (commentTexts a) ++
      (metadataText xs ++ itemLine (1, keyItem (z.encode key)))) (hlen : file.length ≤ intMax)
    (h : ∃ cert, ofText z (metadataText xs) = .ok (some cert) ∧ cert.publicKey = forged) :
    ∃ cert, ofText z file = .ok (some cert) ∧ cert.publicKey = forged := by
  subst hfile
  rw [exists_ofText_iff z (length_metadataText_le hlen)] at h
  obtain ⟨f, hf, hkey⟩ := h
  obtain ⟨text, htext, -⟩ := bind_eq_some_iff.mp hkey
  have hnil : f.isNil = false := by
    cases f with
    | nil => cases htext
    | node b child next => rfl
  obtain ⟨g, hg⟩ := Forest.exists_grow_one (asLoaded (keyItem (z.encode key))) hnil
  rw [exists_ofText_iff z hlen]
  refine ⟨g, (exists_chunkLoad_file_iff xs key ha).mpr ⟨f, hf, hg⟩, ?_⟩
  rcases keyText_grow hg with heq | ⟨hnone, -⟩
  · rw [heq, hkey]
  · rw [hnone] at htext
    cases htext

lemma load_eq_ofText {read : List UInt8 → Option (List UInt8)} {filename : List UInt8}
    (hsecret : read (secretName filename) = none) (hread : read filename = some file) :
    load z read filename = ofText z file := by
  rw [load, hsecret, hread]
  rfl

def oneMeta (value : List UInt8) : Zcert := ⟨.zero, .zero, [([97], value)]⟩

def oneFile (file name : List UInt8) : Option (List UInt8) := if name = [99] then some file else none

def forgedValue : List UInt8 :=
  Bytes.ascii "x\"\ncurve\n    public-key = \"" ++ replicate 40 49

end

end Zcert

end Czmq
