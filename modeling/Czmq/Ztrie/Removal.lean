import Czmq.Ztrie.Insertion
import Czmq.Ztrie.Routes

/-! When the removal of a route undoes its insertion. It frees at most the last node, so that the
answers are the same if the nodes that stay, or are missing, take no token from others. -/

namespace Czmq.Ztrie

open Option Machine List Function

variable {zrex : Zrex} {shrink : Nat → Nat} {rounds : Nat} {t t' : Ztrie}

def Apart (zrex : Zrex) (m n : Node) : Prop :=
  ∀ text len, ¬(m.Takes zrex text len ∧ n.Takes zrex text len)

lemma Apart.symm {m n : Node} (h : Apart zrex m n) : Apart zrex n m :=
  fun text len hboth => h text len hboth.symm

def ApartAt (zrex : Zrex) (t : Ztrie) (a b : Nat) : Prop :=
  ∀ m n, t.nodes a = some m → t.nodes b = some n → Apart zrex m n

lemma ApartAt.symm {a b : Nat} (h : ApartAt zrex t a b) : ApartAt zrex t b a :=
  fun m n hm hn => (h n m hn hm).symm

/-- Where a route leaves the trie, no two children take the same token. A leaf that is there is
freed by the removal, and must take no token from the children behind it. Of two or more new nodes
only the last goes: the first takes no token from the children, and the captures of all fit. -/
def BranchApart (zrex : Zrex) (path : List UInt8) (t : Ztrie) : Nat × List Piece → Prop
  | (w, []) => ∀ n q above before after, t.nodes w = some n → n.children = [] → n.parent = some q →
      t.nodes q = some above → above.children = before ++ w :: after →
      ∀ b ∈ after, ApartAt zrex t w b
  | (w, [_]) => ∀ above, t.nodes w = some above → above.children.Pairwise (ApartAt zrex t)
  | (w, p :: p' :: rest) => ∀ above, t.nodes w = some above →
      above.children.Pairwise (ApartAt zrex t) ∧
      (∀ c ∈ above.children, ∀ m, t.nodes c = some m → Apart zrex m (pieceNode path p)) ∧
      ∀ q ∈ (p :: p' :: rest).dropLast, ∀ token, (pieceNode path q).CapturesFit zrex token

/-- The route has a token, or the root has children; no token is longer than an `int` counts or an
asterisk; and where the route leaves the trie the children are apart. -/
structure Undoable (zrex : Zrex) (t : Ztrie) (path : List UInt8) : Prop where
  short : path.length ≤ intMax
  star : ∀ p ∈ routePieces t.delimiter path, p.1.needle = stopOf t.delimiter path →
    path[p.1.matchToken]? ≠ some star
  below : routePieces t.delimiter path ≠ [] ∨ ∃ n, t.nodes root = some n ∧ n.children ≠ []
  apart : BranchApart zrex path t (branch path t root (routePieces t.delimiter path))

section
variable {path : List UInt8}

lemma exists_walk {mode : Mode} (hmode : mode ≠ .matching) (hpath : path ≠ []) {r : Option Nat}
    (h : parsePath zrex shrink rounds mode t path = .ok (r, t')) :
    ∃ t1, walk zrex shrink rounds mode path (stopOf t.delimiter path) t root
      (routePieces t.delimiter path) = .ok (r, t1) ∧ t1.nodes = t'.nodes ∧ t1.fresh = t'.fresh := by
  have hwalk : (parsePath zrex shrink rounds mode t path).map forget = _ :=
    parsePath_walk hmode hpath t
  rw [h] at hwalk
  obtain ⟨⟨r', t1⟩, ht1, heq⟩ := exists_of_map_eq_ok hwalk.symm
  obtain ⟨rfl, hforget⟩ := Prod.mk.inj heq
  have hnodes : ({ t1 with params := [] } : Ztrie).nodes = ({ t' with params := [] } : Ztrie).nodes :=
    congrArg Ztrie.nodes hforget
  have hfresh : ({ t1 with params := [] } : Ztrie).fresh = ({ t' with params := [] } : Ztrie).fresh :=
    congrArg Ztrie.fresh hforget
  exact ⟨t1, ht1, hnodes, hfresh⟩

lemma exists_parsePath {mode : Mode} (hmode : mode ≠ .matching) (hpath : path ≠ []) {r : Option Nat}
    (h : walk zrex shrink rounds mode path (stopOf t.delimiter path) t root
      (routePieces t.delimiter path) = .ok (r, t')) :
    ∃ t1, parsePath zrex shrink rounds mode t path = .ok (r, t1) := by
  have hwalk : (parsePath zrex shrink rounds mode t path).map forget = _ :=
    parsePath_walk hmode hpath t
  rw [h] at hwalk
  obtain ⟨⟨r', t1⟩, ht1, heq⟩ := exists_of_map_eq_ok hwalk
  obtain ⟨rfl, -⟩ := Prod.mk.inj heq
  exact ⟨t1, ht1⟩

end

/-! ## The trie after the removal -/

lemma prunes_leaf {path : List UInt8} {w q : Nat} {n : Node} (hshape : Shape t)
    (hn : t.nodes w = some n) (hend : n.endpoint = false) (hdetach : Detaches t t' q w)
    (hapart : BranchApart zrex path t (w, [])) : Prunes zrex t t' (· = w) fun _ => False := by
  obtain ⟨above, habove, hmem, hat⟩ := hdetach.at_parent
  obtain ⟨n', hn', hparent, hleaf⟩ := hdetach.leaf
  cases hn.symm.trans hn'
  refine .of_kept hshape (fun x m hm hx => ?_) ?_ fun _ _ _ h => h.elim
  · by_cases hxq : x = q
    · subst hxq
      obtain rfl : above = m := some.inj (habove.symm.trans hm)
      refine ⟨_, hat, rfl, .inr fun text len htakes => ?_⟩
      obtain ⟨before, after, hsplit⟩ := append_of_mem hmem
      have hnodup := hshape.nodup x above habove
      rw [hsplit] at hnodup htakes
      have hnot : w ∉ before ∧ w ∉ after := by
        obtain ⟨-, hright, hdisjoint⟩ := nodup_append.mp hnodup
        refine ⟨fun h => hdisjoint w h w mem_cons_self rfl, (nodup_cons.mp hright).1⟩
      have herase : above.children.erase w = before ++ after := by
        rw [hsplit, erase_append_right _ hnot.1, erase_cons_head]
      have hbefore : ∀ c ∈ before, c ≠ w := fun c hc h => hnot.1 (h ▸ hc)
      have hafter : ∀ c ∈ after, c ≠ w := fun c hc h => hnot.2 (h ▸ hc)
      rw [herase, hsplit, find?_append, find?_append,
        find?_congr fun c hc => htakes c (mem_append_left _ hc) (hbefore c hc),
        find?_congr fun c hc =>
          htakes c (mem_append_right _ (mem_cons_of_mem _ hc)) (hafter c hc), find?_cons]
      cases hfirst : before.find? (takesAt zrex t text len) with
      | some c => exact .inl ⟨c, rfl, rfl, hbefore c (mem_of_find?_eq_some hfirst)⟩
      | none =>
        cases hw : takesAt zrex t text len w with
        | true =>
          -- what the leaf took, no child behind it takes
          have hnone : after.find? (takesAt zrex t text len) = none := by
            rw [find?_eq_none]
            intro b hb hbt
            obtain ⟨m, hm, hmt⟩ := takesAt_iff.mp hw
            obtain ⟨k, hk, hkt⟩ := takesAt_iff.mp hbt
            exact hapart n x above before after hn hleaf hparent habove hsplit b hb m k hm hk text len
              ⟨hmt, hkt⟩
          rw [hnone]
          exact .inr ⟨fun c hc => (some.inj hc).symm, nofun⟩
        | false =>
          cases hlast : after.find? (takesAt zrex t text len) with
          | none => exact .inr ⟨nofun, nofun⟩
          | some c => exact .inl ⟨c, rfl, rfl, hafter c (mem_of_find?_eq_some hlast)⟩
    · -- the leaf is a child of its parent only
      refine ⟨m, (hdetach.others x hxq hx).trans hm, rfl, .inl ⟨rfl, ?_⟩⟩
      rintro c hc rfl
      obtain ⟨k, hk, hp⟩ := hshape.linked x m hm c hc
      cases hk.symm.trans hn
      exact hxq (some.inj (hp.symm.trans hparent))
  · rintro x m hm rfl
    cases hm.symm.trans hn
    refine ⟨hend, fun c hc => ?_⟩
    rw [hleaf] at hc
    cases hc

lemma prunes_grown {w : Nat} {above : Node} {children : List Nat} {dead' : Nat → Prop}
    (hshape : Shape t) (habove : t.nodes w = some above)
    (hapart : above.children.Pairwise (ApartAt zrex t))
    (hat : t'.nodes w = some { above with children := children })
    (hothers : ∀ x < t.fresh, x ≠ w → t'.nodes x = t.nodes x)
    (hold : ∀ c ∈ above.children, c ∈ children)
    (hnew : ∀ c ∈ children, c ∈ above.children ∨ dead' c)
    (hdead : ∀ d ∈ children, dead' d → ∀ c ∈ above.children, ∀ m k, t'.nodes d = some m →
      t.nodes c = some k → Apart zrex k m)
    (hbarren : ∀ x m, t'.nodes x = some m → dead' x →
      m.endpoint = false ∧ (∀ c ∈ m.children, dead' c) ∧ ∀ token, m.CapturesFit zrex token) :
    Prunes zrex t t' (fun _ => False) dead' := by
  refine .of_kept hshape (fun x m hm _ => ?_) (fun _ _ _ h => h.elim) hbarren
  by_cases hx : x = w
  · subst hx
    obtain rfl : above = m := some.inj (habove.symm.trans hm)
    refine ⟨_, hat, rfl, .inr fun text len htakes => ?_⟩
    cases hfind : above.children.find? (takesAt zrex t text len) with
    | some c =>
      have hc := mem_of_find?_eq_some hfind
      have hct := find?_some hfind
      obtain ⟨k, hk, hkt⟩ := takesAt_iff.mp hct
      -- it is the only child that takes the token, so that the order does not matter
      refine .inl ⟨c, rfl, find?_eq_some_of_unique (hold c hc) ((htakes c hc id).trans hct) ?_, id⟩
      intro d hd hdt
      rcases hnew d hd with hd' | hd'
      · by_contra hne
        rw [htakes d hd' id] at hdt
        obtain ⟨m, hm, hmt⟩ := takesAt_iff.mp hdt
        have hsymm : Std.Symm (ApartAt zrex t) := ⟨fun a b h => h.symm⟩
        exact hapart.forall hd' hc hne m k hm hk text len ⟨hmt, hkt⟩
      · obtain ⟨m, hm, hmt⟩ := takesAt_iff.mp hdt
        exact absurd ⟨hkt, hmt⟩ (hdead d hd hd' c hc m k hm hk text len)
    | none =>
      refine .inr ⟨nofun, fun d hd => ?_⟩
      have hdt := find?_some hd
      rcases hnew d (mem_of_find?_eq_some hd) with hd' | hd'
      · rw [htakes d hd' id] at hdt
        exact absurd hdt (find?_eq_none.mp hfind d hd')
      · exact hd'
  · exact ⟨m, (hothers x (hshape.old x m hm) hx).trans hm, rfl, .inl ⟨rfl, fun _ _ => id⟩⟩

/-! ## Insertion and removal -/

section
variable {path : List UInt8}

lemma Undoable.plain (h : Undoable zrex t path) :
    ∀ p ∈ routePieces t.delimiter path, p.Plain path (stopOf t.delimiter path) := fun p hp =>
  (placed_of_mem_pieces Scan.sane_start hp).plain (stopOf_le ..) h.short (h.star p hp)

lemma insertRoute_eq_zero {data : Option Nat} {destroys : Bool}
    (h : insertRoute zrex shrink rounds t path data destroys = .ok (0, t')) :
    ∃ e t1 n, parsePath zrex shrink rounds .insert t path = .ok (some e, t1) ∧
      t1.nodes e = some n ∧ n.endpoint = false ∧
      t' = t1.setNode e { n with endpoint := true, data := data, destroys := destroys } := by
  obtain ⟨⟨found, t1⟩, hparse, hrest⟩ := bind_eq_ok.mp h
  cases found with
  | none => cases hrest
  | some e =>
    obtain ⟨n, hn, hend⟩ := bind_eq_ok.mp hrest
    split at hend
    · cases hend
    · next hfalse =>
      exact ⟨e, t1, n, hparse, node_eq_ok.mp hn, Bool.eq_false_iff.mpr hfalse,
        (congrArg Prod.snd (Except.ok.inj hend)).symm⟩

/-- The removal succeeds, and leaves the trie of before but for nodes without a route. -/
def Undone (zrex : Zrex) (shrink : Nat → Nat) (rounds : Nat) (t t1 : Ztrie) (path : List UInt8) : Prop :=
  ∃ t2, removeRoute zrex shrink rounds t1 path = .ok (0, t2) ∧ t2.delimiter = t1.delimiter ∧
    ∃ dead dead', ¬dead root ∧ Prunes zrex t t2 dead dead'

variable {t1 u : Ztrie} {e : Nat} {n : Node} {data : Option Nat} {destroys : Bool}

lemma Undoable.not_finds_root (h : Undoable zrex t path) (hshape1 : Shape t1)
    (hn : t.nodes root = some n) (hleaf : n.children = []) {n' : Node} (hn' : t1.nodes root = some n')
    (hleaf' : n'.children = []) : ¬Finds path t1 root (routePieces t.delimiter path) root := by
  intro hfinds
  cases hps : routePieces t.delimiter path with
  | nil =>
    obtain hne | ⟨m, hm, hchildren⟩ := h.below
    · exact hne hps
    · cases hm.symm.trans hn
      exact hchildren hleaf
  | cons p ps =>
    rw [hps] at hfinds
    obtain ⟨-, c, hc, -⟩ := hfinds
    obtain ⟨above, -, habove, hmem, -⟩ := childFor_eq_some hshape1 hc
    cases habove.symm.trans hn'
    rw [hleaf'] at hmem
    cases hmem

abbrev Node.marked (n : Node) (data : Option Nat) (destroys : Bool) : Node :=
  { n with endpoint := true, data := data, destroys := destroys }

section
variable (hshape : Shape t) (hshape1 : Shape t1) (hn : t'.nodes e = some n)
  (hnodes : t1.nodes = update t'.nodes e (some (n.marked data destroys)))
  (hparse : parsePath zrex shrink rounds .lookup t1 path = .ok (some e, u))
include hshape1 hn hnodes hparse

lemma removeRoute_marked (hleaf : n.children = []) (hroot : e ≠ root) :
    ∃ q t2, removeRoute zrex shrink rounds t1 path = .ok (0, t2) ∧ t2.delimiter = t1.delimiter ∧
      Detaches t' t2 q e := by
  have hn1 : t1.nodes e = some (n.marked data destroys) := by rw [hnodes, update_self]
  obtain ⟨q, t2, hremove, hdelimiter, -, hdetach⟩ :=
    removeRoute_leaf hshape1 hparse hn1 rfl hleaf hroot
  obtain ⟨above, habove, hmem, hat⟩ := hdetach.at_parent
  obtain ⟨m, hm, hparent, -⟩ := hdetach.leaf
  cases hn1.symm.trans hm
  rw [hnodes, update_of_ne hdetach.ne] at habove
  refine ⟨q, t2, hremove, hdelimiter, ⟨above, habove, hmem, hat⟩, ⟨n, hn, hparent, hleaf⟩,
    hdetach.gone, fun x hxq hx => ?_⟩
  rw [hdetach.others x hxq hx, hnodes, update_of_ne hx]

include hshape

lemma undone_present (hend : n.endpoint = false) (hsame : t'.nodes = t.nodes)
    (hroot : n.children = [] → e ≠ root)
    (hapart : BranchApart zrex path t (e, [])) : Undone zrex shrink rounds t t1 path := by
  have hold : t.nodes e = some n := hsame ▸ hn
  rw [hsame] at hnodes
  by_cases hleaf : n.children = []
  · obtain ⟨q, t2, hremove, hdelimiter, hdetach⟩ :=
      removeRoute_marked hshape1 hold hnodes hparse hleaf (hroot hleaf)
    exact ⟨t2, hremove, hdelimiter, _, _, (hroot hleaf).symm, prunes_leaf hshape hold hend hdetach hapart⟩
  · have hn1 : t1.nodes e = some (n.marked data destroys) := by rw [hnodes, update_self]
    obtain ⟨t2, hremove, hdelimiter, -, hnodes2⟩ := removeRoute_inner hparse hn1 rfl hleaf
    rw [hnodes, update_idem] at hnodes2
    refine ⟨t2, hremove, hdelimiter, _, _, id, .of_same hshape fun x m hm => ?_⟩
    rw [hnodes2]
    by_cases hx : x = e
    · subst hx
      cases hm.symm.trans hold
      exact ⟨_, update_self .., by simp only [Node.core, hend], rfl⟩
    · rw [update_of_ne hx]
      exact ⟨m, hm, rfl, rfl⟩

variable {w : Nat} {p : Piece} {rest : List Piece}

lemma removeRoute_grown (hgrown : Grown path t w p rest e t') :
    ∃ q t2, (rest = [] → q = w ∧ e = t.fresh) ∧ (rest ≠ [] → t.fresh ≤ q ∧ e ≠ t.fresh) ∧
      removeRoute zrex shrink rounds t1 path = .ok (0, t2) ∧ t2.delimiter = t1.delimiter ∧
      Detaches t' t2 q e := by
  obtain ⟨m, q, hm, hleaf, hparent, hone, hmany⟩ := hgrown.last
  obtain rfl : n = m := some.inj (hn.symm.trans hm)
  have hroot : e ≠ root := by
    obtain ⟨r, hr, -⟩ := hshape.root_live
    exact ((hshape.old root r hr).trans_le hgrown.e_new).ne'
  obtain ⟨q', t2, hremove, hdelimiter, hdetach⟩ :=
    removeRoute_marked hshape1 hn hnodes hparse hleaf hroot
  obtain ⟨m, hm, hparent', -⟩ := hdetach.leaf
  cases hn.symm.trans hm
  obtain rfl : q = q' := some.inj (hparent.symm.trans hparent')
  exact ⟨q, t2, hone, hmany, hremove, hdelimiter, hdetach⟩

lemma undone_one (hgrown : Grown path t w p [] e t')
    (hapart : BranchApart zrex path t (w, [p])) : Undone zrex shrink rounds t t1 path := by
  obtain ⟨q, t2, hone, -, hremove, hdelimiter, hdetach⟩ :=
    removeRoute_grown hshape hshape1 hn hnodes hparse hgrown
  obtain ⟨rfl, rfl⟩ := hone rfl
  obtain ⟨above, children, habove, hat, hperm⟩ := hgrown.at_branch
  obtain ⟨above', habove', -, hat2⟩ := hdetach.at_parent
  obtain rfl := some.inj (hat.symm.trans habove')
  have hback : (children.erase t.fresh).Perm above.children := by
    have herase := hperm.erase t.fresh
    rw [erase_append_right _ (hshape.fresh_not_mem habove), erase_cons_head,
      append_nil] at herase
    exact herase
  refine ⟨t2, hremove, hdelimiter, fun _ => False, fun _ => False, id,
    prunes_grown hshape habove (hapart above habove) hat2 ?_ (fun c hc => hback.mem_iff.mpr hc)
      (fun c hc => .inl (hback.mem_iff.mp hc)) (fun _ _ h => h.elim) fun _ _ _ h => h.elim⟩
  intro x hx hxq
  rw [hdetach.others x hxq hx.ne]
  exact hgrown.others x hx hxq

lemma undone_many {p' : Piece} (hgrown : Grown path t w p (p' :: rest) e t')
    (hapart : BranchApart zrex path t (w, p :: p' :: rest)) :
    Undone zrex shrink rounds t t1 path := by
  obtain ⟨q, t2, -, hmany, hremove, hdelimiter, hdetach⟩ :=
    removeRoute_grown hshape hshape1 hn hnodes hparse hgrown
  obtain ⟨hnew, hne⟩ := hmany (cons_ne_nil p' rest)
  obtain ⟨above, children, habove, hat, hperm⟩ := hgrown.at_branch
  obtain ⟨hpairwise, hfirst, hfit⟩ := hapart above habove
  have hold : ∀ x < t.fresh, t2.nodes x = t'.nodes x := fun x hx =>
    hdetach.others x (hx.trans_le hnew).ne (hx.trans_le hgrown.e_new).ne
  have hlt : w < t.fresh := hshape.old w above habove
  refine ⟨t2, hremove, hdelimiter, fun _ => False, (t.fresh ≤ ·), id,
    prunes_grown hshape habove hpairwise ((hold w hlt).trans hat)
      (fun x hx hxw => (hold x hx).trans (hgrown.others x hx hxw)) ?_ ?_ ?_ ?_⟩
  · exact fun c hc => hperm.mem_iff.mpr (mem_append_left _ hc)
  · intro c hc
    rcases mem_append.mp (hperm.mem_iff.mp hc) with hc | hc
    · exact .inl hc
    · exact .inr (mem_singleton.mp hc).ge
  · intro d hd hdead c hc m k hm hk
    have hd' : d = t.fresh := by
      rcases mem_append.mp (hperm.mem_iff.mp hd) with hd | hd
      · obtain ⟨m, hm⟩ := hshape.live_children habove d hd
        exact absurd (hshape.old d m hm) (not_lt.mpr hdead)
      · exact mem_singleton.mp hd
    subst hd'
    obtain ⟨-, m', hm', hcore, -⟩ := hdetach.back hm
    obtain ⟨f, hf, hfcore⟩ := hgrown.first
    obtain rfl : f = m' := some.inj (hf.symm.trans hm')
    exact fun text len hboth => hfirst c hc k hk text len
      ⟨hboth.1, (Node.takes_of_core (hcore.trans hfcore) text len).mp hboth.2⟩
  · intro x m hm hx
    obtain ⟨hxe, m', hm', hcore, hsub⟩ := hdetach.back hm
    obtain ⟨hend, hchildren, hpiece⟩ := hgrown.new x m' hx hm'
    obtain ⟨s, hs, hscore⟩ := hpiece hxe
    refine ⟨?_, fun c hc => hchildren c (hsub c hc), fun token => ?_⟩
    · rw [(Node.fields_of_core hcore).2.2.2.1]
      exact hend
    · obtain ⟨htoken, htype, -, -, hsize⟩ := Node.fields_of_core (hcore.trans hscore)
      rw [Node.CapturesFit, htoken, htype, hsize]
      exact hfit s hs token

end

end

def oneRoute : List Call := [.insertRoute [47, 97] none false]

def piecesBc : List Piece := [(⟨2, 2, 1, none, root⟩, []), (⟨4, 2, 3, none, root⟩, [])]

lemma apart_nodeA : Apart zrex nodeA (pieceNode [47, 98, 47, 99] (⟨2, 2, 1, none, root⟩, [])) := by
  rintro text len ⟨ha, hb⟩
  have ha' : text.head? = some 97 := ha.1
  have hb' : text.head? = some 98 := by
    have hhead : (cut [98, 47, 99] (Bytes.sizeT (Scan.matchTokenLen ⟨2, 2, 1, none, root⟩))).head? =
        some 98 := by decide +kernel
    exact hb.1.trans hhead
  cases ha'.symm.trans hb'

end Czmq.Ztrie
