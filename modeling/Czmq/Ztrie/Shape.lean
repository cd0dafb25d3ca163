import Czmq.Ztrie.Nodes

/-! The nodes of a trie form a tree, and every operation keeps it so. -/

namespace Czmq.Ztrie

open Option List Function Node Bytes

variable {zrex : Zrex} {shrink : Nat → Nat} {rounds : Nat} {t t' : Ztrie}

/-- The stored length of a token is its length, if it is one; with a negative one the string is
long. -/
structure Node.Measured (n : Node) : Prop where
  length_eq : 0 ≤ n.tokenLen → (n.token.length : Int) = n.tokenLen
  long : n.tokenType = .string → n.tokenLen < 0 → intMax ≤ n.token.length

structure Shape (t : Ztrie) : Prop where
  root_live : ∃ n, t.nodes root = some n ∧ n.parent = none
  old : ∀ id n, t.nodes id = some n → id < t.fresh
  nodup : ∀ p n, t.nodes p = some n → n.children.Nodup
  linked : ∀ p n, t.nodes p = some n → ∀ c ∈ n.children, ∃ m, t.nodes c = some m ∧ m.parent = some p
  measured : ∀ id n, t.nodes id = some n → n.Measured

variable {n n' : Node}

lemma Node.Measured.congr (h : n.Measured) (htoken : n'.token = n.token)
    (htype : n'.tokenType = n.tokenType) (hlen : n'.tokenLen = n.tokenLen) : n'.Measured := by
  obtain ⟨heq, hlong⟩ := h
  rw [← htoken, ← hlen] at heq hlong
  rw [← htype] at hlong
  exact ⟨heq, hlong⟩

lemma Shape.of_nodes (hroot : ∃ n, t.nodes root = some n ∧ n.parent = none)
    (hnodes : ∀ id n, t.nodes id = some n → id < t.fresh ∧ n.children.Nodup ∧
      (∀ c ∈ n.children, ∃ m, t.nodes c = some m ∧ m.parent = some id) ∧ n.Measured) : Shape t where
  root_live := hroot
  old id n hn := (hnodes id n hn).1
  nodup id n hn := (hnodes id n hn).2.1
  linked id n hn := (hnodes id n hn).2.2.1
  measured id n hn := (hnodes id n hn).2.2.2

variable {id : Nat} {above : Node}

lemma Shape.live_children (h : Shape t) (habove : t.nodes id = some above) :
    ∀ c ∈ above.children, ∃ n, t.nodes c = some n :=
  fun c hc => (h.linked id above habove c hc).imp fun _ hm => hm.1

lemma Shape.fresh_not_mem (h : Shape t) (habove : t.nodes id = some above) :
    t.fresh ∉ above.children := by
  intro hmem
  obtain ⟨m, hm⟩ := h.live_children habove _ hmem
  exact lt_irrefl _ (h.old _ m hm)

lemma node_eq_ok : t.node id = .ok n ↔ t.nodes id = some n := by
  rw [node]
  cases t.nodes id with
  | none => simp
  | some m => simp

@[simp] lemma setNode_nodes_self (t : Ztrie) (id : Nat) (n : Node) :
    (t.setNode id n).nodes id = some n := update_self ..

lemma setNode_nodes_of_ne {x : Nat} (h : x ≠ id) (t : Ztrie) (n : Node) :
    (t.setNode id n).nodes x = t.nodes x := update_of_ne h ..

variable {ids : List Nat}

lemma map_fst_of_mapM_node {children : List (Nat × Node)} (h : ids.mapM (fun id => do
      let n ← t.node id
      pure (id, n)) = .ok children) : children.map Prod.fst = ids := by
  induction ids generalizing children with
  | nil =>
    cases h
    rfl
  | cons id ids ih =>
    rw [mapM_cons] at h
    obtain ⟨x, hx, h⟩ := bind_eq_ok.mp h
    obtain ⟨n, -, hx⟩ := bind_eq_ok.mp hx
    obtain ⟨xs, hxs, h⟩ := bind_eq_ok.mp h
    cases hx
    cases h
    rw [map_cons, ih hxs]

lemma sortChildren_perm (hshrink : Comb.Shrinks shrink) {sorted : List Nat}
    (h : sortChildren shrink rounds t ids = .ok sorted) : sorted.Perm ids := by
  obtain ⟨children, hchildren, h⟩ := bind_eq_ok.mp h
  obtain ⟨pairs, hpairs, h⟩ := bind_eq_ok.mp h
  cases h
  have hkey : ∀ a b : Nat × Node, decide (0 < nodeCompare a.2 b.2) = true ↔
      (fun x : Nat × Node => x.2.tokenType.code) b < (fun x => x.2.tokenType.code) a := by
    intro a b
    rw [decide_eq_true_iff, nodeCompare]
    dsimp only
    split
    · split <;> omega
    · omega
  obtain ⟨sorted', hperm, -, bound, hsorted⟩ :=
    Zlistx.sortedItems_spec (Comb.totalPreorder_of_key hkey children) hshrink
  have hmore := hsorted (max rounds bound) (le_max_right ..)
  obtain ⟨l, hadd, hpairs⟩ := bind_eq_ok.mp hpairs
  obtain ⟨l', hsort, hpairs⟩ := bind_eq_ok.mp hpairs
  rw [Zlistx.sortedItems, hadd, ok_bind, Zlistx.sort,
    Loop.untilDone_mono hsort (le_max_left ..)] at hmore
  cases hmore.symm.trans hpairs
  rw [← map_fst_of_mapM_node hchildren]
  exact hperm.map Prod.fst

/-! ## Changes of the nodes -/

def Node.bare (n : Node) : Node := { n with parameterValues := [], asteriskMatch := none }

lemma Node.fields_of_bare (h : n'.bare = n.bare) :
    n'.token = n.token ∧ n'.tokenType = n.tokenType ∧ n'.endpoint = n.endpoint ∧
      n'.children = n.children := by
  simp only [Node.bare, mk.injEq] at h
  obtain ⟨htoken, htype, -, -, hendpoint, -, -, -, -, -, hchildren, -⟩ := h
  exact ⟨htoken, htype, hendpoint, hchildren⟩

structure Same (t t' : Ztrie) : Prop where
  bare : ∀ id, (t'.nodes id).map Node.bare = (t.nodes id).map Node.bare
  fresh : t'.fresh = t.fresh
  delimiter : t'.delimiter = t.delimiter

lemma Same.refl (t : Ztrie) : Same t t := ⟨fun _ => rfl, rfl, rfl⟩

lemma Same.trans {t'' : Ztrie} (h : Same t t') (h' : Same t' t'') : Same t t'' :=
  ⟨fun id => (h'.bare id).trans (h.bare id), h'.fresh.trans h.fresh, h'.delimiter.trans h.delimiter⟩

lemma Same.symm (h : Same t t') : Same t' t :=
  ⟨fun id => (h.bare id).symm, h.fresh.symm, h.delimiter.symm⟩

lemma Same.params (t : Ztrie) (params : List (List UInt8)) : Same t { t with params := params } :=
  ⟨fun _ => rfl, rfl, rfl⟩

lemma Same.exists (h : Same t t') (hn : t.nodes id = some n) :
    ∃ n', t'.nodes id = some n' ∧ n'.bare = n.bare := by
  have hbare := h.bare id
  rw [hn] at hbare
  exact map_eq_some_iff.mp hbare

lemma map_setNode {α : Type} (f : Node → α) (hn : t.nodes id = some n) (hf : f n' = f n) (x : Nat) :
    ((t.setNode id n').nodes x).map f = (t.nodes x).map f := by
  by_cases hx : x = id
  · subst hx
    rw [setNode_nodes_self, hn, map_some, map_some, hf]
  · rw [setNode_nodes_of_ne hx]

lemma Same.setNode (hn : t.nodes id = some n) (hbare : n'.bare = n.bare) :
    Same t (t.setNode id n') := ⟨map_setNode _ hn hbare, rfl, rfl⟩

def Node.links (n : Node) : Option Nat × List Nat × List UInt8 × TokenType × Int :=
  (n.parent, n.children, n.token, n.tokenType, n.tokenLen)

structure SameLinks (t t' : Ztrie) : Prop where
  links : ∀ id, (t'.nodes id).map links = (t.nodes id).map links
  fresh : t'.fresh = t.fresh

lemma SameLinks.symm (h : SameLinks t t') : SameLinks t' t := ⟨fun id => (h.links id).symm, h.fresh.symm⟩

lemma SameLinks.of_nodes (hnodes : t'.nodes = t.nodes) (hfresh : t'.fresh = t.fresh) :
    SameLinks t t' := ⟨fun _ => by rw [hnodes], hfresh⟩

lemma Same.sameLinks (h : Same t t') : SameLinks t t' := by
  refine ⟨fun id => ?_, h.fresh⟩
  have hbare : ∀ x : Option Node, x.map links = (x.map Node.bare).map links := by
    rintro (_ | n) <;> rfl
  rw [hbare (t'.nodes id), hbare (t.nodes id), h.bare]

lemma SameLinks.setNode (hn : t.nodes id = some n)
    (hlinks : n'.links = n.links) : SameLinks t (t.setNode id n') := ⟨map_setNode _ hn hlinks, rfl⟩

lemma SameLinks.exists (h : SameLinks t t') (hn : t.nodes id = some n) :
    ∃ n', t'.nodes id = some n' ∧ n'.links = n.links := by
  have hid := h.links id
  rw [hn] at hid
  exact map_eq_some_iff.mp hid

lemma Node.fields_of_links (h : n'.links = n.links) :
    n'.parent = n.parent ∧ n'.children = n.children ∧ n'.token = n.token ∧
      n'.tokenType = n.tokenType ∧ n'.tokenLen = n.tokenLen := by
  simpa only [links, Prod.mk.injEq] using h

/-- Where nodes keep their parents, they are still linked to them. -/
lemma Shape.kept (h : Shape t) (t' : Ztrie) (stays : Nat → Prop)
    (hkeep : ∀ x m, stays x → t.nodes x = some m → ∃ m', t'.nodes x = some m' ∧ m'.parent = m.parent) :
    (stays root → ∃ n, t'.nodes root = some n ∧ n.parent = none) ∧ ∀ x n, t.nodes x = some n →
      ∀ c ∈ n.children, stays c → ∃ m, t'.nodes c = some m ∧ m.parent = some x := by
  constructor
  · intro hroot
    obtain ⟨r, hr, hnone⟩ := h.root_live
    obtain ⟨r', hr', hp⟩ := hkeep root r hroot hr
    exact ⟨r', hr', hp.trans hnone⟩
  · intro x n hn c hc hstays
    obtain ⟨m, hm, hp⟩ := h.linked x n hn c hc
    obtain ⟨m', hm', hp'⟩ := hkeep c m hstays hm
    exact ⟨m', hm', hp'.trans hp⟩

lemma Shape.of_links (h : Shape t) (hs : SameLinks t t') : Shape t' := by
  obtain ⟨hroot, hchild⟩ := h.kept t' (fun _ => True) fun x m _ hm =>
    (hs.exists hm).imp fun _ hm' => ⟨hm'.1, (fields_of_links hm'.2).1⟩
  refine .of_nodes (hroot trivial) fun id n hn => ?_
  obtain ⟨m, hm, hlinks⟩ := hs.symm.exists hn
  obtain ⟨-, hchildren, htoken, htype, hlen⟩ := fields_of_links hlinks
  rw [hs.fresh, ← hchildren]
  exact ⟨h.old id m hm, h.nodup id m hm, fun c hc => hchild id m hm c hc trivial,
    (h.measured id m hm).congr htoken.symm htype.symm hlen.symm⟩

lemma Shape.congr (h : Shape t) (hnodes : t'.nodes = t.nodes) (hfresh : t'.fresh = t.fresh) :
    Shape t' := h.of_links (.of_nodes hnodes hfresh)

lemma Shape.of_same (h : Shape t) (hs : Same t t') : Shape t' := h.of_links hs.sameLinks

lemma bare_of_updateParam {pos : Nat} {value : List UInt8}
    (h : n.updateParam pos value = .ok n') : n'.bare = n.bare := by
  rw [updateParam] at h
  split at h
  · cases h
    rfl
  · cases h

lemma bare_of_capture {hits : List (List UInt8)} (h : n.capture hits = .ok n') :
    n'.bare = n.bare := by
  have hfold : ∀ (xs : List (List UInt8 × Nat)) (n : Node),
      xs.foldlM (fun self x => self.updateParam x.2 x.1) n = .ok n' → n'.bare = n.bare := by
    intro xs
    induction xs with
    | nil =>
      intro n h
      cases h
      rfl
    | cons x xs ih =>
      intro n h
      obtain ⟨m, hm, h⟩ := bind_eq_ok.mp h
      exact (ih m h).trans (bare_of_updateParam hm)
  unfold capture at h
  split at h
  · exact bare_of_updateParam h
  · exact hfold _ _ h

variable {token : List UInt8} {len : Int}

lemma same_of_childMatches {child : Node}
    (hchild : t.nodes id = some child) (h : childMatches zrex t token len id child = .ok (some t')) :
    Same t t' := by
  rw [childMatches] at h
  split at h
  · split at h
    · cases h
      exact .refl t
    · cases h
  · cases h
    exact .setNode hchild rfl
  · obtain ⟨text, -, h⟩ := bind_eq_ok.mp h
    split at h
    · cases h
    · cases h
      exact .refl t
  · obtain ⟨text, -, h⟩ := bind_eq_ok.mp h
    split at h
    · cases h
    · obtain ⟨child', hcapture, h⟩ := bind_eq_ok.mp h
      cases h
      exact .setNode hchild (bare_of_capture hcapture)

variable {found : Option Nat}

lemma matchesToken_same (h : matchesToken zrex t token len ids = .ok (found, t')) :
    Same t t' ∧ ∀ id ∈ found, id ∈ ids := by
  induction ids with
  | nil =>
    cases h
    exact ⟨.refl t, nofun⟩
  | cons id ids ih =>
    obtain ⟨child, hchild, h⟩ := bind_eq_ok.mp h
    obtain ⟨taken, htaken, h⟩ := bind_eq_ok.mp h
    cases taken with
    | some t1 =>
      cases h
      refine ⟨same_of_childMatches (node_eq_ok.mp hchild) htaken, fun x hx => ?_⟩
      obtain rfl := some.inj hx
      exact mem_cons_self
    | none =>
      obtain ⟨hsame, hmem⟩ := ih h
      exact ⟨hsame, fun x hx => mem_cons_of_mem _ (hmem x hx)⟩

lemma mem_of_compareToken (h : compareToken t token len ids = .ok (some id)) : id ∈ ids := by
  induction ids with
  | nil => cases h
  | cons x ids ih =>
    obtain ⟨child, -, h⟩ := bind_eq_ok.mp h
    split at h
    · cases h
      exact mem_cons_self
    · exact mem_cons_of_mem _ (ih h)

lemma sizeT_of_nonneg (hlen : 0 ≤ len) (hlt : len < 2 ^ 31) : sizeT len = len.toNat := by
  rw [sizeT, Int.emod_eq_of_lt hlen (by omega)]

def Node.core (n : Node) : List UInt8 × TokenType × Int × Bool × Nat :=
  (n.token, n.tokenType, n.tokenLen, n.endpoint, n.parameterValues.length)

lemma Node.fields_of_core (h : n'.core = n.core) :
    n'.token = n.token ∧ n'.tokenType = n.tokenType ∧ n'.tokenLen = n.tokenLen ∧
      n'.endpoint = n.endpoint ∧ n'.parameterValues.length = n.parameterValues.length := by
  simpa only [core, Prod.mk.injEq] using h

structure Attaches (t t' : Ztrie) (id : Nat) (new : Node) : Prop where
  at_parent : ∃ above children, t.nodes id = some above ∧
    t'.nodes id = some { above with children := children } ∧
    children.Perm (above.children ++ [t.fresh])
  at_new : ∃ n, t'.nodes t.fresh = some n ∧ n.core = new.core ∧ n.children = [] ∧ n.parent = some id
  others : ∀ x, x ≠ id → x ≠ t.fresh → t'.nodes x = t.nodes x
  fresh : t'.fresh = t.fresh + 1

variable {parent : Nat} {type : TokenType}

lemma attaches_of_nodeNew (hshrink : Comb.Shrinks shrink) (hshape : Shape t)
    {text : List UInt8}
    (h : nodeNew zrex shrink rounds t parent text len type = .ok (id, t')) :
    id = t.fresh ∧ ∃ token, strndup text (sizeT len) = .ok token ∧
      Attaches t t' parent (nodeInit token len t.params type) := by
  obtain ⟨token, htoken, h⟩ := bind_eq_ok.mp h
  split at h
  · cases h
  · obtain ⟨above, habove, h⟩ := bind_eq_ok.mp h
    obtain ⟨children, hsort, h⟩ := bind_eq_ok.mp h
    cases h
    rw [node_eq_ok] at habove
    have hne : t.fresh ≠ parent := (hshape.old parent above habove).ne'
    refine ⟨rfl, token, htoken, ⟨above, children, habove, setNode_nodes_self ..,
      sortChildren_perm hshrink hsort⟩, ?_, fun x hx hx' => ?_, rfl⟩
    · rw [setNode_nodes_of_ne hne]
      exact ⟨_, setNode_nodes_self .., rfl, rfl, rfl⟩
    · rw [setNode_nodes_of_ne hx]
      exact setNode_nodes_of_ne hx' ..

lemma Shape.attach (h : Shape t) {new : Node} (hnew : new.Measured)
    (hattach : Attaches t t' id new) : Shape t' := by
  obtain ⟨above, children, habove, hat, hperm⟩ := hattach.at_parent
  obtain ⟨self, hself, hcore, hleaf, hparent⟩ := hattach.at_new
  -- the nodes of before are still there, below the same parents
  obtain ⟨hroot, hchild⟩ := h.kept t' (fun _ => True) fun x m _ hm => by
    by_cases hx : x = id
    · subst hx
      cases hm.symm.trans habove
      exact ⟨_, hat, rfl⟩
    · exact ⟨m, (hattach.others x hx (h.old x m hm).ne).trans hm, rfl⟩
  refine .of_nodes (hroot trivial) fun x n hn => ?_
  rw [hattach.fresh]
  by_cases hx : x = id
  · subst hx
    cases hat.symm.trans hn
    refine ⟨Nat.lt_succ_of_lt (h.old x above habove), ?_, fun c hc => ?_,
      (h.measured x above habove).congr rfl rfl rfl⟩
    · rw [hperm.nodup_iff]
      exact (h.nodup x above habove).append (nodup_singleton _)
        (by simpa using h.fresh_not_mem habove)
    · rcases mem_append.mp (hperm.mem_iff.mp hc) with hc | hc
      · exact hchild x above habove c hc trivial
      · obtain rfl := mem_singleton.mp hc
        exact ⟨self, hself, hparent⟩
  by_cases hx' : x = t.fresh
  · subst hx'
    cases hself.symm.trans hn
    obtain ⟨htoken, htype, hlen, -⟩ := fields_of_core hcore
    rw [hleaf]
    exact ⟨Nat.lt_succ_self _, nodup_nil, nofun, hnew.congr htoken htype hlen⟩
  · rw [hattach.others x hx hx'] at hn
    exact ⟨Nat.lt_succ_of_lt (h.old x n hn), h.nodup x n hn,
      fun c hc => hchild x n hn c hc trivial, h.measured x n hn⟩

/-- What is known of the length of a token in the text from some position on. -/
structure Fits (token : List UInt8) (len : Int) (type : TokenType) : Prop where
  ge : -2 ^ 31 ≤ len
  lt : len < 2 ^ 31
  le : 0 ≤ len → len ≤ token.length
  long : type = .string → len < 0 → intMax < token.length

lemma Fits.measured {text : List UInt8} (h : Fits token len type)
    (htext : strndup token (sizeT len) = .ok text) (htoken : n.token = text)
    (hlen : n.tokenLen = len) (htype : n.tokenType = type) : n.Measured := by
  refine ⟨fun hpos => ?_, fun hstring hneg => ?_⟩
  · rw [hlen] at hpos ⊢
    have hle := h.le hpos
    rw [sizeT_of_nonneg hpos h.lt, strndup, if_neg (by omega)] at htext
    cases htext
    rw [htoken, length_take]
    omega
  · rw [hlen] at hneg
    have hlong := h.long (htype ▸ hstring) hneg
    have hge := h.ge
    rw [htoken]
    rw [strndup] at htext
    split at htext
    · split at htext
      · cases htext
      · cases htext
        rw [length_take]
        omega
    · next hnot =>
      cases htext
      have hsize : sizeT len = (len + 2 ^ 64).toNat := by
        rw [sizeT, ← Int.add_emod_right, Int.emod_eq_of_lt (by omega) (by omega)]
      have hmax : intMax < 2 ^ 31 := by decide
      rw [length_take]
      omega

/-! ## The scanner -/

lemma Scan.matchTokenLen_le (s : Scan) : s.matchTokenLen ≤ ↑(s.needle - s.matchToken) := by
  have h := int32_bounds (s.needle - s.matchToken)
  rw [Scan.matchTokenLen]
  split <;> omega

lemma Scan.matchTokenLen_lt (s : Scan) : s.matchTokenLen < 2 ^ 31 := by
  have h := int32_bounds (s.needle - s.matchToken)
  rw [Scan.matchTokenLen]
  split <;> omega

variable {path : List UInt8}

lemma tokenAt_fits {stop : Nat} {s : Scan}
    {start : Nat} (hpath : path ≠ []) (hneedle : s.needle ≤ path.length)
    (h : tokenAt t path stop s above = .ok (some (type, start, len))) :
    Fits (path.drop start) len type := by
  have hpos := length_pos_iff.mpr hpath
  have hle := s.matchTokenLen_le
  have hlt := s.matchTokenLen_lt
  have hmax : (intMax : Int) = 2 ^ 31 - 1 := by decide
  rw [tokenAt] at h
  split at h
  · cases h
  split at h
  · cases h
  split at h
  · split at h
    · cases h
      refine ⟨by omega, by omega, fun _ => ?_, nofun⟩
      rw [length_drop]
      omega
    · cases h
  · cases h
    refine ⟨by omega, hlt, fun _ => ?_, fun htype hneg => ?_⟩
    · rw [length_drop]
      omega
    · -- a string has no brace, so the length was cut to an `int`
      have hregex : s.beginRegex.isSome = false := by
        rw [Scan.matchType] at htype
        split at htype
        · cases htype
        · split at htype
          · cases htype
          · next hnone => exact Bool.eq_false_of_not_eq_true hnone
      rw [Scan.matchTokenLen, hregex] at hneg
      have hlong : 2 ^ 31 ≤ s.needle - s.matchToken := by
        by_contra hlt
        rw [int32_of_lt (not_le.mp hlt)] at hneg
        simp at hneg
        omega
      rw [length_drop]
      exact lt_of_lt_of_le (Nat.lt_succ_self intMax) (hlong.trans (by omega))

variable {mode : Mode}

lemma findToken_cases (h : findToken zrex mode t token len ids = .ok (found, t')) :
    Same t t' ∧ (∀ id ∈ found, id ∈ ids) ∧
      (mode ≠ .matching → t' = t ∧ compareToken t token len ids = .ok found) := by
  rw [findToken] at h
  split at h
  · next hmode =>
    obtain ⟨hsame, hmem⟩ := matchesToken_same h
    exact ⟨hsame, hmem, fun hne => absurd hmode hne⟩
  · obtain ⟨found', hfound, h⟩ := bind_eq_ok.mp h
    cases h
    refine ⟨.refl t, fun id hid => ?_, fun _ => ⟨rfl, hfound⟩⟩
    obtain rfl := hid
    exact mem_of_compareToken hfound

inductive TokenStep (zrex : Zrex) (shrink : Nat → Nat) (rounds : Nat) (mode : Mode) (t : Ztrie)
    (s : Scan) (above : Node) (x : Scanned) : Prop
  | none (t1 : Ztrie) (hsame : Same t t1) (hlookup : mode ≠ .matching → t1 = t)
      (hx : x = .inr (none, t1))
  | found (t1 : Ztrie) (id : Nat) (hsame : Same t t1) (hmem : id ∈ above.children)
      (hlookup : mode ≠ .matching → t1 = t ∧ ∃ text len,
        compareToken t text len above.children = .ok (some id))
      (hx : x = nextToken t1 s id ∨ finish mode t1 id = .ok x)
  | added (t1 : Ztrie) (id : Nat) (text : List UInt8) (len : Int) (type : TokenType)
      (hmode : mode = .insert) (hfits : Fits text len type)
      (hnew : nodeNew zrex shrink rounds t s.parent text len type = .ok (id, t1))
      (hx : x = nextToken t1 s id)

lemma endToken_cases {stop : Nat} {s : Scan} {x : Scanned}
    (hpath : path ≠ []) (hneedle : s.needle ≤ path.length)
    (h : endToken zrex shrink rounds mode path stop t s = .ok x) :
    ∃ above, t.nodes s.parent = some above ∧ TokenStep zrex shrink rounds mode t s above x := by
  obtain ⟨above, habove, hrun⟩ := bind_eq_ok.mp h
  refine ⟨above, node_eq_ok.mp habove, ?_⟩
  obtain ⟨token, htoken, hrest⟩ := bind_eq_ok.mp hrun
  cases token with
  | none =>
    cases hrest
    exact .none t (.refl t) (fun _ => rfl) rfl
  | some token =>
    obtain ⟨type, start, len⟩ := token
    obtain ⟨⟨found, t1⟩, hfound, hlast⟩ := bind_eq_ok.mp hrest
    obtain ⟨hsame, hmem, hlookup⟩ := findToken_cases hfound
    cases found with
    | some id =>
      refine .found t1 id hsame (hmem id rfl) (fun hne => ?_) ?_
      · exact ⟨(hlookup hne).1, _, _, (hlookup hne).2⟩
      · obtain ⟨child, -, hgo⟩ := bind_eq_ok.mp hlast
        split at hgo
        · exact .inr hgo
        · cases hgo
          exact .inl rfl
    | none =>
      replace hlast : mismatch zrex shrink rounds mode t1 s above (path.drop start) len type = .ok x := hlast
      rw [mismatch] at hlast
      split at hlast
      · next hmode =>
        have heq : t1 = t := (hlookup (by rw [hmode]; nofun)).1
        subst heq
        obtain ⟨closed, -, hnew⟩ := bind_eq_ok.mp hlast
        split at hnew
        · cases hnew
          exact .none t1 hsame (fun _ => rfl) rfl
        · obtain ⟨⟨id, t2⟩, hnode, hend⟩ := bind_eq_ok.mp hnew
          cases hend
          exact .added t2 id _ _ _ hmode (tokenAt_fits hpath hneedle htoken) hnode rfl
      · cases hlast
        exact .none t1 hsame (fun hne => (hlookup hne).1) rfl

lemma finish_cases {x : Scanned} (h : finish mode t id = .ok x) :
    ∃ found, x = .inr (found, t) ∧ ∀ y ∈ found, y = id ∧ ∃ n, t.nodes id = some n := by
  obtain ⟨n, hn, hrest⟩ := bind_eq_ok.mp h
  split at hrest
  · cases hrest
    exact ⟨none, rfl, nofun⟩
  · cases hrest
    refine ⟨some id, rfl, fun y hy => ?_⟩
    obtain rfl := some.inj hy
    exact ⟨rfl, n, node_eq_ok.mp hn⟩

lemma parseRound_cases {stop : Nat} {s : Scan} {x : Scanned}
    (h : parseRound zrex shrink rounds mode path stop (t, s) = .ok x) :
    (s.needle ≤ stop ∧ endToken zrex shrink rounds mode path stop t s = .ok x) ∨
      finish mode t s.parent = .ok x ∨
      ∃ params s', x = .inl ({ t with params := params }, s') ∧ s'.parent = s.parent := by
  have hmove : ∀ {s' : Scan}, (Except.ok (.inl (t, s')) : Except Fault Scanned) = .ok x →
      s'.parent = s.parent →
      ∃ params s', x = .inl ({ t with params := params }, s') ∧ s'.parent = s.parent := by
    intro s' hx hparent
    cases hx
    exact ⟨t.params, s', rfl, hparent⟩
  rw [parseRound] at h
  split_ifs at h with hneedle
  · exact .inr (.inr (hmove h rfl))
  · exact .inr (.inr (hmove h rfl))
  · exact .inl ⟨Nat.le_of_lt_succ hneedle, h⟩
  · exact .inr (.inr (hmove h rfl))
  · exact .inr (.inr (hmove h rfl))
  · obtain ⟨name, -, hname⟩ := bind_eq_ok.mp h
    cases hname
    exact .inr (.inr ⟨_, _, rfl, rfl⟩)
  · exact .inr (.inr (hmove h rfl))
  · exact .inr (.inr (hmove h rfl))
  · exact .inr (.inl h)

lemma parsePath_rule {x : Option Nat × Ztrie}
    (inv : Ztrie → Nat → Prop) (post : Option Nat → Ztrie → Prop)
    (hstart : inv { t with params := [] } root)
    (hparams : ∀ t params id, inv t id → inv { t with params := params } id)
    (hfinish : ∀ t found id, inv t id → (∀ y ∈ found, y = id ∧ ∃ n, t.nodes id = some n) → post found t)
    (hstep : ∀ t s above x, inv t s.parent → t.nodes s.parent = some above →
      TokenStep zrex shrink rounds mode t s above x →
      Sum.elim (fun y => inv y.1 y.2.parent) (fun y => post y.1 y.2) x)
    (h : parsePath zrex shrink rounds mode t path = .ok x) : post x.1 x.2 := by
  rw [parsePath] at h
  split at h
  · cases h
  · next last hlast =>
    have hpath : path ≠ [] := by
      rintro rfl
      cases hlast
    refine Loop.untilDone_invariant (fun y : Ztrie × Scan => inv y.1 y.2.parent)
      (fun y : Option Nat × Ztrie => post y.1 y.2) ?_ hstart h
    rintro ⟨t1, s⟩ hinv y hy
    rcases parseRound_cases hy with ⟨hneedle, hend⟩ | hfinal | ⟨params, s', rfl, hparent⟩
    · have hle : s.needle ≤ path.length := by
        refine hneedle.trans ?_
        split
        · exact Nat.sub_le ..
        · exact le_rfl
      obtain ⟨above, habove, htoken⟩ := endToken_cases hpath hle hend
      exact hstep t1 s above y hinv habove htoken
    · obtain ⟨found, rfl, hfound⟩ := finish_cases hfinal
      exact hfinish t1 found _ hinv hfound
    · exact hparams t1 params _ (hparent ▸ hinv)

lemma parsePath_inv (inv : Ztrie → Prop) (hsame : ∀ {t t'}, inv t → Same t t' → inv t')
    (hnew : ∀ {t t' parent id text len type}, inv t → Fits text len type →
      nodeNew zrex shrink rounds t parent text len type = .ok (id, t') → inv t')
    (h : inv t) {x : Option Nat × Ztrie}
    (hx : parsePath zrex shrink rounds mode t path = .ok x) : inv x.2 := by
  have hparams : ∀ (t : Ztrie) params, inv t → inv { t with params := params } := fun t params h =>
    hsame h (.params t params)
  refine parsePath_rule (fun t _ => inv t) (fun _ t => inv t) (hparams t [] h)
    (fun t params _ h => hparams t params h) (fun t found id h _ => h) ?_ hx
  intro t s above x h habove hstep
  cases hstep with
  | none t1 hs _ hx =>
    subst hx
    exact hsame h hs
  | found t1 id hs _ _ hx =>
    rcases hx with rfl | hfinal
    · exact hparams t1 [] (hsame h hs)
    · obtain ⟨found, rfl, -⟩ := finish_cases hfinal
      exact hsame h hs
  | added t1 id text len type _ hfits hnode hx =>
    subst hx
    exact hparams t1 [] (hnew h hfits hnode)

/-! ## Routes -/

lemma compareToken_congr (hnodes : t'.nodes = t.nodes) (token : List UInt8) (len : Int)
    (ids : List Nat) : compareToken t' token len ids = compareToken t token len ids := by
  induction ids with
  | nil => rfl
  | cons id ids ih => rw [compareToken, compareToken, ih, node, node, hnodes]

def Named (t : Ztrie) (id : Nat) : Prop :=
  id = root ∨ ∃ p above token len, t.nodes p = some above ∧
    compareToken t token len above.children = .ok (some id)

lemma parsePath_lookup (h : parsePath zrex shrink rounds .lookup t path = .ok (found, t')) :
    (∃ params, t' = { t with params := params }) ∧ ∀ id ∈ found, Named t id := by
  refine parsePath_rule (fun t1 id => (∃ params, t1 = { t with params := params }) ∧ Named t id)
    (fun found t1 => (∃ params, t1 = { t with params := params }) ∧ ∀ id ∈ found, Named t id)
    ⟨⟨[], rfl⟩, .inl rfl⟩ ?_ ?_ ?_ h
  · rintro t1 params id ⟨⟨params', rfl⟩, hnamed⟩
    exact ⟨⟨params, rfl⟩, hnamed⟩
  · rintro t1 found id ⟨hparams, hnamed⟩ hfound
    refine ⟨hparams, fun y hy => ?_⟩
    rw [(hfound y hy).1]
    exact hnamed
  · rintro t1 s above x ⟨⟨params, rfl⟩, hnamed⟩ habove hstep
    cases hstep with
    | none t2 _ hlookup hx =>
      subst hx
      rw [hlookup nofun]
      exact ⟨⟨params, rfl⟩, nofun⟩
    | found t2 id _ hmem hlookup hx =>
      obtain ⟨rfl, token, len, hcompare⟩ := hlookup nofun
      have heq := compareToken_congr (rfl : { t with params := params }.nodes = t.nodes) token len
        above.children
      have hnamed' : Named t id :=
        .inr ⟨s.parent, above, token, len, habove, heq.symm.trans hcompare⟩
      rcases hx with rfl | hfinal
      · exact ⟨⟨[], rfl⟩, hnamed'⟩
      · obtain ⟨found, rfl, hfound⟩ := finish_cases hfinal
        refine ⟨⟨params, rfl⟩, fun y hy => ?_⟩
        rw [(hfound y hy).1]
        exact hnamed'
    | added t2 id text len type hmode _ _ _ => cases hmode

lemma token_of_compareToken
    (hn : t.nodes id = some n) (h : compareToken t token len ids = .ok (some id)) :
    n.tokenLen = len ∧ strncmpEq n.token token (sizeT (minLen n.tokenLen len)) = true := by
  induction ids with
  | nil => cases h
  | cons x ids ih =>
    obtain ⟨child, hchild, hrest⟩ := bind_eq_ok.mp h
    split at hrest
    · next htest =>
      cases hrest
      rw [node_eq_ok, hn] at hchild
      cases hchild
      exact htest
    · exact ih hrest

lemma findChild_of_compareToken
    (hn : t.nodes id = some n) (h : compareToken t token len ids = .ok (some id)) :
    findChild t n ids = .ok (some id) := by
  induction ids with
  | nil => cases h
  | cons x ids ih =>
    obtain ⟨child, hchild, hrest⟩ := bind_eq_ok.mp h
    rw [findChild, hchild, ok_bind]
    split at hrest
    · cases hrest
      rw [node_eq_ok, hn] at hchild
      cases hchild
      have hself : nodeCompare n n = 0 := by
        rw [nodeCompare, if_pos (sub_self _), if_pos ⟨rfl, rfl, beq_self_eq_true _⟩]
      rw [if_pos hself]
      rfl
    · next hnot =>
      have hne : nodeCompare child n ≠ 0 := by
        obtain ⟨rfl, htext⟩ := token_of_compareToken hn hrest
        intro hzero
        rw [nodeCompare] at hzero
        split at hzero
        · split at hzero
          · next hsame =>
            obtain ⟨-, hlen, heq⟩ := hsame
            rw [hlen] at hnot heq
            refine hnot ⟨rfl, ?_⟩
            rw [strncmpEq, beq_iff_eq] at heq htext ⊢
            exact heq.trans htext
          · omega
        · contradiction
      rw [if_neg hne]
      exact ih hrest

structure Detaches (t t' : Ztrie) (parent id : Nat) : Prop where
  at_parent : ∃ above, t.nodes parent = some above ∧ id ∈ above.children ∧
    t'.nodes parent = some { above with children := above.children.erase id }
  leaf : ∃ n, t.nodes id = some n ∧ n.parent = some parent ∧ n.children = []
  gone : t'.nodes id = none
  others : ∀ x, x ≠ parent → x ≠ id → t'.nodes x = t.nodes x

lemma Detaches.ne (h : Detaches t t' parent id) : parent ≠ id := by
  obtain ⟨above, habove, hmem, -⟩ := h.at_parent
  obtain ⟨n, hn, -, hleaf⟩ := h.leaf
  rintro rfl
  cases hn.symm.trans habove
  rw [hleaf] at hmem
  cases hmem

lemma Detaches.back {x : Nat} {m : Node} (h : Detaches t t' parent id)
    (hm : t'.nodes x = some m) : x ≠ id ∧ ∃ m', t.nodes x = some m' ∧ m.core = m'.core ∧
      ∀ c ∈ m.children, c ∈ m'.children := by
  have hne : x ≠ id := by
    rintro rfl
    cases h.gone.symm.trans hm
  refine ⟨hne, ?_⟩
  by_cases hx : x = parent
  · subst hx
    obtain ⟨above, habove, -, hat⟩ := h.at_parent
    cases hat.symm.trans hm
    exact ⟨above, habove, rfl, fun c hc => mem_of_mem_erase hc⟩
  · rw [h.others x hx hne] at hm
    exact ⟨m, hm, rfl, fun _ hc => hc⟩

lemma Shape.detach (h : Shape t) (hdetach : Detaches t t' parent id)
    (hfresh : t'.fresh = t.fresh) : Shape t' := by
  obtain ⟨above, habove, hmem, hat⟩ := hdetach.at_parent
  obtain ⟨n, hn, hparent, hleaf⟩ := hdetach.leaf
  obtain ⟨hroot, hchild⟩ := h.kept t' (· ≠ id) fun x m hx hm => by
    by_cases hx' : x = parent
    · subst hx'
      cases hm.symm.trans habove
      exact ⟨_, hat, rfl⟩
    · exact ⟨m, (hdetach.others x hx' hx).trans hm, rfl⟩
  refine .of_nodes (hroot ?_) fun x m hm => ?_
  · rintro rfl
    obtain ⟨r, hr, hnone⟩ := h.root_live
    cases hr.symm.trans hn
    cases hnone.symm.trans hparent
  rw [hfresh]
  have hne : x ≠ id := (hdetach.back hm).1
  by_cases hx : x = parent
  · subst hx
    cases hat.symm.trans hm
    refine ⟨h.old x above habove, (h.nodup x above habove).erase id, fun c hc => ?_,
      (h.measured x above habove).congr rfl rfl rfl⟩
    obtain ⟨hcid, hc⟩ := (h.nodup x above habove).mem_erase_iff.mp hc
    exact hchild x above habove c hc hcid
  · rw [hdetach.others x hx hne] at hm
    refine ⟨h.old x m hm, h.nodup x m hm, fun c hc => hchild x m hm c hc ?_, h.measured x m hm⟩
    -- the freed node is a child of its parent only
    rintro rfl
    obtain ⟨k, hk, hp⟩ := h.linked x m hm c hc
    cases hk.symm.trans hn
    exact hx (some.inj (hp.symm.trans hparent))

section
variable {path : List UInt8} {id : Nat} {n : Node}

lemma removeRoute_inner (hparse : parsePath zrex shrink rounds .lookup t path = .ok (some id, t'))
    (hn : t.nodes id = some n) (hend : n.endpoint = true) (hchildren : n.children ≠ []) :
    ∃ t2, removeRoute zrex shrink rounds t path = .ok (0, t2) ∧ t2.delimiter = t.delimiter ∧
      t2.fresh = t.fresh ∧ t2.nodes = update t.nodes id (some { n with
        endpoint := false, data := if n.destroys then none else n.data }) := by
  obtain ⟨⟨params, rfl⟩, -⟩ := parsePath_lookup hparse
  have hnode : ({ t with params := params } : Ztrie).node id = .ok n := node_eq_ok.mpr hn
  refine ⟨(({ t with params := params } : Ztrie).setNode id { n with
    endpoint := false, data := if n.destroys then none else n.data }).destroyData n, ?_, rfl, rfl, rfl⟩
  rw [removeRoute, hparse, ok_bind]
  dsimp only
  rw [hnode, ok_bind, if_pos hend, if_pos (length_pos_iff.mpr hchildren)]
  rfl

lemma removeRoute_leaf (hshape : Shape t)
    (hparse : parsePath zrex shrink rounds .lookup t path = .ok (some id, t'))
    (hn : t.nodes id = some n) (hend : n.endpoint = true) (hleaf : n.children = [])
    (hroot : id ≠ root) :
    ∃ q t2, removeRoute zrex shrink rounds t path = .ok (0, t2) ∧ t2.delimiter = t.delimiter ∧
      t2.fresh = t.fresh ∧ Detaches t t2 q id := by
  obtain ⟨⟨params, rfl⟩, hnamed⟩ := parsePath_lookup hparse
  rcases hnamed id rfl with rfl | ⟨q, above, token, len, habove, hcompare⟩
  · exact absurd rfl hroot
  have hmem := mem_of_compareToken hcompare
  obtain ⟨m, hm, hparent⟩ := hshape.linked q above habove id hmem
  cases hm.symm.trans hn
  have hne : q ≠ id := by
    rintro rfl
    cases hn.symm.trans habove
    rw [hleaf] at hmem
    cases hmem
  have hnode : ({ t with params := params } : Ztrie).node id = .ok n := node_eq_ok.mpr hn
  have hnode' : ({ t with params := params } : Ztrie).node q = .ok above := node_eq_ok.mpr habove
  have hfind : findChild { t with params := params } n above.children = .ok (some id) :=
    findChild_of_compareToken hn (.trans (compareToken_congr (by rfl) ..) hcompare)
  refine ⟨q, ({ t with
    params := params
    nodes := update (update t.nodes q
      (some { above with children := above.children.erase id })) id none } : Ztrie).destroyData n,
    ?_, rfl, rfl, ⟨above, habove, hmem, ?_⟩, ⟨n, hn, hparent, hleaf⟩, update_self .., ?_⟩
  · rw [removeRoute, hparse, ok_bind]
    dsimp only
    rw [hnode, ok_bind, if_pos hend, if_neg (by rw [hleaf]; exact Nat.lt_irrefl 0), hparent]
    dsimp only
    rw [hnode', ok_bind, hfind]
    rfl
  · exact (update_of_ne hne ..).trans (update_self ..)
  · exact fun x hxq hx => (update_of_ne hx ..).trans (update_of_ne hxq ..)

lemma removeRoute_cases (hshape : Shape t) {rc : Int}
    (h : removeRoute zrex shrink rounds t path = .ok (rc, t')) :
    SameLinks t t' ∨ t'.fresh = t.fresh ∧ ∃ parent id, Detaches t t' parent id := by
  obtain ⟨⟨found, t1⟩, hparse, hrest⟩ := bind_eq_ok.mp h
  obtain ⟨⟨params, ht1⟩, -⟩ := parsePath_lookup hparse
  cases found with
  | none =>
    cases hrest
    exact .inl (.of_nodes (ht1 ▸ rfl) (ht1 ▸ rfl))
  | some id =>
    obtain ⟨n, hn, hend⟩ := bind_eq_ok.mp hrest
    rw [node_eq_ok, ht1] at hn
    cases hendpoint : n.endpoint with
    | false =>
      rw [hendpoint] at hend
      cases hend
      exact .inl (.of_nodes (ht1 ▸ rfl) (ht1 ▸ rfl))
    | true =>
      by_cases hchildren : n.children = []
      · have hroot : id ≠ root := by
          rintro rfl
          obtain ⟨r, hr, hnone⟩ := hshape.root_live
          cases hr.symm.trans hn
          rw [if_pos hendpoint, if_neg (by simp [hchildren]), hnone] at hend
          cases hend
        obtain ⟨q, t2, hremove, -, hfresh, hdetach⟩ :=
          removeRoute_leaf hshape hparse hn hendpoint hchildren hroot
        cases h.symm.trans hremove
        exact .inr ⟨hfresh, q, id, hdetach⟩
      · obtain ⟨t2, hremove, -, hfresh, hnodes⟩ := removeRoute_inner hparse hn hendpoint hchildren
        cases h.symm.trans hremove
        have hset : SameLinks t (t.setNode id { n with
          endpoint := false, data := if n.destroys then none else n.data }) := .setNode hn rfl
        refine .inl ⟨fun x => ?_, hfresh⟩
        rw [hnodes]
        exact hset.links x

end

lemma nodes_new {delimiter : UInt8} (hn : (new delimiter).nodes id = some n) :
    id = root ∧ n = nodeInit [] 0 [] .string := by
  by_cases hid : id = root
  · subst hid
    exact ⟨rfl, (some.inj hn).symm⟩
  · replace hn : update (fun _ => none) root (some (nodeInit [] 0 [] .string)) id = some n := hn
    rw [update_of_ne hid] at hn
    cases hn

lemma shape_new (delimiter : UInt8) : Shape (new delimiter) := by
  refine .of_nodes ⟨_, rfl, rfl⟩ fun id n hn => ?_
  obtain ⟨rfl, rfl⟩ := nodes_new hn
  exact ⟨Nat.lt_succ_self root, nodup_nil, nofun, fun _ => rfl, fun _ hneg => absurd hneg (lt_irrefl 0)⟩

inductive Call where
  | insertRoute (path : List UInt8) (data : Option Nat) (destroys : Bool)
  | removeRoute (path : List UInt8)
  | matches (path : List UInt8)
  deriving DecidableEq

def step (zrex : Zrex) (shrink : Nat → Nat) (rounds : Nat) (t : Ztrie) :
    Call → Except Fault (Int × Ztrie)
  | .insertRoute path data destroys => insertRoute zrex shrink rounds t path data destroys
  | .removeRoute path => removeRoute zrex shrink rounds t path
  | .matches path => do
    let (found, t) ← Ztrie.matches zrex shrink rounds t path
    pure (if found then 1 else 0, t)

lemma step_cases (hshape : Shape t) {call : Call} {rc : Int}
    (hx : step zrex shrink rounds t call = .ok (rc, t')) :
    (∃ mode path x, parsePath zrex shrink rounds mode t path = .ok x ∧ SameLinks x.2 t') ∨
      SameLinks t t' ∨ t'.fresh = t.fresh ∧ ∃ parent id, Detaches t t' parent id := by
  cases call with
  | insertRoute path data destroys =>
    obtain ⟨⟨found, t1⟩, hparse, hrest⟩ := bind_eq_ok.mp hx
    refine .inl ⟨_, _, _, hparse, ?_⟩
    cases found with
    | none =>
      cases hrest
      exact .of_nodes rfl rfl
    | some id =>
      obtain ⟨n, hn, hset⟩ := bind_eq_ok.mp hrest
      split at hset
      · cases hset
        exact .of_nodes rfl rfl
      · cases hset
        exact .setNode (node_eq_ok.mp hn) rfl
  | removeRoute path => exact .inr (removeRoute_cases hshape hx)
  | «matches» path =>
    obtain ⟨⟨found, t1⟩, hmatch, hrest⟩ := bind_eq_ok.mp hx
    obtain ⟨⟨r, t2⟩, hparse, hlast⟩ := bind_eq_ok.mp hmatch
    cases hrest
    cases hlast
    exact .inl ⟨_, _, _, hparse, .of_nodes rfl rfl⟩

lemma step_keeps (hshrink : Comb.Shrinks shrink) {inv : Ztrie → Prop}
    (hshape : ∀ {t}, inv t → Shape t) (hlinks : ∀ {t t'}, inv t → SameLinks t t' → inv t')
    (hattach : ∀ {t t' id new}, inv t → new.Measured → Attaches t t' id new → inv t')
    (hdetach : ∀ {t t' parent id}, inv t → Detaches t t' parent id → t'.fresh = t.fresh → inv t')
    (h : inv t) {call : Call} {rc : Int} (hx : step zrex shrink rounds t call = .ok (rc, t')) :
    inv t' := by
  rcases step_cases (hshape h) hx with
    ⟨mode, path, x, hparse, hsame⟩ | hsame | ⟨hfresh, parent, id, hfreed⟩
  · refine hlinks (parsePath_inv inv (fun h hs => hlinks h hs.sameLinks)
      (fun h hfits hnew => ?_) h hparse) hsame
    obtain ⟨-, token, htoken, hattaches⟩ := attaches_of_nodeNew hshrink (hshape h) hnew
    exact hattach h (hfits.measured htoken rfl rfl rfl) hattaches
  · exact hlinks h hsame
  · exact hdetach h hfreed hfresh

lemma Shape.step (hshrink : Comb.Shrinks shrink) (h : Shape t) {call : Call}
    {rc : Int} (hx : step zrex shrink rounds t call = .ok (rc, t')) : Shape t' :=
  step_keeps hshrink id Shape.of_links (fun h hnew hattach => h.attach hnew hattach)
    (fun h hdetach hfresh => h.detach hdetach hfresh) h hx

end Czmq.Ztrie
