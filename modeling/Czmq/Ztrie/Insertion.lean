import Czmq.Ztrie.Walk

/-! An insertion goes down as far as the tokens of the route are there, and adds a chain of new
nodes for the others, by which a lookup finds it again. -/

namespace Czmq.Ztrie

open List Option

variable {zrex : Zrex} {shrink : Nat → Nat} {rounds : Nat} {t t' : Ztrie}

lemma find?_eq_some_of_unique {α : Type} {p : α → Bool} {l : List α} {a : α} (hmem : a ∈ l)
    (hp : p a = true) (hunique : ∀ b ∈ l, p b = true → b = a) : l.find? p = some a := by
  obtain ⟨b, hb⟩ := isSome_iff_exists.mp (find?_isSome.mpr ⟨a, hmem, hp⟩)
  rw [hb, hunique b (mem_of_find?_eq_some hb) (find?_some hb)]

def Rising (t : Ztrie) : Prop := ∀ p n, t.nodes p = some n → ∀ c ∈ n.children, p < c

lemma Rising.of_sub (h : Rising t) (hsub : ∀ id n', t'.nodes id = some n' →
    ∃ n, t.nodes id = some n ∧ ∀ c ∈ n'.children, c ∈ n.children) : Rising t' := by
  intro p n' hn' c hc
  obtain ⟨n, hn, hchildren⟩ := hsub p n' hn'
  exact h p n hn c (hchildren c hc)

lemma Rising.of_links (h : Rising t) (hs : SameLinks t t') : Rising t' := by
  refine h.of_sub fun id n' hn' => ?_
  obtain ⟨n, hn, hlinks⟩ := hs.symm.exists hn'
  exact ⟨n, hn, fun c hc => (Node.fields_of_links hlinks).2.1 ▸ hc⟩

def pieceNode (path : List UInt8) (p : Piece) : Node :=
  nodeInit (cut (path.drop p.1.matchToken) (Bytes.sizeT p.1.matchTokenLen)) p.1.matchTokenLen p.2
    (p.1.matchType p.2)

lemma Rising.attach (h : Rising t) (hshape : Shape t) {id : Nat} {new : Node}
    (hattach : Attaches t t' id new) : Rising t' := by
  obtain ⟨above, children, habove, hat, hperm⟩ := hattach.at_parent
  obtain ⟨n, hn, -, hleaf, -⟩ := hattach.at_new
  intro p m hm c hc
  by_cases hp : p = id
  · subst hp
    cases hat.symm.trans hm
    rcases mem_append.mp (hperm.mem_iff.mp hc) with hc | hc
    · exact h p above habove c hc
    · rw [mem_singleton.mp hc]
      exact hshape.old p above habove
  · by_cases hp' : p = t.fresh
    · subst hp'
      cases hn.symm.trans hm
      rw [hleaf] at hc
      cases hc
    · rw [hattach.others p hp hp'] at hm
      exact h p m hm c hc

structure Grounded (t : Ztrie) : Prop where
  shape : Shape t
  rising : Rising t

lemma Grounded.of_links (h : Grounded t) (hs : SameLinks t t') : Grounded t' :=
  ⟨h.shape.of_links hs, h.rising.of_links hs⟩

lemma Grounded.attach (h : Grounded t) {id : Nat} {new : Node} (hnew : new.Measured)
    (hattach : Attaches t t' id new) : Grounded t' :=
  ⟨h.shape.attach hnew hattach, h.rising.attach h.shape hattach⟩

lemma Rising.detach (h : Rising t) {parent id : Nat} (hdetach : Detaches t t' parent id) :
    Rising t' := by
  refine h.of_sub fun x m hm => ?_
  obtain ⟨-, m', hm', -, hsub⟩ := hdetach.back hm
  exact ⟨m', hm', hsub⟩

lemma Grounded.step (hshrink : Comb.Shrinks shrink) (h : Grounded t)
    {call : Call} {rc : Int} (hx : step zrex shrink rounds t call = .ok (rc, t')) : Grounded t' :=
  step_keeps hshrink Grounded.shape Grounded.of_links (fun h hnew hattach => h.attach hnew hattach)
    (fun h hdetach hfresh => ⟨h.shape.detach hdetach hfresh, h.rising.detach hdetach⟩) h hx

lemma grounded_new (delimiter : UInt8) : Grounded (new delimiter) := by
  refine ⟨shape_new delimiter, fun p n hn c hc => ?_⟩
  obtain ⟨rfl, rfl⟩ := nodes_new hn
  cases hc

/-! ## Tokens of a route that is no asterisk -/

/-- A token that is compared by its text: its length is that of a part of the path, and it is no
asterisk. -/
structure Piece.Plain (path : List UInt8) (stop : Nat) (p : Piece) : Prop where
  nonneg : 0 ≤ p.1.matchTokenLen
  lt : p.1.matchTokenLen < 2 ^ 31
  le : p.1.matchTokenLen ≤ (path.drop p.1.matchToken).length
  star : p.1.needle = stop → path[p.1.matchToken]? ≠ some star

section
variable {path : List UInt8} {stop : Nat}

variable {p : Piece}

lemma Piece.Placed.plain (h : p.Placed stop) (hstop : stop ≤ path.length)
    (hshort : path.length ≤ intMax) (hstar : p.1.needle = stop → path[p.1.matchToken]? ≠ some star) :
    p.Plain path stop := by
  have hneedle := h.needle_le
  have hbegin := h.begin_le
  have hmax : (intMax : Int) = 2 ^ 31 - 1 := by decide
  have hlen : Bytes.int32 (p.1.needle - p.1.matchToken) = (p.1.needle - p.1.matchToken : Nat) :=
    Bytes.int32_of_lt (by omega)
  have hle := p.1.matchTokenLen_le
  refine ⟨?_, p.1.matchTokenLen_lt, ?_, hstar⟩
  · rw [Scan.matchTokenLen]
    split
    · next hsome =>
      have := h.brace hsome
      omega
    · omega
  · rw [length_drop]
    omega

def Node.Names (n : Node) (text : List UInt8) (len : Int) : Prop :=
  n.tokenLen = len ∧ strncmpEq n.token text (Bytes.sizeT (minLen n.tokenLen len)) = true

instance (n : Node) (text : List UInt8) (len : Int) : Decidable (n.Names text len) := by
  unfold Node.Names
  infer_instance

variable {n : Node}

lemma names_pieceNode (h : p.Plain path stop) (hcore : n.core = (pieceNode path p).core) :
    n.Names (path.drop p.1.matchToken) p.1.matchTokenLen := by
  obtain ⟨htoken, -, hlen, -, -⟩ := Node.fields_of_core hcore
  refine ⟨hlen, ?_⟩
  have hle := h.le
  have hnonneg := h.nonneg
  have hlen' : (pieceNode path p).tokenLen = p.1.matchTokenLen := rfl
  have htoken' : (pieceNode path p).token =
      cut (path.drop p.1.matchToken) (Bytes.sizeT p.1.matchTokenLen) := by rw [pieceNode, nodeInit]
  rw [hlen, hlen', minLen_self, htoken, htoken', strncmpEq, beq_iff_eq, cut,
    sizeT_of_nonneg hnonneg h.lt, if_neg (by omega), take_take, min_self]

def namesAt (t : Ztrie) (text : List UInt8) (len : Int) (id : Nat) : Bool :=
  match t.nodes id with
  | some n => decide (n.Names text len)
  | none => false

variable {id : Nat}

lemma namesAt_iff {text : List UInt8} {len : Int} :
    namesAt t text len id = true ↔ ∃ n, t.nodes id = some n ∧ n.Names text len := by
  rw [namesAt]
  cases t.nodes id with
  | none => simp
  | some n => simp

lemma compareToken_eq {text : List UInt8} {len : Int} {ids : List Nat}
    (hlive : ∀ c ∈ ids, ∃ n, t.nodes c = some n) :
    compareToken t text len ids = .ok (ids.find? (namesAt t text len)) := by
  induction ids with
  | nil => rfl
  | cons c ids ih =>
    rw [forall_mem_cons] at hlive
    obtain ⟨n, hn⟩ := hlive.1
    rw [compareToken, node_eq_ok.mpr hn, find?_cons]
    by_cases hnames : n.Names text len
    · rw [namesAt_iff.mpr ⟨n, hn, hnames⟩]
      exact if_pos hnames
    · have hfalse : namesAt t text len c = false := by
        rw [namesAt, hn]
        exact decide_eq_false hnames
      rw [hfalse]
      exact (if_neg hnames).trans (ih hlive.2)

lemma endToken_plain {mode : Mode} (hmode : mode ≠ .matching) (hshape : Shape t)
    (hp : p.Plain path stop) {above : Node} (habove : t.nodes id = some above) :
    endToken zrex shrink rounds mode path stop { t with params := p.2 } { p.1 with parent := id } =
      if p.1.matchTokenLen = 0 then .ok (.inr (none, { t with params := p.2 }))
      else match above.children.find? (namesAt t (path.drop p.1.matchToken) p.1.matchTokenLen) with
        | some c => takeChild mode { t with params := p.2 } { p.1 with parent := id } c
        | none => mismatch zrex shrink rounds mode { t with params := p.2 } { p.1 with parent := id }
            above (path.drop p.1.matchToken) p.1.matchTokenLen (p.1.matchType p.2) := by
  have hnode : ({ t with params := p.2 } : Ztrie).node id = .ok above := node_eq_ok.mpr habove
  have hlen : Scan.matchTokenLen { p.1 with parent := id } = p.1.matchTokenLen := rfl
  have hbegin : Scan.matchToken { p.1 with parent := id } = p.1.matchToken := rfl
  have hnonneg := hp.nonneg
  rw [endToken, hnode, ok_bind, tokenAt, hlen, if_neg (by omega)]
  by_cases hzero : p.1.matchTokenLen = 0
  · rw [if_pos hzero, if_pos hzero]
    rfl
  · rw [if_neg hzero, if_neg hzero, if_neg fun h => hp.star h.1 h.2]
    have hlive : ∀ c ∈ above.children, ∃ n, ({ t with params := p.2 } : Ztrie).nodes c = some n :=
      hshape.live_children habove
    have hfind : findToken zrex mode { t with params := p.2 } (path.drop p.1.matchToken)
        p.1.matchTokenLen above.children = .ok (above.children.find?
          (namesAt t (path.drop p.1.matchToken) p.1.matchTokenLen), { t with params := p.2 }) := by
      rw [findToken, if_neg hmode, compareToken_eq hlive]
      rfl
    change (findToken zrex mode { t with params := p.2 } (path.drop p.1.matchToken)
      p.1.matchTokenLen above.children >>= _) = _
    rw [hfind]
    cases above.children.find? (namesAt t (path.drop p.1.matchToken) p.1.matchTokenLen) <;> rfl

/-! ## The way of a route -/

def childFor (path : List UInt8) (t : Ztrie) (id : Nat) (p : Piece) : Option Nat :=
  (t.nodes id).bind fun above =>
    above.children.find? (namesAt t (path.drop p.1.matchToken) p.1.matchTokenLen)

def isAsterisk (t : Ztrie) (id : Nat) : Bool :=
  match t.nodes id with
  | some n => decide (n.tokenType = .asterisk)
  | none => false

lemma isAsterisk_eq (hn : t.nodes id = some n) :
    isAsterisk t id = decide (n.tokenType = .asterisk) := by rw [isAsterisk, hn]

def branch (path : List UInt8) (t : Ztrie) : Nat → List Piece → Nat × List Piece
  | id, [] => (id, [])
  | id, p :: ps =>
    match childFor path t id p with
    | some c => if isAsterisk t c then (c, []) else branch path t c ps
    | none => (id, p :: ps)

def Finds (path : List UInt8) (t : Ztrie) : Nat → List Piece → Nat → Prop
  | id, [], e => e = id
  | id, p :: ps, e => p.1.matchTokenLen ≠ 0 ∧ ∃ c, childFor path t id p = some c ∧
    (isAsterisk t c = true → e = c) ∧ (isAsterisk t c = false → Finds path t c ps e)

lemma childFor_eq_some {c : Nat} (hshape : Shape t) (h : childFor path t id p = some c) :
    ∃ above n, t.nodes id = some above ∧ c ∈ above.children ∧ t.nodes c = some n ∧
      n.parent = some id ∧
      above.children.find? (namesAt t (path.drop p.1.matchToken) p.1.matchTokenLen) = some c := by
  obtain ⟨above, habove, hfind⟩ := bind_eq_some_iff.mp h
  have hmem := mem_of_find?_eq_some hfind
  obtain ⟨n, hn, hparent⟩ := hshape.linked id above habove c hmem
  exact ⟨above, n, habove, hmem, hn, hparent, hfind⟩

section
variable (hs : SameLinks t t')
include hs

lemma SameLinks.cases (x : Nat) :
    (∃ n n', t.nodes x = some n ∧ t'.nodes x = some n' ∧ n'.links = n.links) ∨
      t.nodes x = none ∧ t'.nodes x = none := by
  cases hn : t.nodes x with
  | none =>
    have hx := hs.links x
    rw [hn, map_none, map_eq_none_iff] at hx
    exact .inr ⟨rfl, hx⟩
  | some n =>
    obtain ⟨n', hn', hlinks⟩ := hs.exists hn
    exact .inl ⟨n, n', rfl, hn', hlinks⟩

lemma SameLinks.namesAt (text : List UInt8) (len : Int) :
    Ztrie.namesAt t' text len = Ztrie.namesAt t text len := by
  funext x
  rw [Ztrie.namesAt, Ztrie.namesAt]
  rcases hs.cases x with ⟨n, n', hn, hn', hlinks⟩ | ⟨hn, hn'⟩
  · obtain ⟨-, -, htoken, -, hlen⟩ := Node.fields_of_links hlinks
    rw [hn, hn']
    simp only [Node.Names, htoken, hlen]
  · rw [hn, hn']

lemma SameLinks.isAsterisk (x : Nat) : Ztrie.isAsterisk t' x = Ztrie.isAsterisk t x := by
  rw [Ztrie.isAsterisk, Ztrie.isAsterisk]
  rcases hs.cases x with ⟨n, n', hn, hn', hlinks⟩ | ⟨hn, hn'⟩
  · rw [hn, hn']
    simp only [(Node.fields_of_links hlinks).2.2.2.1]
  · rw [hn, hn']

lemma SameLinks.childFor (x : Nat) (p : Piece) :
    Ztrie.childFor path t' x p = Ztrie.childFor path t x p := by
  rw [Ztrie.childFor, Ztrie.childFor, hs.namesAt]
  rcases hs.cases x with ⟨n, n', hn, hn', hlinks⟩ | ⟨hn, hn'⟩
  · rw [hn, hn', bind_some, bind_some, (Node.fields_of_links hlinks).2.1]
  · rw [hn, hn']

lemma SameLinks.branch (x : Nat) (ps : List Piece) :
    Ztrie.branch path t' x ps = Ztrie.branch path t x ps := by
  induction ps generalizing x with
  | nil => rfl
  | cons p ps ih =>
    rw [Ztrie.branch, Ztrie.branch, hs.childFor]
    cases Ztrie.childFor path t x p with
    | none => rfl
    | some c =>
      dsimp only
      rw [hs.isAsterisk, ih c]

lemma Finds.of_links {ps : List Piece} {id e : Nat} (h : Finds path t id ps e) :
    Finds path t' id ps e := by
  induction ps generalizing id with
  | nil => exact h
  | cons p ps ih =>
    obtain ⟨hne, c, hc, hasterisk, hother⟩ := h
    rw [← hs.isAsterisk] at hasterisk hother
    exact ⟨hne, c, (hs.childFor id p).trans hc, hasterisk, fun hfalse => ih (hother hfalse)⟩

end

variable {ps : List Piece} {e : Nat}

lemma walk_of_finds (hshape : Shape t) (hplain : ∀ p ∈ ps, p.Plain path stop)
    (hid : t.nodes id = some n) (h : Finds path t id ps e) :
    ∃ params, walk zrex shrink rounds .lookup path stop t id ps =
      .ok (some e, { t with params := params }) := by
  have hmode : Mode.lookup ≠ .matching := nofun
  induction ps generalizing t id n with
  | nil =>
    obtain rfl := h
    refine ⟨t.params, ?_⟩
    rw [walk, node_eq_ok.mpr hid]
    rfl
  | cons p ps ih =>
    rw [forall_mem_cons] at hplain
    obtain ⟨hne, c, hchild, hasterisk, hother⟩ := h
    obtain ⟨above, m, habove, -, hm, -, hfind⟩ := childFor_eq_some hshape hchild
    have hnode : ({ t with params := p.2 } : Ztrie).node c = .ok m := node_eq_ok.mpr hm
    rw [walk, endToken_plain hmode hshape hplain.1 habove, if_neg hne, hfind]
    dsimp only
    rw [takeChild, hnode, ok_bind]
    by_cases hstar : m.tokenType = .asterisk
    · have htrue : isAsterisk t c = true :=
        (isAsterisk_eq hm).trans (decide_eq_true hstar)
      obtain rfl := hasterisk htrue
      rw [if_pos hstar, finish_of_ne hmode, hnode]
      exact ⟨p.2, rfl⟩
    · have hfalse : isAsterisk t c = false :=
        (isAsterisk_eq hm).trans (decide_eq_false hstar)
      have hshape' : Shape { t with params := [] } := hshape.congr rfl rfl
      have hs : SameLinks t { t with params := [] } := .of_nodes rfl rfl
      have hfinds := (hother hfalse).of_links hs
      obtain ⟨params, hwalk⟩ := ih hshape' hplain.2 hm hfinds
      rw [if_neg hstar]
      exact ⟨params, hwalk⟩

/-! ## What an insertion adds -/

/-- New nodes for some tokens below a node, of which only the children change; they have no
endpoint, and each is the parent of the next. -/
structure Grown (path : List UInt8) (t : Ztrie) (w : Nat) (p : Piece) (rest : List Piece) (e : Nat)
    (t' : Ztrie) : Prop where
  e_new : t.fresh ≤ e
  others : ∀ z < t.fresh, z ≠ w → t'.nodes z = t.nodes z
  at_branch : ∃ above children, t.nodes w = some above ∧
    t'.nodes w = some { above with children := children } ∧
    children.Perm (above.children ++ [t.fresh])
  first : ∃ m, t'.nodes t.fresh = some m ∧ m.core = (pieceNode path p).core
  new : ∀ z m, t.fresh ≤ z → t'.nodes z = some m → m.endpoint = false ∧
    (∀ c ∈ m.children, t.fresh ≤ c) ∧
    (z ≠ e → ∃ q ∈ (p :: rest).dropLast, m.core = (pieceNode path q).core)
  last : ∃ m q, t'.nodes e = some m ∧ m.children = [] ∧ m.parent = some q ∧
    (rest = [] → q = w ∧ e = t.fresh) ∧ (rest ≠ [] → t.fresh ≤ q ∧ e ≠ t.fresh)

lemma endpoint_of_core (h : n.core = (pieceNode path p).core) :
    n.endpoint = false := (Node.fields_of_core h).2.2.2.1

lemma isAsterisk_of_core {x : Nat} (hn : t.nodes x = some n)
    (h : n.core = (pieceNode path p).core) : isAsterisk t x = false := by
  obtain ⟨-, htype, -, -, -⟩ := Node.fields_of_core h
  have hmatch : (pieceNode path p).tokenType = p.1.matchType p.2 := rfl
  rw [isAsterisk_eq hn]
  refine decide_eq_false ?_
  rw [htype, hmatch, Scan.matchType]
  split
  · decide
  · split <;> decide

lemma Grown.finds (hg : Grounded t) {rest : List Piece}
    (hp : p.Plain path stop) (hne : p.1.matchTokenLen ≠ 0) (hnone : childFor path t id p = none)
    (h : Grown path t id p rest e t') (hrest : Finds path t' t.fresh rest e) :
    Finds path t' id (p :: rest) e := by
  obtain ⟨above, children, habove, hat, hperm⟩ := h.at_branch
  obtain ⟨m, hm, hcore⟩ := h.first
  rw [childFor, habove, bind_some, find?_eq_none] at hnone
  have hfind : children.find? (namesAt t' (path.drop p.1.matchToken) p.1.matchTokenLen) =
      some t.fresh := by
    refine find?_eq_some_of_unique ?_ (namesAt_iff.mpr ⟨m, hm, names_pieceNode hp hcore⟩) ?_
    · exact hperm.mem_iff.mpr (mem_append_right _ (mem_singleton_self _))
    · intro c hc hnames
      rcases mem_append.mp (hperm.mem_iff.mp hc) with hold | hnew
      · -- an old child would have been found
        obtain ⟨n, hn, -⟩ := hg.shape.linked id above habove c hold
        have hsame := h.others c (hg.shape.old c n hn) (hg.rising id above habove c hold).ne'
        refine absurd ?_ (hnone c hold)
        rwa [namesAt, hsame] at hnames
      · exact mem_singleton.mp hnew
  refine ⟨hne, t.fresh, ?_, fun htrue => ?_, fun _ => hrest⟩
  · rw [childFor, hat]
    exact hfind
  · rw [isAsterisk_of_core hm hcore] at htrue
    cases htrue

lemma walk_insert_cons (hshrink : Comb.Shrinks shrink) (hg : Grounded t)
    (hp : p.Plain path stop)
    (h : walk zrex shrink rounds .insert path stop t id (p :: ps) = .ok (some e, t')) :
    p.1.matchTokenLen ≠ 0 ∧ ((∃ c, childFor path t id p = some c ∧
        (isAsterisk t c = true ∧ e = c ∧ t' = { t with params := p.2 } ∨ isAsterisk t c = false ∧
          walk zrex shrink rounds .insert path stop { t with params := [] } c ps = .ok (some e, t'))) ∨
      childFor path t id p = none ∧ ∃ t1, Attaches t t1 id (pieceNode path p) ∧ Grounded t1 ∧
        walk zrex shrink rounds .insert path stop t1 t.fresh ps = .ok (some e, t')) := by
  have hmode : Mode.insert ≠ .matching := nofun
  obtain ⟨x, hx, hgo⟩ := bind_eq_ok.mp h
  cases habove : t.nodes id with
  | none =>
    have herror : ({ t with params := p.2 } : Ztrie).node id = .error .useAfterFree := by
      change (match t.nodes id with | some n => Except.ok n | none => _) = _
      rw [habove]
    rw [endToken, herror] at hx
    cases hx
  | some above =>
    rw [endToken_plain hmode hg.shape hp habove] at hx
    by_cases hzero : p.1.matchTokenLen = 0
    · rw [if_pos hzero] at hx
      cases hx
      cases hgo
    · rw [if_neg hzero] at hx
      refine ⟨hzero, ?_⟩
      cases hfind : above.children.find?
          (namesAt t (path.drop p.1.matchToken) p.1.matchTokenLen) with
      | some c =>
        have hchild : childFor path t id p = some c := by
          rw [childFor, habove]
          exact hfind
        refine .inl ⟨c, hchild, ?_⟩
        obtain ⟨-, m, -, -, hm, -, -⟩ := childFor_eq_some hg.shape hchild
        have hnode : ({ t with params := p.2 } : Ztrie).node c = .ok m := node_eq_ok.mpr hm
        rw [hfind] at hx
        dsimp only at hx
        rw [takeChild, hnode, ok_bind] at hx
        by_cases hstar : m.tokenType = .asterisk
        · rw [if_pos hstar, finish_of_ne hmode, hnode] at hx
          cases hx
          cases hgo
          refine .inl ⟨?_, rfl, rfl⟩
          exact (isAsterisk_eq hm).trans (decide_eq_true hstar)
        · rw [if_neg hstar] at hx
          cases hx
          refine .inr ⟨?_, hgo⟩
          exact (isAsterisk_eq hm).trans (decide_eq_false hstar)
      | none =>
        have hchild : childFor path t id p = none := by
          rw [childFor, habove]
          exact hfind
        refine .inr ⟨hchild, ?_⟩
        rw [hfind] at hx
        obtain ⟨closed, -, hnew⟩ := bind_eq_ok.mp hx
        split at hnew
        · cases hnew
          cases hgo
        · obtain ⟨⟨c, t1⟩, hnode, hend⟩ := bind_eq_ok.mp hnew
          cases hend
          have hshape : Shape { t with params := p.2 } := hg.shape.congr rfl rfl
          have hfits : Fits (path.drop p.1.matchToken) p.1.matchTokenLen (p.1.matchType p.2) :=
            ⟨by have := hp.nonneg; omega, hp.lt, fun _ => hp.le,
              fun _ hneg => absurd hp.nonneg (not_le.mpr hneg)⟩
          obtain ⟨rfl, token, htoken, hattach⟩ := attaches_of_nodeNew hshrink hshape hnode
          have hmeasured : (nodeInit token p.1.matchTokenLen p.2 (p.1.matchType p.2)).Measured :=
            hfits.measured htoken rfl rfl rfl
          have hnonneg := hp.nonneg
          have hle := hp.le
          rw [strndup_eq_cut (fun hnil => by rw [hnil, length_nil] at hle; omega)] at htoken
          obtain rfl := Except.ok.inj htoken
          have hattach' : Attaches t { t1 with params := [] } id (pieceNode path p) :=
            { hattach with }
          exact ⟨{ t1 with params := [] }, hattach', hg.attach hmeasured hattach', hgo⟩

lemma grown_of_walk (hshrink : Comb.Shrinks shrink) {rest : List Piece}
    (hg : Grounded t) (hplain : ∀ q ∈ p :: rest, q.Plain path stop)
    (hnone : childFor path t id p = none)
    (h : walk zrex shrink rounds .insert path stop t id (p :: rest) = .ok (some e, t')) :
    Grown path t id p rest e t' ∧ Finds path t' id (p :: rest) e := by
  induction rest generalizing t id p with
  | nil =>
    obtain ⟨hne, hfound | ⟨-, t1, hattach, hg1, hwalk⟩⟩ :=
      walk_insert_cons hshrink hg (hplain p mem_cons_self) h
    · obtain ⟨c, hc, -⟩ := hfound
      cases hnone.symm.trans hc
    obtain ⟨m, hm, hcore, hleaf, hparent⟩ := hattach.at_new
    rw [walk, node_eq_ok.mpr hm] at hwalk
    cases hwalk
    have hgrown : Grown path t id p [] t.fresh t' := by
      refine ⟨le_rfl, fun z hz hzw => hattach.others z hzw hz.ne, hattach.at_parent, ⟨m, hm, hcore⟩,
        fun z n hz hn => ?_, m, id, hm, hleaf, hparent, fun _ => ⟨rfl, rfl⟩, fun h => absurd rfl h⟩
      have hlt := hg1.shape.old z n hn
      rw [hattach.fresh] at hlt
      obtain rfl : z = t.fresh := by omega
      obtain rfl : m = n := some.inj (hm.symm.trans hn)
      refine ⟨endpoint_of_core hcore, fun c hc => ?_, fun h => absurd rfl h⟩
      rw [hleaf] at hc
      cases hc
    exact ⟨hgrown, hgrown.finds hg (hplain p mem_cons_self) hne hnone rfl⟩
  | cons p' rest ih =>
    obtain ⟨hne, hfound | ⟨-, t1, hattach, hg1, hwalk⟩⟩ :=
      walk_insert_cons hshrink hg (hplain p mem_cons_self) h
    · obtain ⟨c, hc, -⟩ := hfound
      cases hnone.symm.trans hc
    obtain ⟨m, hm, hcore, hleaf, -⟩ := hattach.at_new
    obtain ⟨above, children, habove, hat, hperm⟩ := hattach.at_parent
    have hold := hg.shape.old id above habove
    have hnone1 : childFor path t1 t.fresh p' = none := by
      rw [childFor, hm, bind_some, hleaf]
      rfl
    obtain ⟨hgrown, hfinds⟩ := ih hg1 (fun q hq => hplain q (mem_cons_of_mem _ hq)) hnone1 hwalk
    have hfresh := hattach.fresh
    have hnew := hgrown.e_new
    obtain ⟨above1, children1, habove1, hat1, hperm1⟩ := hgrown.at_branch
    cases hm.symm.trans habove1
    rw [hleaf] at hperm1
    have hgrown' : Grown path t id p (p' :: rest) e t' := by
      refine ⟨by omega, fun z hz hzw => ?_, ⟨above, children, habove, ?_, hperm⟩, ⟨_, hat1, hcore⟩,
        fun z n hz hn => ?_, ?_⟩
      · rw [hgrown.others z (by omega) hz.ne]
        exact hattach.others z hzw hz.ne
      · rw [hgrown.others id (by omega) hold.ne]
        exact hat
      · by_cases hzf : z = t.fresh
        · subst hzf
          cases hat1.symm.trans hn
          refine ⟨endpoint_of_core hcore, fun c hc => ?_, fun _ => ⟨p, ?_, hcore⟩⟩
          · rw [mem_singleton.mp (hperm1.mem_iff.mp hc)]
            omega
          ·
            exact mem_cons_self
        · obtain ⟨hend, hchildren, hpiece⟩ := hgrown.new z n (by omega) hn
          refine ⟨hend, fun c hc => ?_, fun hze => ?_⟩
          · have := hchildren c hc
            omega
          · obtain ⟨q, hq, hqcore⟩ := hpiece hze
            refine ⟨q, ?_, hqcore⟩
            exact mem_cons_of_mem _ hq
      · obtain ⟨n, q, hn, hnleaf, hparent, hone, hmore⟩ := hgrown.last
        refine ⟨n, q, hn, hnleaf, hparent, fun h => absurd h (cons_ne_nil _ _),
          fun _ => ⟨?_, by omega⟩⟩
        by_cases hrest : rest = []
        · rw [(hone hrest).1]
        · have := (hmore hrest).1
          omega
    exact ⟨hgrown', hgrown'.finds hg (hplain p mem_cons_self) hne hnone hfinds⟩

lemma le_branch (hg : Grounded t) (id : Nat) (ps : List Piece) : id ≤ (branch path t id ps).1 := by
  induction ps generalizing id with
  | nil => exact le_rfl
  | cons p ps ih =>
    rw [branch]
    cases hchild : childFor path t id p with
    | none => exact le_rfl
    | some c =>
      obtain ⟨above, -, habove, hmem, -, -, -⟩ := childFor_eq_some hg.shape hchild
      have hlt := hg.rising id above habove c hmem
      dsimp only
      split
      · exact hlt.le
      · exact hlt.le.trans (ih c)

/-- After an insertion the trie is as before, or grown below the last node of the route that was
there. -/
def InsertedAt (path : List UInt8) (t : Ztrie) (e : Nat) (t' : Ztrie) : Nat × List Piece → Prop
  | (w, []) => e = w ∧ t'.nodes = t.nodes
  | (w, p :: rest) => Grown path t w p rest e t'

lemma walk_insert (hshrink : Comb.Shrinks shrink)
    (hg : Grounded t) (hplain : ∀ p ∈ ps, p.Plain path stop)
    (h : walk zrex shrink rounds .insert path stop t id ps = .ok (some e, t')) :
    InsertedAt path t e t' (branch path t id ps) ∧ Finds path t' id ps e := by
  induction ps generalizing t id with
  | nil =>
    obtain ⟨n, -, hlast⟩ := bind_eq_ok.mp h
    cases hlast
    exact ⟨⟨rfl, rfl⟩, rfl⟩
  | cons p ps ih =>
    obtain ⟨hne, ⟨c, hchild, hcase⟩ | ⟨hnone, -⟩⟩ :=
      walk_insert_cons hshrink hg (hplain p mem_cons_self) h
    · obtain ⟨above, n, habove, hmem, hn, -, hfind⟩ := childFor_eq_some hg.shape hchild
      rw [branch, hchild]
      dsimp only
      rcases hcase with ⟨hstar, rfl, rfl⟩ | ⟨hstar, hwalk⟩
      · have hs : SameLinks t { t with params := p.2 } := .of_nodes rfl rfl
        rw [if_pos hstar]
        refine ⟨⟨rfl, rfl⟩, hne, e, (hs.childFor id p).trans hchild, fun _ => rfl, fun hfalse => ?_⟩
        rw [hs.isAsterisk, hstar] at hfalse
        cases hfalse
      · rw [if_neg (Bool.eq_false_iff.mp hstar)]
        have hs : SameLinks t { t with params := [] } := .of_nodes rfl rfl
        obtain ⟨hinserted, hfinds⟩ :=
          ih (hg.of_links hs) (fun q hq => hplain q (mem_cons_of_mem _ hq)) hwalk
        rw [hs.branch] at hinserted
        have hinserted : InsertedAt path t e t' (branch path t c ps) := by
          generalize branch path t c ps = at_ at hinserted
          obtain ⟨w, rest⟩ := at_
          cases rest with
          | nil => exact hinserted
          | cons q rest =>
            exact { hinserted with }
        -- the node and the tokens of its children are as before
        have hlt := hg.rising id above habove c hmem
        have hle : c ≤ (branch path t c ps).1 := le_branch hg c ps
        have hkeep : t'.nodes id = t.nodes id ∧ ∀ x ∈ above.children, ∀ m, t.nodes x = some m →
            ∃ m', t'.nodes x = some m' ∧ m'.token = m.token ∧ m'.tokenLen = m.tokenLen ∧
              m'.tokenType = m.tokenType := by
          generalize branch path t c ps = at_ at hinserted hle
          obtain ⟨w, rest⟩ := at_
          cases rest with
          | nil =>
            obtain ⟨-, hnodes⟩ := hinserted
            rw [hnodes]
            exact ⟨rfl, fun x _ m hm => ⟨m, hm, rfl, rfl, rfl⟩⟩
          | cons q rest =>
            refine ⟨hinserted.others id (hg.shape.old id above habove) (by omega), fun x _ m hm => ?_⟩
            by_cases hxw : x = w
            · subst hxw
              obtain ⟨above', children', habove', hat, -⟩ := hinserted.at_branch
              cases hm.symm.trans habove'
              exact ⟨_, hat, rfl, rfl, rfl⟩
            · exact ⟨m, (hinserted.others x (hg.shape.old x m hm) hxw).trans hm, rfl, rfl, rfl⟩
        have hnames : ∀ x ∈ above.children, ∀ text len,
            namesAt t' text len x = namesAt t text len x := by
          intro x hx text len
          obtain ⟨m, hm⟩ := hg.shape.live_children habove x hx
          obtain ⟨m', hm', htoken, hlen, -⟩ := hkeep.2 x hx m hm
          rw [namesAt, namesAt, hm, hm']
          simp only [Node.Names, htoken, hlen]
        refine ⟨hinserted, hne, c, ?_, fun htrue => ?_, fun _ => hfinds⟩
        · rw [childFor, hkeep.1, habove, ← hfind]
          exact find?_congr fun x hx => hnames x hx _ _
        · obtain ⟨m', hm', -, -, htype⟩ := hkeep.2 c hmem n hn
          rw [isAsterisk_eq hm', htype, ← isAsterisk_eq hn, hstar] at htrue
          cases htrue
    · rw [branch, hnone]
      exact grown_of_walk hshrink hg hplain hnone h

end

end Czmq.Ztrie
