import Czmq.Ztrie.Matching
import Mathlib.Data.List.Find

/-! What a match answers, read off the trie: the first child that takes each token, whatever the
match writes to the nodes on its way. -/

namespace Czmq.Ztrie

open List Option Bytes Node

variable {zrex : Zrex} {shrink : Nat → Nat} {rounds : Nat} {t t' : Ztrie}

/-- There is a parameter for each group, or for the whole match if there is none. -/
def Node.CapturesFit (zrex : Zrex) (n : Node) (token : List UInt8) : Prop :=
  n.tokenType = .param → max 1 ((zrex.hits n.token token).length - 1) ≤ n.parameterValues.length

/-! ## Captures -/

structure Alike (t t' : Ztrie) : Prop extends Same t t' where
  sized : ∀ id, (t'.nodes id).map (fun n => n.parameterValues.length) =
    (t.nodes id).map fun n => n.parameterValues.length

lemma Alike.refl (t : Ztrie) : Alike t t := ⟨.refl t, fun _ => rfl⟩

variable {id : Nat} {n n' : Node}

lemma Alike.setNode (hn : t.nodes id = some n) (hbare : n'.bare = n.bare)
    (hlen : n'.parameterValues.length = n.parameterValues.length) : Alike t (t.setNode id n') := by
  exact ⟨.setNode hn hbare, map_setNode _ hn hlen⟩

lemma Alike.exists (h : Alike t t') (hn : t.nodes id = some n) :
    ∃ n', t'.nodes id = some n' ∧ n'.bare = n.bare ∧
      n'.parameterValues.length = n.parameterValues.length := by
  obtain ⟨n', hn', hbare⟩ := h.toSame.exists hn
  have hsized := h.sized id
  rw [hn, hn'] at hsized
  exact ⟨n', hn', hbare, some.inj hsized⟩

lemma foldlM_updateParam (hits : List (List UInt8)) {k : Nat}
    (hk : 0 < k) (hfit : hits.length + k ≤ n.parameterValues.length + 1) :
    ∃ n', (hits.zipIdx k).foldlM (fun self x => self.updateParam x.2 x.1) n = .ok n' ∧
      n'.parameterValues.length = n.parameterValues.length := by
  induction hits generalizing k n with
  | nil => exact ⟨n, rfl, rfl⟩
  | cons hit hits ih =>
    rw [length_cons] at hfit
    have hset : n.updateParam k hit =
        .ok { n with parameterValues := n.parameterValues.set (k - 1) (some hit) } := by
      rw [updateParam, if_pos (by omega)]
    obtain ⟨n', hn', hlen⟩ := ih
      (n := { n with parameterValues := n.parameterValues.set (k - 1) (some hit) }) k.succ_pos
      (by rw [length_set]; omega)
    refine ⟨n', ?_, hlen.trans (length_set ..)⟩
    rw [zipIdx_cons, foldlM_cons, hset]
    exact hn'

lemma capture_of_fit {hits : List (List UInt8)}
    (hfit : max 1 (hits.length - 1) ≤ n.parameterValues.length) :
    ∃ n', n.capture hits = .ok n' ∧ n'.parameterValues.length = n.parameterValues.length := by
  unfold capture
  split
  · next hit =>
    refine ⟨{ n with parameterValues := n.parameterValues.set 0 (some hit) }, ?_, length_set ..⟩
    rw [updateParam, if_pos (by omega)]
  · exact foldlM_updateParam _ Nat.one_pos (by rw [length_tail]; omega)

lemma Alike.symm (h : Alike t t') : Alike t' t := ⟨h.toSame.symm, fun id => (h.sized id).symm⟩

lemma Alike.params (h : Alike t t') (params : List (List UInt8)) :
    Alike t { t' with params := params } := ⟨h.toSame.trans (.params t' params), h.sized⟩

lemma le_of_updateParam {pos : Nat} {value : List UInt8} (h : n.updateParam pos value = .ok n') :
    pos - 1 < n.parameterValues.length ∧ n'.parameterValues.length = n.parameterValues.length := by
  rw [updateParam] at h
  split at h
  · next hlt =>
    cases h
    exact ⟨hlt, length_set ..⟩
  · cases h

lemma length_le_of_foldlM_updateParam (hits : List (List UInt8)) {k : Nat} (hk : 0 < k)
    (h : (hits.zipIdx k).foldlM (fun self x => self.updateParam x.2 x.1) n = .ok n')
    (hne : hits ≠ []) : hits.length + k ≤ n.parameterValues.length + 1 := by
  induction hits generalizing k n with
  | nil => exact absurd rfl hne
  | cons hit hits ih =>
    obtain ⟨n1, hn1, hrest⟩ := bind_eq_ok.mp h
    obtain ⟨hlt, hlen⟩ := le_of_updateParam hn1
    rw [length_cons]
    by_cases hnil : hits = []
    · rw [hnil, length_nil]
      omega
    · have hle := ih k.succ_pos hrest hnil
      omega

def cut (text : List UInt8) (size : Nat) : List UInt8 :=
  if text.length < size then text.take (text.length - 1) else text.take size

lemma strndup_eq_cut {text : List UInt8} (h : text ≠ []) (size : Nat) :
    strndup text size = .ok (cut text size) := by
  rw [strndup, cut]
  split <;> rfl

/-- A child takes a token of the text: the test of `s_ztrie_matches_token`. -/
def Node.Takes (zrex : Zrex) (n : Node) (text : List UInt8) (len : Int) : Prop :=
  match n.tokenType with
  | .string => text.head? = n.token.head? ∧ n.tokenLen = len ∧
      strncmpEq n.token text (sizeT (minLen n.tokenLen len)) = true
  | .regex | .param => zrex.hits n.token (cut text (sizeT len)) ≠ []
  | .asterisk => True

instance (zrex : Zrex) (n : Node) (text : List UInt8) (len : Int) :
    Decidable (n.Takes zrex text len) := by
  unfold Takes
  cases n.tokenType <;> infer_instance

section
variable {text : List UInt8} {len : Int} {id : Nat} {n : Node}

lemma childMatches_of_takes (htext : text ≠ []) (hid : t.nodes id = some n)
    (htakes : n.Takes zrex text len) (hfit : n.CapturesFit zrex (cut text (sizeT len))) :
    ∃ t1, childMatches zrex t text len id n = .ok (some t1) ∧ Alike t t1 := by
  rw [Takes] at htakes
  rw [childMatches]
  split at htakes
  · next htype =>
    rw [htype]
    exact ⟨t, if_pos htakes, .refl t⟩
  · next htype =>
    rw [htype]
    rw [strndup_eq_cut htext, ok_bind, if_neg htakes]
    exact ⟨t, rfl, .refl t⟩
  · next htype =>
    obtain ⟨n', hn', hlen⟩ := capture_of_fit (hfit htype)
    rw [htype]
    simp only
    rw [strndup_eq_cut htext, ok_bind, if_neg htakes, hn']
    exact ⟨_, rfl, .setNode hid (bare_of_capture hn') hlen⟩
  · next htype =>
    simp only [htype]
    exact ⟨_, rfl, .setNode hid (by simp [bare, htype]) rfl⟩

lemma childMatches_of_not_takes (htext : text ≠ []) (hnot : ¬n.Takes zrex text len) :
    childMatches zrex t text len id n = .ok none := by
  rw [Takes] at hnot
  rw [childMatches]
  split at hnot
  · next htype =>
    rw [htype]
    exact if_neg hnot
  · next htype =>
    rw [htype]
    rw [strndup_eq_cut htext, ok_bind, if_pos (not_not.mp hnot)]
    rfl
  · next htype =>
    rw [htype]
    simp only
    rw [strndup_eq_cut htext, ok_bind, if_pos (not_not.mp hnot)]
    rfl
  · exact absurd trivial hnot

lemma capturesFit_of_childMatches (htext : text ≠ []) (htakes : n.Takes zrex text len)
    {x : Option Ztrie} (h : childMatches zrex t text len id n = .ok x) :
    n.CapturesFit zrex (cut text (sizeT len)) := by
  intro htype
  rw [Takes, htype] at htakes
  rw [childMatches, htype] at h
  simp only at h
  rw [strndup_eq_cut htext, ok_bind, if_neg htakes] at h
  obtain ⟨n', hn', -⟩ := bind_eq_ok.mp h
  change zrex.hits n.token (cut text (sizeT len)) ≠ [] at htakes
  generalize zrex.hits n.token (cut text (sizeT len)) = hits at htakes hn' ⊢
  unfold capture at hn'
  split at hn'
  · have hlt := (le_of_updateParam hn').1
    rw [length_singleton]
    omega
  · next hmany =>
    obtain ⟨hit, rest, rfl⟩ := exists_cons_of_ne_nil htakes
    have hrest : rest ≠ [] := by
      rintro rfl
      exact hmany hit rfl
    have hpos := length_pos_iff.mpr hrest
    have hle := length_le_of_foldlM_updateParam rest Nat.one_pos hn' hrest
    rw [length_cons]
    omega

end

/-! ## Tokens that an `int` can count -/

lemma minLen_self (x : Int) : minLen x x = x := by
  rw [minLen, sub_self, if_neg (lt_irrefl 0), Int.add_zero]

lemma strncmpEq_iff {s token suffix : List UInt8} (hshort : token.length ≤ intMax)
    (hlen : s.length = token.length) :
    strncmpEq s (token ++ suffix) (sizeT (minLen token.length token.length)) = true ↔
      s = token := by
  have hlt : token.length < 2 ^ 31 := Nat.lt_succ_of_le hshort
  rw [minLen_self, sizeT_of_nonneg (Int.natCast_nonneg _) (by omega), Int.toNat_natCast, strncmpEq,
    beq_iff_eq, take_left, ← hlen, take_length]

lemma cut_token {token suffix : List UInt8} (hshort : token.length ≤ intMax) :
    cut (token ++ suffix) (sizeT token.length) = token := by
  have hlt : token.length < 2 ^ 31 := Nat.lt_succ_of_le hshort
  rw [cut, sizeT_of_nonneg (Int.natCast_nonneg _) (by omega), Int.toNat_natCast, if_neg (by simp),
    take_left]

section
variable {n : Node} {token suffix : List UInt8} (hn : n.Measured)
include hn

lemma Node.covers_of_takes (hshort : token.length ≤ intMax)
    (h : n.Takes zrex (token ++ suffix) token.length) :
    n.tokenType = .asterisk ∨ n.Covers zrex token := by
  cases htype : n.tokenType with
  | string =>
    simp only [Takes, htype] at h
    obtain ⟨-, hlen, hcmp⟩ := h
    have hlength : n.token.length = token.length := by
      have heq := hn.length_eq (hlen ▸ Int.natCast_nonneg _)
      omega
    rw [hlen, strncmpEq_iff hshort hlength] at hcmp
    exact .inr (by simpa only [Covers, htype] using hcmp)
  | regex | param =>
    simp only [Takes, cut_token hshort] at h
    exact .inr (by simpa only [Covers, htype] using h)
  | asterisk => exact .inl rfl

lemma Node.takes_of_covers (hne : token ≠ []) (hshort : token.length < intMax)
    (h : n.Covers zrex token) : n.Takes zrex (token ++ suffix) token.length := by
  cases htype : n.tokenType with
  | string =>
    simp only [Covers, htype] at h
    -- a stored length that is negative would be that of a longer token
    have hlen : n.tokenLen = token.length := by
      by_cases hneg : n.tokenLen < 0
      · have hlong := hn.long htype hneg
        rw [h] at hlong
        omega
      · rw [← hn.length_eq (by omega), h]
    simp only [Takes, htype, hlen]
    refine ⟨?_, trivial, (strncmpEq_iff hshort.le (congrArg length h)).mpr h⟩
    rw [h, head?_append_of_ne_nil _ hne]
  | regex | param =>
    simp only [Covers] at h
    simpa only [Takes, htype, cut_token hshort.le] using h
  | asterisk => simp only [Covers, htype] at h

end

def takesAt (zrex : Zrex) (t : Ztrie) (text : List UInt8) (len : Int) (id : Nat) : Bool :=
  match t.nodes id with
  | some n => decide (n.Takes zrex text len)
  | none => false

section
variable {text : List UInt8} {len : Int} {ids : List Nat}

lemma takesAt_iff {id : Nat} :
    takesAt zrex t text len id = true ↔ ∃ n, t.nodes id = some n ∧ n.Takes zrex text len := by
  rw [takesAt]
  cases t.nodes id with
  | none => simp
  | some n => simp

lemma matchesToken_eq (htext : text ≠ []) (hlive : ∀ c ∈ ids, ∃ n, t.nodes c = some n) :
    matchesToken zrex t text len ids = (match ids.find? (takesAt zrex t text len) with
      | none => .ok (none, t)
      | some c => do
        let child ← t.node c
        let taken ← childMatches zrex t text len c child
        pure (some c, taken.getD t)) := by
  induction ids with
  | nil => rfl
  | cons c ids ih =>
    rw [forall_mem_cons] at hlive
    obtain ⟨n, hn⟩ := hlive.1
    rw [matchesToken, node_eq_ok.mpr hn, ok_bind, find?_cons]
    by_cases htakes : n.Takes zrex text len
    · rw [takesAt_iff.mpr ⟨n, hn, htakes⟩]
      dsimp only
      rw [node_eq_ok.mpr hn, ok_bind]
      cases htaken : childMatches zrex t text len c n with
      | error e => rfl
      | ok taken =>
        have hfit := capturesFit_of_childMatches htext htakes htaken
        obtain ⟨t1, ht1, -⟩ := childMatches_of_takes htext hn htakes hfit
        cases htaken.symm.trans ht1
        rfl
    · have hfalse : takesAt zrex t text len c = false := by
        rw [takesAt, hn]
        exact decide_eq_false htakes
      rw [hfalse, childMatches_of_not_takes htext htakes]
      exact ih hlive.2

end

/-- The scanner gives up at a token: its length is cut to none, or it is last and begins as an
asterisk does. -/
def Stops (token : List UInt8) (rest : List (List UInt8)) : Prop :=
  int32 token.length = 0 ∨ rest = [] ∧ token.head? = some star

def Answers (zrex : Zrex) (path : List UInt8) (t : Ztrie) :
    Nat → Nat → List (List UInt8) → Bool → Prop
  | id, _, [], b => ∃ n, t.nodes id = some n ∧ n.endpoint = b
  | id, start, token :: rest, b => ∃ above, t.nodes id = some above ∧
    (Stops token rest → b = false) ∧
    (¬Stops token rest → match above.children.find?
        (takesAt zrex t (path.drop start) (int32 token.length)) with
      | none => b = false
      | some c => ∃ n, t.nodes c = some n ∧
        n.CapturesFit zrex (cut (path.drop start) (sizeT (int32 token.length))) ∧
        (n.tokenType = .asterisk → n.endpoint = b) ∧
        (n.tokenType ≠ .asterisk → Answers zrex path t c (start + token.length + 1) rest b))

/-! ## Tries that differ in nodes without a route -/

section
variable {dead dead' : Nat → Prop}

lemma Node.takes_of_core {n n' : Node} (h : n'.core = n.core) (text : List UInt8) (len : Int) :
    n'.Takes zrex text len ↔ n.Takes zrex text len := by
  obtain ⟨htoken, htype, hlen, -, -⟩ := fields_of_core h
  rw [Takes, Takes, htoken, htype, hlen]

def NextAlike (dead dead' : Nat → Prop) (found found' : Option Nat) : Prop :=
  (∃ c, found = some c ∧ found' = some c ∧ ¬dead c) ∨
    (∀ c ∈ found, dead c) ∧ ∀ c ∈ found', dead' c

/-- Dead nodes of one of two tries lead to no endpoint there; the others are the same in both, with
the same children but for those. -/
structure Prunes (zrex : Zrex) (t t' : Ztrie) (dead dead' : Nat → Prop) : Prop where
  live : ∀ id n, t.nodes id = some n → ¬dead id → ∃ n', t'.nodes id = some n' ∧ n'.core = n.core ∧
    ∀ text len, NextAlike dead dead' (n.children.find? (takesAt zrex t text len))
      (n'.children.find? (takesAt zrex t' text len))
  barren : ∀ id n, t.nodes id = some n → dead id → n.endpoint = false ∧ ∀ c ∈ n.children, dead c
  barren' : ∀ id n, t'.nodes id = some n → dead' id →
    n.endpoint = false ∧ (∀ c ∈ n.children, dead' c) ∧ ∀ token, n.CapturesFit zrex token

variable {path : List UInt8} {tokens : List (List UInt8)} {start : Nat}

lemma Prunes.eq_false_of_dead (h : Prunes zrex t t' dead dead')
    {id : Nat} {b : Bool} (hdead : dead id)
    (hanswers : Answers zrex path t id start tokens b) : b = false := by
  induction tokens generalizing id start with
  | nil =>
    obtain ⟨n, hn, rfl⟩ := hanswers
    exact (h.barren id n hn hdead).1
  | cons token rest ih =>
    obtain ⟨above, habove, hstops, hgo⟩ := hanswers
    by_cases hstop : Stops token rest
    · exact hstops hstop
    · have hgo := hgo hstop
      cases hfind : above.children.find? (takesAt zrex t (path.drop start)
          (int32 token.length)) with
      | none =>
        rw [hfind] at hgo
        exact hgo
      | some c =>
        rw [hfind] at hgo
        obtain ⟨n, hn, -, hasterisk, hother⟩ := hgo
        have hc : dead c := (h.barren id above habove hdead).2 c (mem_of_find?_eq_some hfind)
        by_cases hstar : n.tokenType = .asterisk
        · rw [← hasterisk hstar]
          exact (h.barren c n hn hc).1
        · exact ih hc (hother hstar)

lemma Prunes.answers_of_dead (h : Prunes zrex t t' dead dead')
    {id : Nat} {n : Node} (hn : t'.nodes id = some n)
    (hdead : dead' id) : Answers zrex path t' id start tokens false := by
  induction tokens generalizing id start n with
  | nil => exact ⟨n, hn, (h.barren' id n hn hdead).1⟩
  | cons token rest ih =>
    refine ⟨n, hn, fun _ => rfl, fun _ => ?_⟩
    cases hfind : n.children.find? (takesAt zrex t' (path.drop start)
        (int32 token.length)) with
    | none => rfl
    | some c =>
      have hc : dead' c := (h.barren' id n hn hdead).2.1 c (mem_of_find?_eq_some hfind)
      obtain ⟨m, hm, -⟩ := takesAt_iff.mp (find?_some hfind)
      obtain ⟨hend, -, hfit⟩ := h.barren' c m hm hc
      exact ⟨m, hm, hfit _, fun _ => hend, fun _ => ih hm hc⟩

lemma Prunes.answers (h : Prunes zrex t t' dead dead') {id : Nat} {b : Bool} (hlive : ¬dead id)
    (hanswers : Answers zrex path t id start tokens b) :
    Answers zrex path t' id start tokens b := by
  induction tokens generalizing id start with
  | nil =>
    obtain ⟨n, hn, hend⟩ := hanswers
    obtain ⟨n', hn', hcore, -⟩ := h.live id n hn hlive
    obtain ⟨-, -, -, hendpoint, -⟩ := fields_of_core hcore
    exact ⟨n', hn', hendpoint.trans hend⟩
  | cons token rest ih =>
    obtain ⟨above, habove, hstops, hgo⟩ := hanswers
    obtain ⟨above', habove', -, hnext⟩ := h.live id above habove hlive
    refine ⟨above', habove', hstops, fun hstop => ?_⟩
    have hgo := hgo hstop
    rcases hnext (path.drop start) (int32 token.length) with
      ⟨c, hfind, hfind', hc⟩ | ⟨hfound, hfound'⟩
    · rw [hfind] at hgo
      obtain ⟨n, hn, hfit, hasterisk, hother⟩ := hgo
      obtain ⟨n', hn', hcore, -⟩ := h.live c n hn hc
      obtain ⟨htoken, htype, -, hendpoint, hsize⟩ := fields_of_core hcore
      rw [hfind']
      refine ⟨n', hn', ?_, ?_, ?_⟩
      · rw [CapturesFit, htype, htoken, hsize]
        exact hfit
      · rw [htype, hendpoint]
        exact hasterisk
      · rw [htype]
        exact fun hstar => ih hc (hother hstar)
    · -- whatever is gone to, there is no endpoint
      have hfalse : b = false := by
        cases hfind : above.children.find? (takesAt zrex t (path.drop start)
            (int32 token.length)) with
        | none =>
          rw [hfind] at hgo
          exact hgo
        | some c =>
          rw [hfind] at hgo hfound
          obtain ⟨n, hn, -, hasterisk, hother⟩ := hgo
          by_cases hstar : n.tokenType = .asterisk
          · rw [← hasterisk hstar]
            exact (h.barren c n hn (hfound c rfl)).1
          · exact h.eq_false_of_dead (hfound c rfl) (hother hstar)
      subst hfalse
      cases hfind : above'.children.find? (takesAt zrex t' (path.drop start)
          (int32 token.length)) with
      | none => rfl
      | some c =>
        rw [hfind] at hfound'
        obtain ⟨m, hm, -⟩ := takesAt_iff.mp (find?_some hfind)
        obtain ⟨hend, -, hfit⟩ := h.barren' c m hm (hfound' c rfl)
        exact ⟨m, hm, hfit _, fun _ => hend, fun _ => h.answers_of_dead hm (hfound' c rfl)⟩

lemma Prunes.of_kept (hshape : Shape t) (hkeep : ∀ x m, t.nodes x = some m → ¬dead x →
      ∃ m', t'.nodes x = some m' ∧ m'.core = m.core ∧
        (m'.children = m.children ∧ (∀ c ∈ m.children, ¬dead c) ∨ ∀ text len, (∀ c ∈ m.children, ¬dead c →
            takesAt zrex t' text len c = takesAt zrex t text len c) →
          NextAlike dead dead' (m.children.find? (takesAt zrex t text len))
            (m'.children.find? (takesAt zrex t' text len))))
    (hbarren : ∀ x m, t.nodes x = some m → dead x → m.endpoint = false ∧ ∀ c ∈ m.children, dead c)
    (hbarren' : ∀ x m, t'.nodes x = some m → dead' x →
      m.endpoint = false ∧ (∀ c ∈ m.children, dead' c) ∧ ∀ token, m.CapturesFit zrex token) :
    Prunes zrex t t' dead dead' := by
  refine ⟨fun x m hm hx => ?_, hbarren, hbarren'⟩
  obtain ⟨m', hm', hcore, hnext⟩ := hkeep x m hm hx
  refine ⟨m', hm', hcore, fun text len => ?_⟩
  have htakes : ∀ c ∈ m.children, ¬dead c → takesAt zrex t' text len c = takesAt zrex t text len c := by
    intro c hc hlive
    obtain ⟨k, hk⟩ := hshape.live_children hm c hc
    obtain ⟨k', hk', hcore', -⟩ := hkeep c k hk hlive
    rw [takesAt, takesAt, hk, hk']
    exact decide_eq_decide.mpr (takes_of_core hcore' text len)
  rcases hnext with ⟨hchildren, hlive⟩ | hnext
  · rw [hchildren, find?_congr fun c hc => htakes c hc (hlive c hc)]
    cases hfind : m.children.find? (takesAt zrex t text len) with
    | none => exact .inr ⟨nofun, nofun⟩
    | some c => exact .inl ⟨c, rfl, rfl, hlive c (mem_of_find?_eq_some hfind)⟩
  · exact hnext text len htakes

lemma Prunes.of_same (hshape : Shape t) (hkeep : ∀ x m, t.nodes x = some m →
      ∃ m', t'.nodes x = some m' ∧ m'.core = m.core ∧ m'.children = m.children) :
    Prunes zrex t t' (fun _ => False) fun _ => False := by
  refine .of_kept hshape (fun x m hm _ => ?_) (fun _ _ _ h => h.elim) fun _ _ _ h => h.elim
  obtain ⟨m', hm', hcore, hchildren⟩ := hkeep x m hm
  exact ⟨m', hm', hcore, .inl ⟨hchildren, fun _ _ => id⟩⟩

lemma Answers.of_alike (hshape : Shape t) (halike : Alike t t') {b : Bool}
    (h : Answers zrex path t id start tokens b) : Answers zrex path t' id start tokens b := by
  refine (Prunes.of_same hshape fun x m hm => ?_).answers not_false h
  obtain ⟨m', hm', hbare, hsize⟩ := halike.exists hm
  simp only [bare, Node.mk.injEq] at hbare
  obtain ⟨htoken, htype, hlen, -, hendpoint, -, -, -, -, -, hchildren, -⟩ := hbare
  exact ⟨m', hm', by rw [core, core, htoken, htype, hlen, hendpoint, hsize], hchildren⟩

end

variable {path : List UInt8}

lemma endpointAt_eq (hn : t.nodes id = some n) :
    endpointAt t id = .ok (if n.endpoint then some id else none, t) := by
  rw [endpointAt, node_eq_ok.mpr hn]
  rfl

lemma isSome_endpointAt_iff {b : Bool} :
    (∃ r t', endpointAt t id = .ok (r, t') ∧ r.isSome = b) ↔
      ∃ n, t.nodes id = some n ∧ n.endpoint = b := by
  have hsome : ∀ n : Node, (if n.endpoint then some id else none).isSome = n.endpoint := by
    intro n
    cases n.endpoint <;> rfl
  constructor
  · rintro ⟨r, t', h, hb⟩
    obtain ⟨n, hn, -⟩ := bind_eq_ok.mp h
    rw [node_eq_ok] at hn
    rw [endpointAt_eq hn] at h
    cases h
    exact ⟨n, hn, (hsome n).symm.trans hb⟩
  · rintro ⟨n, hn, hb⟩
    exact ⟨_, t, endpointAt_eq hn, (hsome n).trans hb⟩

lemma descent_iff_answers (hshape : Shape t) {tokens : List (List UInt8)}
    {start : Nat} (haligned : Aligned path start tokens) {b : Bool} :
    (∃ r t', descent zrex path t id start tokens = .ok (r, t') ∧ r.isSome = b) ↔
      Answers zrex path t id start tokens b := by
  induction tokens generalizing t id start with
  | nil => exact isSome_endpointAt_iff
  | cons token rest ih =>
    obtain ⟨⟨suffix, hdrop⟩, haligned⟩ := haligned
    rw [descent, Answers]
    cases habove : t.nodes id with
    | none =>
      have herror : t.node id = .error .useAfterFree := by rw [node, habove]
      rw [herror]
      simp
    | some above =>
      rw [node_eq_ok.mpr habove, ok_bind]
      simp only [some.injEq, exists_eq_left']
      by_cases hstop : Stops token rest
      · have hcond : int32 token.length = 0 ∨ rest = [] ∧ token.head? = some star := hstop
        rw [if_pos hcond]
        simp only [hstop, true_imp_iff, not_true_eq_false, false_imp_iff, and_true]
        constructor
        · rintro ⟨r, t', ⟨⟩, rfl⟩
          rfl
        · rintro rfl
          exact ⟨none, t, rfl, rfl⟩
      · have hcond : ¬(int32 token.length = 0 ∨ rest = [] ∧ token.head? = some star) := hstop
        rw [if_neg hcond]
        simp only [hstop, false_imp_iff, not_false_eq_true, true_imp_iff, true_and]
        have htext : path.drop start ≠ [] := by
          rw [hdrop]
          intro hnil
          rw [(append_eq_nil_iff.mp hnil).1] at hstop
          exact hstop (.inl rfl)
        rw [matchesToken_eq htext (hshape.live_children habove)]
        cases hfind : above.children.find? (Ztrie.takesAt zrex t (path.drop start)
            (int32 token.length)) with
        | none =>
          constructor
          · rintro ⟨r, t', ⟨⟩, rfl⟩
            rfl
          · rintro rfl
            exact ⟨none, t, rfl, rfl⟩
        | some c =>
          obtain ⟨n, hn, htakes⟩ := takesAt_iff.mp (find?_some hfind)
          dsimp only
          rw [node_eq_ok.mpr hn, ok_bind, hn]
          simp only [some.injEq, exists_eq_left']
          by_cases hfit : n.CapturesFit zrex
              (cut (path.drop start) (sizeT (int32 token.length)))
          · obtain ⟨t1, ht1, halike⟩ := childMatches_of_takes htext hn htakes hfit
            obtain ⟨n', hn', hbare, -⟩ := halike.exists hn
            obtain ⟨-, htype, hendpoint, -⟩ := fields_of_bare hbare
            rw [ht1, and_iff_right hfit]
            simp only [ok_bind, pure_bind, getD_some]
            rw [node_eq_ok.mpr hn', ok_bind, htype]
            by_cases hstar : n.tokenType = .asterisk
            · rw [if_pos hstar, isSome_endpointAt_iff, hn']
              simp [hendpoint, hstar]
            · have halike1 := halike.params []
              rw [if_neg hstar, ih (hshape.of_same halike1.toSame) haligned]
              simp only [hstar, false_imp_iff, ne_eq, not_false_eq_true, true_imp_iff, true_and]
              exact ⟨fun h => h.of_alike (hshape.of_same halike1.toSame) halike1.symm,
                fun h => h.of_alike hshape halike1⟩
          · -- a capture past the end of the array is no answer
            refine iff_of_false ?_ fun h => hfit h.1
            rintro ⟨r, t', h, -⟩
            obtain ⟨found, hfound, -⟩ := bind_eq_ok.mp h
            obtain ⟨taken, htaken, -⟩ := bind_eq_ok.mp hfound
            exact hfit (capturesFit_of_childMatches htext htakes htaken)

lemma matches_iff_answers (hshape : Shape t) (hpath : path ≠ []) {b : Bool} :
    (∃ t', Ztrie.matches zrex shrink rounds t path = .ok (b, t')) ↔
      Answers zrex path t root (firstToken t.delimiter (trimmed t.delimiter path))
        (tokens t.delimiter path) b := by
  obtain ⟨haligned, hparse⟩ : Aligned path _ (tokens t.delimiter path) ∧
      parsePath zrex shrink rounds .matching t path = _ := parsePath_descent hpath
  have halike : Alike t { t with params := [] } := (Alike.refl t).params []
  have hshape' := hshape.of_same halike.toSame
  have hiff : Answers zrex path t root (firstToken t.delimiter (trimmed t.delimiter path))
      (tokens t.delimiter path) b ↔ Answers zrex path { t with params := [] } root
        (firstToken t.delimiter (trimmed t.delimiter path)) (tokens t.delimiter path) b :=
    ⟨fun h => h.of_alike hshape halike, fun h => h.of_alike hshape' halike.symm⟩
  rw [hiff, ← descent_iff_answers hshape' haligned, Ztrie.matches, hparse]
  constructor
  · rintro ⟨t', h⟩
    obtain ⟨⟨r, t1⟩, hr, hlast⟩ := bind_eq_ok.mp h
    cases hlast
    exact ⟨r, t1, hr, rfl⟩
  · rintro ⟨r, t', hr, rfl⟩
    rw [hr]
    exact ⟨_, rfl⟩

lemma Prunes.matches {dead dead' : Nat → Prop} (h : Prunes zrex t t' dead dead')
    (hshape : Shape t) (hshape' : Shape t') (hdelimiter : t'.delimiter = t.delimiter)
    (hroot : ¬dead root) {b : Bool}
    (hmatch : ∃ u, Ztrie.matches zrex shrink rounds t path = .ok (b, u)) :
    ∃ u, Ztrie.matches zrex shrink rounds t' path = .ok (b, u) := by
  by_cases hpath : path = []
  · subst hpath
    obtain ⟨u, hu⟩ := hmatch
    cases hu
  · rw [matches_iff_answers hshape' hpath, hdelimiter]
    exact h.answers hroot ((matches_iff_answers hshape hpath).mp hmatch)

end Czmq.Ztrie
