import Czmq.Zhash.Table

/-! The key in the cursor of a `zhash_t`. Two calls do not look at it: `zhash_rename` frees the key
it may point to, and `zhash_next` leaves it when there is no item left. -/

namespace Czmq.Zhash

open List Machine Buckets

open Bytes

variable {V : Type} {t t' : Zhash V}

/-- Every item is in the bucket of its index field, with its own address and key, and the pointer of
the iterator is to one. -/
structure Sound (t : Zhash V) : Prop where
  length_eq : t.items.length = t.limit
  limit_pos : 0 < t.limit
  placed : Placed (·.index) t.items
  addrs : (t.all.map (·.addr)).Nodup
  keys : (t.all.map (·.key)).Nodup
  cursorItem : ∀ a ∈ t.cursorItem, ∃ it ∈ t.all, it.addr = a

def Live (t : Zhash V) : Prop := ∀ p ∈ t.cursorKey, ∃ it ∈ t.all, it.key = p

def NoneLeft (t : Zhash V) : Op V → Prop
  | .first => t.all = []
  | .next => t.cursorItem = none ∧ ∀ i, t.cursorIndex < i → t.items.getD i [] = []
  | _ => False

/-- A `zhash_next` at the end finds the cursor `NULL`, and no rename that succeeds is of the item at
the cursor, unless the key stays at its address. -/
def Keeps (t : Zhash V) : Op V → Prop
  | .next => NoneLeft t .next → t.cursorKey = none
  | .rename oldKey newKey key => ∀ item ∈ (t.sItemLookup oldKey).1,
      (t.sItemLookup newKey).1 = none → t.cursorKey = some item.key → key = item.key
  | _ => True

lemma sound_new : Sound (new : Zhash V) where
  length_eq := length_replicate ..
  limit_pos := Nat.succ_pos 254
  placed := placed_replicate _ _
  addrs := by simp [all, new]
  keys := by simp [all, new]
  cursorItem _ h := (Option.not_mem_none _ h).elim

lemma Sound.congr (h : Sound t) (hitems : t'.items = t.items) (hlimit : t'.limit = t.limit)
    (hcursor : t'.cursorItem = t.cursorItem) : Sound t' := by
  have hall : t'.all = t.all := by rw [all, hitems]; rfl
  refine ⟨?_, ?_, ?_, ?_, ?_, ?_⟩
  · rw [hitems, hlimit]
    exact h.length_eq
  · rw [hlimit]
    exact h.limit_pos
  · rw [hitems]
    exact h.placed
  · rw [hall]
    exact h.addrs
  · rw [hall]
    exact h.keys
  · rw [hall, hcursor]
    exact h.cursorItem

/-! ## Adding, changing and taking out items -/

lemma sItemHash_lt (key : CString) {limit : Nat} (h : 0 < limit) : sItemHash key limit < limit :=
  Nat.mod_lt _ h

def identity (it : Item V) : Nat × Nat := (it.addr, it.key)

lemma map_addr_identity (l : List (Item V)) : l.map (·.addr) = (l.map identity).map Prod.fst := by
  rw [map_map]
  rfl

lemma map_key_identity (l : List (Item V)) : l.map (·.key) = (l.map identity).map Prod.snd := by
  rw [map_map]
  rfl

lemma Sound.moved (h : Sound t) (hlength : t'.items.length = t'.limit) (hpos : 0 < t'.limit)
    (hplaced : Placed (·.index) t'.items)
    (hperm : (t'.all.map identity).Perm (t.all.map identity)) (hcursor : t'.cursorItem = t.cursorItem) :
    Sound t' := by
  refine ⟨hlength, hpos, hplaced, ?_, ?_, fun a ha => ?_⟩
  · rw [map_addr_identity, (hperm.map Prod.fst).nodup_iff, ← map_addr_identity]
    exact h.addrs
  · rw [map_key_identity, (hperm.map Prod.snd).nodup_iff, ← map_key_identity]
    exact h.keys
  · obtain ⟨it, hit, rfl⟩ := h.cursorItem a (hcursor ▸ ha)
    obtain ⟨it', hit', he⟩ := mem_map.mp (hperm.mem_iff.mpr (mem_map_of_mem hit))
    exact ⟨it', hit', congrArg Prod.fst he⟩

def refile (limit : Nat) (it : Item V) : Item V := { it with index := sItemHash it.text limit }

lemma grow_cases (h : Sound t) (he : t.grow = .ok t') :
    t.overloaded = false ∧ t' = t ∨
      t.overloaded = true ∧ t.limit < 2 ^ 32 ∧ ∃ newItems,
        t' = { t with items := newItems, limit := 2 * t.limit } ∧ newItems.length = 2 * t.limit ∧
          Placed (·.index) newItems ∧
          newItems.flatten.Perm (t.all.map (refile (2 * t.limit))) := by
  unfold grow at he
  split at he
  · next hoverloaded =>
    obtain ⟨newItems, hloop, hpure⟩ := bind_eq_ok.mp he
    cases hpure
    have hlimit := Loop.lt_of_forUint_eq_ok hloop
    have hdouble : t.limit * growthFactor % 2 ^ 64 / 100 = 2 * t.limit := by
      unfold growthFactor
      omega
    have hpos := h.limit_pos
    rw [hdouble] at hloop ⊢
    have hitems : newItems = pushAll (·.index) (refile (2 * t.limit)) t.all
        (replicate (2 * t.limit) []) := by
      rw [Loop.forUint_eq_foldlM _ _ _ hlimit] at hloop
      have hfold := (foldlM_pure ).symm.trans hloop
      rw [pushAll, all, foldl_flatten, ← Zhashx.range_map_getD t.items [],
        foldl_map, h.length_eq]
      exact (Except.ok.inj hfold).symm
    have hperm := flatten_pushAll_perm (·.index) (refile (2 * t.limit)) t.all
      (replicate (2 * t.limit) []) fun it _ => by
        rw [length_replicate]
        exact sItemHash_lt _ (by omega)
    rw [← hitems, flatten_replicate_nil, append_nil] at hperm
    refine .inr ⟨hoverloaded, hlimit, newItems, rfl, ?_, ?_, hperm⟩
    · rw [hitems, length_pushAll, length_replicate]
    · rw [hitems]
      exact (placed_replicate _ _).pushAll _ _
  · next hoverloaded =>
    cases he
    exact .inl ⟨eq_false_of_ne_true hoverloaded, rfl⟩

lemma grow_ok (h : Sound t) (he : t.grow = .ok t') :
    Sound t' ∧ (t'.all.map identity).Perm (t.all.map identity) ∧ t'.cursorKey = t.cursorKey := by
  rcases grow_cases h he with ⟨-, rfl⟩ | ⟨-, -, newItems, rfl, hlength, hplaced, hperm⟩
  · exact ⟨h, Perm.refl _, rfl⟩
  · have hidentity : (newItems.flatten.map identity).Perm (t.all.map identity) := by
      have hmapped := hperm.map identity
      rwa [map_map] at hmapped
    exact ⟨h.moved hlength (Nat.mul_pos two_pos h.limit_pos) hplaced hidentity rfl, hidentity, rfl⟩

lemma Sound.link (h : Sound t) (item : Item V) (hindex : item.index < t.limit)
    (haddr : ∀ it ∈ t.all, it.addr ≠ item.addr) (hkey : ∀ it ∈ t.all, it.key ≠ item.key) :
    Sound (t.link item) ∧ (t.link item).all.Perm (item :: t.all) := by
  have hperm : (t.link item).all.Perm (item :: t.all) :=
    flatten_push_perm (h.length_eq.symm ▸ hindex) item
  refine ⟨⟨?_, h.limit_pos, h.placed.push rfl, ?_, ?_, fun a ha => ?_⟩, hperm⟩
  · rw [Zhash.link, length_push]
    exact h.length_eq
  · rw [(hperm.map _).nodup_iff, map_cons, nodup_cons]
    refine ⟨fun hmem => ?_, h.addrs⟩
    obtain ⟨it, hit, he⟩ := mem_map.mp hmem
    exact haddr it hit he
  · rw [(hperm.map _).nodup_iff, map_cons, nodup_cons]
    refine ⟨fun hmem => ?_, h.keys⟩
    obtain ⟨it, hit, he⟩ := mem_map.mp hmem
    exact hkey it hit he
  · obtain ⟨it, hit, he⟩ := h.cursorItem a ha
    exact ⟨it, hperm.mem_iff.mpr (mem_cons_of_mem _ hit), he⟩

/-- A call keeps the table sound, every key, and the cursor. -/
structure Grows (t t' : Zhash V) : Prop where
  sound : Sound t'
  keys : ∀ it ∈ t.all, ∃ it' ∈ t'.all, it'.key = it.key
  cursorKey : t'.cursorKey = t.cursorKey

lemma Grows.trans {t'' : Zhash V} (h : Grows t t') (h' : Grows t' t'') : Grows t t'' := by
  refine ⟨h'.sound, fun it hit => ?_, h'.cursorKey.trans h.cursorKey⟩
  obtain ⟨it', hit', hkey'⟩ := h.keys it hit
  obtain ⟨it'', hit'', hkey''⟩ := h'.keys it' hit'
  exact ⟨it'', hit'', hkey''.trans hkey'⟩

lemma Grows.live (h : Grows t t') (hlive : Live t) : Live t' := by
  intro p hp
  obtain ⟨it, hit, rfl⟩ := hlive p (h.cursorKey ▸ hp)
  exact h.keys it hit

lemma Sound.grows (h : Sound t) (hitems : t'.items = t.items) (hlimit : t'.limit = t.limit)
    (hitem : t'.cursorItem = t.cursorItem) (hkey : t'.cursorKey = t.cursorKey) : Grows t t' := by
  refine ⟨h.congr hitems hlimit hitem, fun it hit => ⟨it, ?_, rfl⟩, hkey⟩
  rw [all, hitems]
  exact hit

lemma grows_of_perm (h : Sound t') (hperm : (t'.all.map identity).Perm (t.all.map identity))
    (hcursor : t'.cursorKey = t.cursorKey) : Grows t t' := by
  refine ⟨h, fun it hit => ?_, hcursor⟩
  obtain ⟨it', hit', he⟩ := mem_map.mp (hperm.mem_iff.mpr (mem_map_of_mem hit))
  exact ⟨it', hit', congrArg Prod.snd he⟩

lemma Sound.modifyItem (h : Sound t) (a : Nat) {f : Item V → Item V}
    (hf : ∀ it, identity (f it) = identity it ∧ (f it).index = it.index) : Grows t (t.modifyItem a f) := by
  let g : Item V → Item V := fun it => if it.addr == a then f it else it
  have hg : ∀ it, identity (g it) = identity it ∧ (g it).index = it.index := by
    intro it
    by_cases hit : (it.addr == a) = true
    · rw [show g it = f it from if_pos hit]
      exact hf it
    · rw [show g it = it from if_neg hit]
      exact ⟨rfl, rfl⟩
  have hall : (t.modifyItem a f).all = t.all.map g := map_flatten.symm
  have hperm : ((t.modifyItem a f).all.map identity).Perm (t.all.map identity) := by
    rw [hall, map_map, show identity ∘ g = identity from funext fun it => (hg it).1]
  refine grows_of_perm (h.moved ?_ h.limit_pos (fun i it hit => ?_) hperm rfl) hperm rfl
  · rw [Zhash.modifyItem, length_map]
    exact h.length_eq
  · replace hit : it ∈ (t.items.map (·.map g)).getD i [] := hit
    have hchain : (t.items.map (·.map g)).getD i [] = (t.items.getD i []).map g := by
      rw [getD_eq_getElem?_getD, getD_eq_getElem?_getD, getElem?_map]
      cases t.items[i]? <;> rfl
    rw [hchain] at hit
    obtain ⟨x, hx, rfl⟩ := mem_map.mp hit
    exact (hg x).2.trans (h.placed i x hx)

lemma Sound.looked (h : Sound t) (key : CString) : Grows t (t.sItemLookup key).2 :=
  h.grows rfl rfl rfl rfl

variable {site : Site}

lemma unused_iff : t.unused site = true ↔
    (∀ it ∈ t.all, it.addr ≠ site.item) ∧ ∀ it ∈ t.all, it.key ≠ site.key := by
  simp [unused, keyUnused]

variable {value : Option V}

def newItem (t : Zhash V) (key : CString) (value : Option V) (site : Site) : Item V where
  addr := site.item
  value := value
  index := sItemHash key t.limit
  key := site.key
  text := key
  freeFn := none

variable {key : CString}

lemma sItemInsert_cases {inserted : Bool}
    (he : t.sItemInsert key value site = .ok (inserted, t')) :
    (t.sItemLookup key).1 ≠ none ∧ inserted = false ∧ t' = (t.sItemLookup key).2 ∨
      (t.sItemLookup key).1 = none ∧ inserted = true ∧ t.unused site = true ∧
        t' = (t.sItemLookup key).2.link (t.newItem key value site) := by
  unfold sItemInsert at he
  split at he
  · next item t1 hlookup =>
    obtain ⟨rfl, rfl⟩ := Prod.mk.inj (Except.ok.inj he)
    rw [hlookup]
    exact .inl ⟨Option.some_ne_none _, rfl, rfl⟩
  · next t1 hlookup =>
    obtain rfl : (t.sItemLookup key).2 = t1 := congrArg Prod.snd hlookup
    obtain ⟨value', hcopied, hlink⟩ := bind_eq_ok.mp he
    unfold copied at hcopied
    split at hcopied <;> cases hcopied
    split at hlink
    · next hunused =>
      obtain ⟨rfl, rfl⟩ := Prod.mk.inj (Except.ok.inj hlink)
      exact .inr ⟨congrArg Prod.fst hlookup, rfl, hunused, rfl⟩
    · cases hlink

lemma Sound.sItemInsert (h : Sound t) {inserted : Bool}
    (he : t.sItemInsert key value site = .ok (inserted, t')) : Grows t t' := by
  have hlooked := h.looked key
  rcases sItemInsert_cases he with ⟨-, -, rfl⟩ | ⟨-, -, hunused, rfl⟩
  · exact hlooked
  · obtain ⟨haddr, hkey⟩ := unused_iff.mp hunused
    obtain ⟨hsound, hperm⟩ := hlooked.sound.link (t.newItem key value site)
      (sItemHash_lt key h.limit_pos) haddr hkey
    refine hlooked.trans ⟨hsound, fun it hit => ⟨it, ?_, rfl⟩, rfl⟩
    exact hperm.mem_iff.mpr (mem_cons_of_mem _ hit)

lemma Sound.insert (h : Sound t) {rc : Int}
    (he : t.insert key value site = .ok (rc, t')) : Grows t t' := by
  obtain ⟨t1, hgrow, he⟩ := bind_eq_ok.mp he
  obtain ⟨⟨inserted, t2⟩, hinsert, hpure⟩ := bind_eq_ok.mp he
  cases hpure
  obtain ⟨h1, hperm, hcursor⟩ := grow_ok h hgrow
  exact (grows_of_perm h1 hperm hcursor).trans (h1.sItemInsert hinsert)

lemma Sound.update (h : Sound t) (he : t.update key value site = .ok t') : Grows t t' := by
  unfold Zhash.update at he
  have hlooked := h.looked key
  split at he
  · next item t1 hlookup =>
    rw [hlookup] at hlooked
    obtain ⟨value', -, hpure⟩ := bind_eq_ok.mp he
    cases hpure
    have hfreed : Grows t1 { t1 with freed := t1.disposeValue item ++ t1.freed } :=
      hlooked.sound.grows rfl rfl rfl rfl
    exact hlooked.trans (hfreed.trans (hfreed.sound.modifyItem _ fun _ => ⟨rfl, rfl⟩))
  · next t1 hlookup =>
    rw [hlookup] at hlooked
    obtain ⟨⟨rc, t2⟩, hinsert, hpure⟩ := bind_eq_ok.mp he
    cases hpure
    exact hlooked.trans (hlooked.sound.insert hinsert)

lemma Sound.freefn (h : Sound t) (key : CString) (f : Option Nat) : Grows t (t.freefn key f).2 := by
  unfold Zhash.freefn
  have hlooked := h.looked key
  split
  · next item t1 hlookup =>
    rw [hlookup] at hlooked
    exact hlooked.trans (hlooked.sound.modifyItem _ fun _ => ⟨rfl, rfl⟩)
  · next t1 hlookup =>
    rw [hlookup] at hlooked
    exact hlooked

variable {item : Item V}

lemma Sound.unlink (h : Sound t) (he : t.unlink item = .ok t') :
    Sound { t' with cursorItem := none } ∧ t'.cursorItem = t.cursorItem ∧ t'.cursorKey = t.cursorKey ∧
      t'.cachedIndex = t.cachedIndex ∧ t'.limit = t.limit ∧
      ∃ it, it.addr = item.addr ∧ t.all.Perm (it :: t'.all) := by
  unfold Zhash.unlink at he
  split at he
  · next hany =>
    cases he
    obtain ⟨x, hx, haddr⟩ := any_eq_true.mp hany
    obtain ⟨it, es, fs, hnone, hit, hchain, herase⟩ := exists_of_eraseP (p := (·.addr == item.addr)) hx haddr
    have hlt : item.index < t.items.length := by
      by_contra hge
      rw [getD_eq_getElem?_getD, getElem?_eq_none (not_lt.mp hge)] at hx
      exact absurd hx not_mem_nil
    obtain ⟨l, r, hall, hmodified⟩ := flatten_split hlt
    have hperm : t.all.Perm (it :: (t.items.modify item.index (·.eraseP (·.addr == item.addr))).flatten) := by
      rw [hmodified, herase, all, hall, hchain]
      simp only [append_assoc]
      rw [← append_assoc, ← append_assoc l]
      exact perm_middle
    refine ⟨⟨?_, h.limit_pos, h.placed.modify_of_subset _ fun c => eraseP_sublist.subset, ?_, ?_,
      fun a ha => (Option.not_mem_none a ha).elim⟩, rfl, rfl, rfl, rfl, it, beq_iff_eq.mp hit, hperm⟩
    · show (t.items.modify _ _).length = t.limit
      rw [length_modify, h.length_eq]
    · have hnodup := (hperm.map (·.addr)).nodup_iff.mp h.addrs
      exact (nodup_cons.mp hnodup).2
    · have hnodup := (hperm.map (·.key)).nodup_iff.mp h.keys
      exact (nodup_cons.mp hnodup).2
  · cases he

lemma Sound.sItemDestroy (h : Sound t) (he : t.sItemDestroy item true = .ok t') :
    Sound t' ∧ t'.cursorKey = none := by
  obtain ⟨t1, hunlink, hpure⟩ := bind_eq_ok.mp he
  obtain ⟨h1, -⟩ := h.unlink hunlink
  cases hpure
  exact ⟨h1.congr rfl rfl rfl, rfl⟩

def Follows (t t' : Zhash V) : Prop := Sound t' ∧ (Live t → Live t')

lemma Grows.follows (h : Grows t t') : Follows t t' := ⟨h.sound, h.live⟩

lemma follows_of_none (h : Sound t') (hcursor : t'.cursorKey = none) : Follows t t' := by
  refine ⟨h, fun _ p hp => ?_⟩
  rw [hcursor] at hp
  exact (Option.not_mem_none p hp).elim

lemma Sound.delete (h : Sound t) (he : t.delete key = .ok t') : Follows t t' := by
  unfold Zhash.delete at he
  have hlooked := h.looked key
  split at he
  · next item t1 hlookup =>
    rw [hlookup] at hlooked
    obtain ⟨hsound, hcursor⟩ := hlooked.sound.sItemDestroy he
    exact follows_of_none hsound hcursor
  · next t1 hlookup =>
    rw [hlookup] at hlooked
    cases he
    exact hlooked.follows

lemma foldlM_follows {α : Type} {f : Zhash V → α → Except Fault (Zhash V)}
    (hf : ∀ t x t', Sound t → f t x = .ok t' → Follows t t') {l : List α} (h : Sound t)
    (he : l.foldlM f t = .ok t') : Follows t t' := by
  induction l generalizing t with
  | nil =>
    cases he
    exact ⟨h, id⟩
  | cons x l ih =>
    obtain ⟨t1, hx, he⟩ := bind_eq_ok.mp he
    obtain ⟨h1, hlive1⟩ := hf t x t1 h hx
    obtain ⟨h', hlive'⟩ := ih h1 he
    exact ⟨h', hlive' ∘ hlive1⟩

variable {ofText : CString → V}

lemma Sound.loadFile (h : Sound t) {filename : CString} {modified : Int}
    {file : Option (List UInt8)} {site : Nat → Site} {rc : Int}
    (he : t.loadFile ofText filename modified file site = .ok (rc, t')) : Follows t t' := by
  have hset : Grows t { t with autofree := true, filename := some filename, modified := modified } :=
    h.grows rfl rfl rfl rfl
  cases file with
  | none =>
    cases he
    exact hset.follows
  | some file =>
    obtain ⟨t1, hloop, hpure⟩ := bind_eq_ok.mp he
    cases hpure
    have hline : ∀ t line t', Sound t → loadLine ofText t line = .ok t' → Follows t t' := by
      intro t line t' h he
      unfold loadLine at he
      split at he
      · cases he
        exact ⟨h, id⟩
      · exact (h.update he).follows
    obtain ⟨h', hlive⟩ := foldlM_follows hline hset.sound hloop
    exact ⟨h', fun hl => hlive (hset.live hl)⟩

lemma Sound.refresh (h : Sound t) {modifiedNow modified : Int} {stable : Bool}
    {file : Option (List UInt8)} {site : Nat → Site} {rc : Int}
    (he : t.refresh ofText modifiedNow stable modified file site = .ok (rc, t')) : Follows t t' := by
  unfold Zhash.refresh at he
  split at he
  · cases he
    exact ⟨h, id⟩
  · split at he
    · obtain ⟨t1, hloop, he⟩ := bind_eq_ok.mp he
      obtain ⟨⟨rc', t2⟩, hload, hpure⟩ := bind_eq_ok.mp he
      cases hpure
      have hlimit := Loop.lt_of_forUint_eq_ok hloop
      rw [Loop.forUint_eq_foldlM _ _ _ hlimit] at hloop
      have hchain : ∀ (t : Zhash V) (index : Nat) t', Sound t →
          t.destroyChain (t.items.getD index []) = .ok t' → Follows t t' := by
        intro t index t' h he
        refine foldlM_follows (fun t item t' h he => ?_) h he
        obtain ⟨hsound, hcursor⟩ := h.sItemDestroy he
        exact follows_of_none hsound hcursor
      obtain ⟨h1, hlive1⟩ := foldlM_follows hchain h hloop
      obtain ⟨h', hlive'⟩ := h1.loadFile hload
      exact ⟨h', hlive' ∘ hlive1⟩
    · cases he
      exact ⟨h, id⟩

/-! ## Renaming -/

lemma sItemLookup_mem (h : (t.sItemLookup key).1 = some item) :
    item ∈ t.all := mem_flatten_of_mem_getD (mem_of_find?_eq_some h)

lemma Sound.rename (h : Sound t) (hlive : Live t) {oldKey newKey : CString} {key : Nat} {rc : Int}
    (he : t.rename oldKey newKey key = .ok (rc, t')) :
    Sound t' ∧ (Live t' ↔ Keeps t (.rename oldKey newKey key)) := by
  unfold Zhash.rename at he
  dsimp only at he
  -- both lookups read the same chains
  have hsame : ((t.sItemLookup oldKey).2.sItemLookup newKey).1 = (t.sItemLookup newKey).1 := rfl
  have hlooked : Grows t ((t.sItemLookup oldKey).2.sItemLookup newKey).2 := h.grows rfl rfl rfl rfl
  split at he
  · next item hold hnew =>
    obtain ⟨t1, hdestroy, he⟩ := bind_eq_ok.mp he
    obtain ⟨t2, hunlink, hsoft⟩ := bind_eq_ok.mp hdestroy
    obtain rfl : t2 = t1 := Except.ok.inj hsoft
    obtain ⟨h1, hitem1, hcursor1, hindex1, hlimit1, it, haddr, hperm1⟩ := hlooked.sound.unlink hunlink
    replace hperm1 : t.all.Perm (it :: t2.all) := hperm1
    have hmem := sItemLookup_mem hold
    obtain rfl : it = item :=
      inj_on_of_nodup_map h.addrs (hperm1.mem_iff.mpr (mem_cons_self ..)) hmem haddr
    split at he
    · next hunused =>
      cases he
      have hkeys := (hperm1.map (·.key)).nodup_iff.mp h.keys
      have haddrs := (hperm1.map (·.addr)).nodup_iff.mp h.addrs
      rw [map_cons, nodup_cons] at hkeys haddrs
      have hnewKey : ∀ x ∈ t2.all, x.key ≠ key := by simpa [keyUnused] using hunused
      have hnewAddr : ∀ x ∈ t2.all, x.addr ≠ it.addr := fun x hx hxa =>
        haddrs.1 (hxa ▸ mem_map_of_mem hx)
      have hlt : t2.cachedIndex < t2.limit := by
        rw [hindex1, hlimit1]
        exact sItemHash_lt newKey h.limit_pos
      obtain ⟨hsound, hperm⟩ := h1.link { it with key := key, text := newKey, index := t2.cachedIndex } hlt
        hnewAddr hnewKey
      replace hperm : (t2.link { it with key := key, text := newKey, index := t2.cachedIndex }).all.Perm
        ({ it with key := key, text := newKey, index := t2.cachedIndex } :: t2.all) := hperm
      refine ⟨⟨hsound.length_eq, hsound.limit_pos, hsound.placed, hsound.addrs, hsound.keys, fun a ha => ?_⟩,
        ?_⟩
      · obtain ⟨x, hx, hxa⟩ := h.cursorItem a (hitem1 ▸ ha)
        rcases mem_cons.mp (hperm1.mem_iff.mp hx) with rfl | hx
        · exact ⟨_, hperm.mem_iff.mpr (mem_cons_self ..), hxa⟩
        · exact ⟨x, hperm.mem_iff.mpr (mem_cons_of_mem _ hx), hxa⟩
      · have hcursor : (t2.link { it with key := key, text := newKey, index := t2.cachedIndex }).cursorKey =
            t.cursorKey := hcursor1
        constructor
        · -- a cursor on the old key is live only if an item has that key now, which must be this one
          rintro hlive' item' hold' - hcursorKey
          obtain rfl : it = item' := Option.some.inj (hold.symm.trans hold')
          obtain ⟨x, hx, hxk⟩ := hlive' it.key (hcursor.trans hcursorKey)
          rcases mem_cons.mp (hperm.mem_iff.mp hx) with rfl | hx
          · exact hxk
          · exact absurd (hxk ▸ mem_map_of_mem hx) hkeys.1
        · intro hkeeps p hp
          rw [hcursor] at hp
          obtain ⟨x, hx, rfl⟩ := hlive p hp
          rcases mem_cons.mp (hperm1.mem_iff.mp hx) with rfl | hx
          · exact ⟨_, hperm.mem_iff.mpr (mem_cons_self ..), hkeeps x hold hnew hp⟩
          · exact ⟨x, hperm.mem_iff.mpr (mem_cons_of_mem _ hx), rfl⟩
    · cases he
  · next hnone =>
    cases he
    refine ⟨hlooked.sound, iff_of_true (hlooked.live hlive) ?_⟩
    intro item hold hnew
    exact absurd hnew (hnone item hold)

/-! ## Iterating -/

lemma deref_mem {a : Nat} {next : Option Nat} (h : t.deref a = some (item, next)) :
    item ∈ t.all ∧ ∀ b ∈ next, ∃ it ∈ t.all, it.addr = b := by
  obtain ⟨chain, hchain, hfound⟩ := exists_of_findSome?_eq_some h
  have hsub : ∀ x ∈ chain.dropWhile (·.addr != a), x ∈ t.all := fun x hx =>
    mem_flatten_of_mem hchain ((dropWhile_suffix _).subset hx)
  split at hfound
  · cases hfound
  · next x rest hrest =>
    cases hfound
    rw [hrest] at hsub
    refine ⟨hsub item (mem_cons_self ..), fun b hb => ?_⟩
    obtain ⟨y, hy, rfl⟩ := Option.map_eq_some_iff.mp hb
    exact ⟨y, hsub y (mem_cons_of_mem _ (mem_of_head? hy)), rfl⟩

lemma firstOf_eq_none {i : Nat} : t.firstOf i = none ↔ t.items.getD i [] = [] := by
  rw [firstOf, Option.map_eq_none_iff, head?_eq_none_iff]

lemma firstOf_mem {i a : Nat} (h : t.firstOf i = some a) : ∃ it ∈ t.all, it.addr = a := by
  obtain ⟨it, hit, rfl⟩ := Option.map_eq_some_iff.mp h
  exact ⟨it, mem_flatten_of_mem_getD (mem_of_head? hit), rfl⟩

lemma noneLeft_next_bucket (t : Zhash V) (i : Nat) :
    NoneLeft { t with cursorIndex := i + 1, cursorItem := t.firstOf (i + 1) } .next ↔
      NoneLeft { t with cursorIndex := i, cursorItem := none } .next := by
  constructor
  · rintro ⟨hfirst, hrest⟩
    refine ⟨rfl, fun j hj => ?_⟩
    replace hj : i < j := hj
    rcases Nat.lt_or_eq_of_le (Nat.succ_le_of_lt hj) with hj | rfl
    · exact hrest j hj
    · exact firstOf_eq_none.mp hfirst
  · rintro ⟨-, hrest⟩
    exact ⟨firstOf_eq_none.mpr (hrest (i + 1) (Nat.lt_succ_self i)),
      fun j hj => hrest j ((Nat.lt_succ_self i).trans hj)⟩

lemma Sound.cursorAt (h : Sound t) {i : Nat} {p : Option Nat} (hp : ∀ a ∈ p, ∃ it ∈ t.all, it.addr = a) :
    Sound { t with cursorIndex := i, cursorItem := p } :=
  ⟨h.length_eq, h.limit_pos, h.placed, h.addrs, h.keys, hp⟩

lemma Sound.skip (h : Sound t) {n : Nat}
    (he : Loop.untilDone Fault.endlessLoop (fun t => .ok t.skipBucket) n t = .ok t') :
    ∃ i p, t' = { t with cursorIndex := i, cursorItem := p } ∧ Sound t' ∧
      (p = none ↔ NoneLeft t .next) := by
  refine Loop.untilDone_invariant
    (fun s => ∃ i p, s = { t with cursorIndex := i, cursorItem := p } ∧ Sound s ∧
      (NoneLeft s .next ↔ NoneLeft t .next))
    (fun s => ∃ i p, s = { t with cursorIndex := i, cursorItem := p } ∧ Sound s ∧
      (p = none ↔ NoneLeft t .next)) ?_ ⟨t.cursorIndex, t.cursorItem, rfl, h, Iff.rfl⟩ he
  rintro s ⟨i, p, rfl, hs, hleft⟩ x hx
  obtain rfl := Except.ok.inj hx
  unfold skipBucket
  cases p with
  | some a =>
    refine ⟨i, some a, rfl, hs, iff_of_false (Option.some_ne_none a) fun hnone => ?_⟩
    exact absurd (hleft.mpr hnone).1 (Option.some_ne_none a)
  | none =>
    by_cases hmore : i < t.limit - 1
    · rw [if_pos hmore]
      exact ⟨i + 1, _, rfl, h.cursorAt fun a ha => firstOf_mem ha, (noneLeft_next_bucket t i).trans hleft⟩
    · rw [if_neg hmore]
      refine ⟨i, none, rfl, hs, iff_of_true rfl (hleft.mp ⟨rfl, fun j hj => ?_⟩)⟩
      replace hj : i < j := hj
      have hlength := h.length_eq
      show t.items.getD j [] = []
      rw [getD_eq_getElem?_getD, getElem?_eq_none (by omega)]
      rfl

lemma Sound.next (h : Sound t) {v : Option V} (he : t.next = .ok (v, t')) : Sound t' ∧
    (NoneLeft t .next → v = none ∧ t'.cursorKey = t.cursorKey) ∧ (¬NoneLeft t .next → Live t') := by
  obtain ⟨t1, hloop, he⟩ := bind_eq_ok.mp he
  obtain ⟨i, p, rfl, h1, hnone⟩ := h.skip hloop
  cases p with
  | none =>
    cases he
    exact ⟨h1, fun _ => ⟨rfl, rfl⟩, fun hleft => absurd (hnone.mp rfl) hleft⟩
  | some a =>
    dsimp only at he
    split at he
    · cases he
    · next item next hderef =>
      cases he
      obtain ⟨hmem, hnext⟩ := deref_mem hderef
      refine ⟨⟨h1.length_eq, h1.limit_pos, h1.placed, h1.addrs, h1.keys, hnext⟩, fun hleft => ?_,
        fun _ p hp => ?_⟩
      · exact absurd (hnone.mpr hleft) (Option.some_ne_none a)
      · obtain rfl := Option.some.inj hp
        exact ⟨item, hmem, rfl⟩

lemma noneLeft_first_iff (t : Zhash V) :
    NoneLeft { t with cursorIndex := 0, cursorItem := t.firstOf 0 } .next ↔ t.all = [] := by
  constructor
  · rintro ⟨hfirst, hrest⟩
    refine eq_nil_iff_forall_not_mem.mpr fun it hit => ?_
    obtain ⟨i, -, hi⟩ := exists_mem_getD_of_mem_flatten hit
    have hempty : t.items.getD i [] = [] := by
      rcases Nat.eq_zero_or_pos i with rfl | hpos
      · exact firstOf_eq_none.mp hfirst
      · exact hrest i hpos
    rw [hempty] at hi
    exact not_mem_nil hi
  · intro hall
    have hempty : ∀ i, t.items.getD i [] = [] := by
      intro i
      refine eq_nil_iff_forall_not_mem.mpr fun it hit => ?_
      have hmem : it ∈ t.all := mem_flatten_of_mem_getD hit
      rw [hall] at hmem
      exact not_mem_nil hmem
    exact ⟨firstOf_eq_none.mpr (hempty 0), fun i _ => hempty i⟩

lemma Live.eq_none_of_empty (h : Live t) (hall : t.all = []) : t.cursorKey = none := by
  refine Option.eq_none_iff_forall_not_mem.mpr fun p hp => ?_
  obtain ⟨it, hit, -⟩ := h p hp
  rw [hall] at hit
  exact not_mem_nil hit

/-! ## Every run -/

def CursorRight (t : Zhash V) (op : Op V) (r : Answer V) (t' : Zhash V) : Prop :=
  Live t' ∧ (r = .value none → NoneLeft t op → t'.cursor = none)

lemma Sound.step (h : Sound t) (hlive : Live t) {op : Op V} {r : Answer V}
    (he : t.step ofText op = .ok (r, t')) : Sound t' ∧ (CursorRight t op r t' ↔ Keeps t op) := by
  have hkept : Follows t t' → (¬NoneLeft t op) → Keeps t op →
      Sound t' ∧ (CursorRight t op r t' ↔ Keeps t op) := fun hfollows hleft hkeeps =>
    ⟨hfollows.1, iff_of_true ⟨hfollows.2 hlive, fun _ hnone => absurd hnone hleft⟩ hkeeps⟩
  cases op with
  | insert key value site =>
    obtain ⟨⟨rc, t1⟩, hinsert, hpure⟩ := bind_eq_ok.mp he
    cases hpure
    exact hkept (h.insert hinsert).follows id trivial
  | update key value site =>
    obtain ⟨t1, hupdate, hpure⟩ := bind_eq_ok.mp he
    cases hpure
    exact hkept (h.update hupdate).follows id trivial
  | delete key =>
    obtain ⟨t1, hdelete, hpure⟩ := bind_eq_ok.mp he
    cases hpure
    exact hkept (h.delete hdelete) id trivial
  | lookup key =>
    cases he
    exact hkept (h.looked key).follows id trivial
  | rename oldKey newKey key =>
    obtain ⟨⟨rc, t1⟩, hrename, hpure⟩ := bind_eq_ok.mp he
    cases hpure
    obtain ⟨h', hiff⟩ := h.rename hlive hrename
    exact ⟨h', (and_iff_left fun _ hnone => hnone.elim).trans hiff⟩
  | freefn key fn =>
    cases he
    exact hkept (h.freefn key fn).follows id trivial
  | size =>
    cases he
    exact hkept ⟨h, id⟩ id trivial
  | keys =>
    obtain ⟨keys, -, hpure⟩ := bind_eq_ok.mp he
    cases hpure
    exact hkept ⟨h, id⟩ id trivial
  | first =>
    obtain ⟨⟨v, t1⟩, hfirst, hpure⟩ := bind_eq_ok.mp he
    cases hpure
    have hstart : Sound { t with cursorIndex := 0, cursorItem := t.firstOf 0 } :=
      h.cursorAt fun a ha => firstOf_mem ha
    obtain ⟨h', hend, hmore⟩ := hstart.next hfirst
    rw [noneLeft_first_iff] at hend hmore
    -- in an empty table a live cursor is `NULL` already
    have hempty : t.all = [] → t'.cursorKey = none := fun hall =>
      (hend hall).2.trans (hlive.eq_none_of_empty hall)
    refine ⟨h', iff_of_true ⟨?_, fun _ hall => hempty hall⟩ trivial⟩
    by_cases hall : t.all = []
    · exact (follows_of_none h' (hempty hall)).2 hlive
    · exact hmore hall
  | next =>
    obtain ⟨⟨v, t1⟩, hnext, hpure⟩ := bind_eq_ok.mp he
    cases hpure
    obtain ⟨h', hend, hmore⟩ := h.next hnext
    refine ⟨h', fun hright hnone => ?_, fun hkeeps => ⟨?_, fun _ hnone => ?_⟩⟩
    · obtain ⟨rfl, hcursor⟩ := hend hnone
      exact hcursor.symm.trans (hright.2 rfl hnone)
    · by_cases hnone : NoneLeft t .next
      · have hcursor := (hend hnone).2.trans (hkeeps hnone)
        exact (follows_of_none h' hcursor).2 hlive
      · exact hmore hnone
    · exact (hend hnone).2.trans (hkeeps hnone)
  | cursor =>
    cases he
    exact hkept ⟨h, id⟩ id trivial
  | autofree =>
    cases he
    have hset : Grows t { t with autofree := true } := h.grows rfl rfl rfl rfl
    exact hkept hset.follows id trivial
  | load filename modified file site =>
    obtain ⟨⟨rc, t1⟩, hload, hpure⟩ := bind_eq_ok.mp he
    cases hpure
    exact hkept (h.loadFile hload) id trivial
  | refresh modifiedNow stable modified file site =>
    obtain ⟨⟨rc, t1⟩, hrefresh, hpure⟩ := bind_eq_ok.mp he
    cases hpure
    exact hkept (h.refresh hrefresh) id trivial

lemma noneLeft_bounded (t : Zhash V) :
    (t.cursorItem = none ∧ ∀ i < t.items.length, t.cursorIndex < i → t.items.getD i [] = []) ↔
      NoneLeft t .next := by
  refine and_congr_right fun _ => ⟨fun h i hi => ?_, fun h i _ hi => h i hi⟩
  by_cases hlt : i < t.items.length
  · exact h i hlt hi
  · rw [getD_eq_getElem?_getD, getElem?_eq_none (not_lt.mp hlt)]
    rfl

/-- In every run whose calls so far keep the cursor, `zhash_cursor` is right after the next call,
`NULL` or the key of an item and `NULL` if none was left, exactly if the call keeps the cursor. -/
theorem cursor_right_iff {ofText : CString → V} {ops : List (Op V)}
    (hkeeps : StepsMeet (step ofText) Keeps new ops) {rs : List (Answer V)}
    (hrun : run (step ofText) new ops = .ok (rs, t)) {op : Op V} {r : Answer V}
    (hstep : t.step ofText op = .ok (r, t')) : CursorRight t op r t' ↔ Keeps t op := by
  obtain ⟨h, hlive⟩ := hkeeps.run_invariant (fun t => Sound t ∧ Live t)
    (fun t op r t' ⟨h, hlive⟩ hkeep he => by
      obtain ⟨h', hiff⟩ := h.step hlive he
      exact ⟨h', (hiff.mpr hkeep).1⟩)
    ⟨sound_new, fun _ h => (Option.not_mem_none _ h).elim⟩ hrun
  exact (h.step hlive hstep).2

instance (op : Op V) : Decidable (NoneLeft t op) :=
  match op with
  | .first => inferInstanceAs (Decidable (t.all = []))
  | .next => decidable_of_iff (t.cursorItem = none ∧
      ∀ i < t.items.length, t.cursorIndex < i → t.items.getD i [] = []) (noneLeft_bounded t)
  | .insert .. | .update .. | .delete .. | .lookup .. | .rename .. | .freefn .. | .size | .keys
  | .cursor | .autofree | .load .. | .refresh .. => isFalse id

instance (op : Op V) : Decidable (Keeps t op) := by
  unfold Keeps
  split <;> infer_instance

def nameA : CString := CString.ofBuffer [97, 0]

def nameB : CString := CString.ofBuffer [98, 0]

def nameC : CString := CString.ofBuffer [99, 0]

/-- An item that the cursor is not on is renamed, and a deletion clears the cursor before the end.
-/
def sampleOps : List (Op Nat) :=
  [.insert nameA (some 1) ⟨1, 2⟩, .insert nameB (some 2) ⟨3, 4⟩, .first, .rename nameB nameC 6, .cursor,
    .delete nameC]

theorem cursor_right_iff_sample : ∃ rs t r t',
    run (step fun _ => 0) new sampleOps = .ok (rs, t) ∧
    t.step (fun _ => 0) .next = .ok (r, t') ∧ r = .value none ∧ CursorRight t .next r t' := by
  have hkeeps : StepsMeet (step fun _ => 0) Keeps new (sampleOps ++ [.next]) :=
    stepsMeet_of_checkSteps (by decide +kernel)
  have hanswers : (run (step fun _ => 0) new (sampleOps ++ [.next])).map Prod.fst =
      .ok [.rc 0, .rc 0, .value (some 1), .rc 0, .key (some 2), .void, .value none] := by decide +kernel
  obtain ⟨⟨answers, t'⟩, hall, hanswers⟩ := exists_of_map_eq_ok hanswers
  obtain ⟨rs, t, _, hrun, hlast, happend⟩ := run_append_eq_ok hall
  obtain ⟨r, t₁, rs', hnext, hnil, rfl⟩ := run_cons_eq_ok hlast
  cases hnil
  have hr : r = .value none := by
    have hlast := congrArg getLast? (happend.symm.trans hanswers)
    rw [getLast?_concat] at hlast
    exact Option.some.inj hlast
  exact ⟨rs, t, r, t', hrun, hnext, hr,
    (cursor_right_iff hkeeps.left hrun hnext).mpr (hkeeps.right hrun).head⟩

/-- The key stays in the cursor at the end of the table, and when it has been freed. -/
theorem cursor_stale :
    (run (step fun _ => 0) (new : Zhash Nat) [.insert nameA (some 1) ⟨1, 2⟩, .first, .next, .cursor]).map
        Prod.fst = .ok [.rc 0, .value (some 1), .value none, .key (some 2)] ∧
      (run (step fun _ => 0) (new : Zhash Nat)
        [.insert nameA (some 1) ⟨1, 2⟩, .first, .rename nameA nameB 3, .cursor]).map
          (fun p => (p.1, p.2.all.map (·.key))) =
        .ok ([.rc 0, .value (some 1), .rc 0, .key (some 2)], [3]) := by
  decide +kernel

end Czmq.Zhash
