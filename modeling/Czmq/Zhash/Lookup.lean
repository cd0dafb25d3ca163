import Czmq.Zhash.Cursor
import Mathlib.Data.List.Sigma

/-! A `zhash_t` as a map from keys to values. Of the buckets the number of items that a table can
hold is left. -/

namespace Czmq.Zhash

open List Function

open Bytes

variable {V : Type} {t t' : Zhash V}

def binding (it : Item V) : Sigma fun _ : CString => Option V := ⟨it.text, it.value⟩

def bindings (t : Zhash V) (key : CString) : Option (Option V) := (t.all.map binding).dlookup key

/-- The load of `255 * 2 ^ 25` buckets, beyond which the `uint` of the loop does not reach their
number. -/
def capacity : Nat := 6417285120

/-- Every item is in the bucket of its key, no key has two, and the array was doubled as needed. -/
structure Filed (t : Zhash V) : Prop where
  sound : Sound t
  filed : ∀ it ∈ t.all, it.index = sItemHash it.text t.limit
  nodupKeys : (t.all.map binding).NodupKeys
  size_eq : t.size = t.all.length
  doubled : ∃ k ≤ 25, t.limit = initialSize * 2 ^ k
  size_le : t.size ≤ t.limit * loadFactor / 100

lemma filed_new : Filed (new : Zhash V) where
  sound := sound_new
  filed it hit := by simp [all, new] at hit
  nodupKeys := by simp [all, new]
  size_eq := by simp [all, new]
  doubled := ⟨0, Nat.zero_le _, rfl⟩
  size_le := Nat.zero_le _

lemma bindings_new : (new : Zhash V).bindings = fun _ => none := by
  funext key
  simp [bindings, all, new]

lemma Filed.congr (h : Filed t) (hitems : t'.items = t.items) (hlimit : t'.limit = t.limit)
    (hsize : t'.size = t.size) (hcursor : ∀ a ∈ t'.cursorItem, a ∈ t.cursorItem) : Filed t' := by
  have hall : t'.all = t.all := by rw [all, hitems]; rfl
  refine ⟨⟨?_, ?_, ?_, ?_, ?_, ?_⟩, ?_, ?_, ?_, ?_, ?_⟩
  · rw [hitems, hlimit]
    exact h.sound.length_eq
  · rw [hlimit]
    exact h.sound.limit_pos
  · rw [hitems]
    exact h.sound.placed
  · rw [hall]
    exact h.sound.addrs
  · rw [hall]
    exact h.sound.keys
  · rw [hall]
    exact fun a ha => h.sound.cursorItem a (hcursor a ha)
  · rw [hall, hlimit]
    exact h.filed
  · rw [hall]
    exact h.nodupKeys
  · rw [hall, hsize]
    exact h.size_eq
  · rw [hlimit]
    exact h.doubled
  · rw [hlimit, hsize]
    exact h.size_le

lemma Filed.limit_le (h : Filed t) : t.limit ≤ 8556380160 := by
  obtain ⟨k, hk, he⟩ := h.doubled
  have hpow : 2 ^ k ≤ 2 ^ 25 := Nat.pow_le_pow_right two_pos hk
  rw [he, initialSize]
  omega

lemma Filed.overloaded_iff (h : Filed t) :
    t.overloaded = true ↔ t.limit * loadFactor / 100 ≤ t.size := by
  have hlimit := h.limit_le
  rw [overloaded, decide_eq_true_iff, Nat.mod_eq_of_lt]
  rw [loadFactor]
  omega

lemma Filed.limit_lt_iff (h : Filed t) (hfull : t.overloaded = true) :
    t.limit < 2 ^ 32 ↔ t.size < capacity := by
  obtain ⟨k, hk, he⟩ := h.doubled
  have hload := h.overloaded_iff.mp hfull
  have hsize := h.size_le
  rw [capacity]
  rw [loadFactor] at hload hsize
  rcases Nat.lt_or_eq_of_le hk with hlt | rfl
  · have hpow : 2 ^ k ≤ 2 ^ 24 := Nat.pow_le_pow_right two_pos (Nat.le_of_lt_succ hlt)
    rw [initialSize] at he
    omega
  · rw [initialSize] at he
    omega

lemma Filed.grow (h : Filed t) (he : t.grow = .ok t') :
    Filed t' ∧ t'.size < t'.limit * loadFactor / 100 ∧
      (t'.all.map binding).Perm (t.all.map binding) ∧ t'.size = t.size ∧
      t'.autofree = t.autofree := by
  obtain ⟨hsound, -⟩ := grow_ok h.sound he
  rcases grow_cases h.sound he with ⟨hload, rfl⟩ | ⟨hload, hlimit, newItems, rfl, -, -, hperm⟩
  · refine ⟨h, ?_, Perm.refl _, rfl, rfl⟩
    rw [← not_le, ← h.overloaded_iff, hload]
    exact Bool.false_ne_true
  · have hbindings : (newItems.flatten.map binding).Perm (t.all.map binding) := by
      have hmapped := hperm.map binding
      rwa [map_map] at hmapped
    have hpos := h.sound.limit_pos
    have hsize := h.size_le
    obtain ⟨k, hk, hdoubled⟩ := h.doubled
    -- twice the buckets hold more than the items there are
    have hroom : t.size < 2 * t.limit * loadFactor / 100 := by
      have hpow : 0 < 2 ^ k := Nat.two_pow_pos k
      rw [loadFactor] at hsize ⊢
      omega
    refine ⟨⟨hsound, ?_, ?_, ?_, ⟨k + 1, ?_, ?_⟩, hroom.le⟩, hroom, hbindings, rfl, rfl⟩
    · intro it hit
      obtain ⟨x, -, rfl⟩ := mem_map.mp (hperm.mem_iff.mp hit)
      rfl
    · exact (perm_nodupKeys hbindings).mpr h.nodupKeys
    · rw [all, hperm.length_eq, length_map]
      exact h.size_eq
    · by_contra hge
      obtain rfl : k = 25 := by omega
      rw [initialSize] at hdoubled
      omega
    · show 2 * t.limit = _
      rw [hdoubled]
      ring

lemma Filed.exists_grow_iff (h : Filed t) : (∃ t', t.grow = .ok t') ↔ t.size < capacity := by
  by_cases hload : t.overloaded = true
  · rw [← h.limit_lt_iff hload]
    constructor
    · rintro ⟨t', he⟩
      rcases grow_cases h.sound he with ⟨hnot, -⟩ | ⟨-, hlimit, -⟩
      · rw [hload] at hnot
        cases hnot
      · exact hlimit
    · intro hlimit
      unfold Zhash.grow
      rw [if_pos hload]
      dsimp only
      rw [Loop.forUint_eq_foldlM _ _ _ hlimit]
      exact ⟨_, congrArg (· >>= _) foldlM_pure⟩
  · refine iff_of_true ⟨t, ?_⟩ ?_
    · unfold Zhash.grow
      rw [if_neg hload]
      rfl
    · rw [h.overloaded_iff] at hload
      have hlimit := h.limit_le
      rw [loadFactor] at hload
      rw [capacity]
      omega

lemma dlookup_map_binding (l : List (Item V)) (key : CString) :
    (l.map binding).dlookup key = (l.find? fun it => decide (it.text = key)).map (·.value) := by
  induction l with
  | nil => rfl
  | cons it l ih =>
    rw [map_cons, find?_cons]
    by_cases hkey : it.text = key
    · subst hkey
      rw [decide_eq_true rfl, binding, dlookup_cons_eq]
      rfl
    · rw [decide_eq_false hkey, dlookup_cons_ne _ _ (Ne.symm hkey)]
      exact ih

lemma Filed.map_sItemLookup (h : Filed t) (key : CString) :
    (t.sItemLookup key).1.map (·.value) = t.bindings key := by
  have hfind : (t.sItemLookup key).1 = t.all.find? fun it => decide (it.text = key) := by
    refine (h.sound.placed.find?_flatten fun it hit hkey => ?_).symm
    rw [← of_decide_eq_true hkey]
    exact h.filed it hit
  rw [hfind, bindings, dlookup_map_binding]

lemma Filed.lookup_eq (h : Filed t) (key : CString) : (t.lookup key).1 = (t.bindings key).join := by
  show (t.sItemLookup key).1.bind (·.value) = _
  rw [← h.map_sItemLookup]
  cases (t.sItemLookup key).1 <;> rfl

/-! ## Insertions -/

def bindFirst (m : CString → Option (Option V)) (key : CString) (value : Option V) :
    CString → Option (Option V) :=
  if m key = none then Function.update m key (some value) else m

lemma bindFirst_or (m : CString → Option (Option V)) (key k : CString) (value : Option V)
    (x : Option (Option V)) :
    (bindFirst m key value k).or x = (m k).or (if k = key then some value else x) := by
  unfold bindFirst
  by_cases hk : k = key
  · subst hk
    cases hm : m k with
    | none => simp
    | some _ => simp [hm]
  ·
    split
    · rw [update_of_ne hk]
    · rfl

lemma dlookup_cons_eq_update (l : List (Sigma fun _ : CString => Option V)) (key : CString)
    (value : Option V) :
    (fun k => dlookup k (⟨key, value⟩ :: l)) =
      Function.update (fun k => l.dlookup k) key (some value) := by
  funext k
  by_cases hk : k = key
  · subst hk
    rw [dlookup_cons_eq, update_self]
  · rw [dlookup_cons_ne _ _ hk, update_of_ne hk]

lemma Filed.link (h : Filed t) (item : Item V) (hindex : item.index = sItemHash item.text t.limit)
    (haddr : ∀ it ∈ t.all, it.addr ≠ item.addr) (hkey : ∀ it ∈ t.all, it.key ≠ item.key)
    (hnew : t.bindings item.text = none) (hroom : t.size < t.limit * loadFactor / 100) :
    Filed (t.link item) ∧
      (t.link item).bindings = Function.update t.bindings item.text (some item.value) := by
  have hlt : item.index < t.limit := hindex ▸ sItemHash_lt _ h.sound.limit_pos
  obtain ⟨hsound, hperm⟩ := h.sound.link item hlt haddr hkey
  have hnodup : (binding item :: t.all.map binding).NodupKeys :=
    nodupKeys_cons.mpr ⟨dlookup_eq_none.mp hnew, h.nodupKeys⟩
  have hbindings : ((t.link item).all.map binding).Perm (binding item :: t.all.map binding) :=
    hperm.map binding
  have hnodup' := (perm_nodupKeys hbindings).mpr hnodup
  refine ⟨⟨hsound, fun it hit => ?_, hnodup', ?_, h.doubled, hroom⟩, ?_⟩
  · rcases mem_cons.mp (hperm.mem_iff.mp hit) with rfl | hit
    · exact hindex
    · exact h.filed it hit
  · rw [hperm.length_eq, length_cons, ← h.size_eq]
    rfl
  · have hlookup :
        (t.link item).bindings = fun k => (binding item :: t.all.map binding).dlookup k :=
      funext fun k => perm_dlookup k hnodup' hbindings
    rw [hlookup]
    exact dlookup_cons_eq_update _ _ _

variable {value : Option V}

lemma Filed.insert (h : Filed t) {key : CString} {site : Site} {rc : Int}
    (he : t.insert key value site = .ok (rc, t')) :
    Filed t' ∧ t'.bindings = bindFirst t.bindings key value ∧ t'.autofree = t.autofree ∧
      rc = (if t.bindings key = none then 0 else -1) ∧ t'.size ≤ t.size + 1 := by
  obtain ⟨t1, hgrow, he⟩ := bind_eq_ok.mp he
  obtain ⟨⟨inserted, t2⟩, hinsert, hpure⟩ := bind_eq_ok.mp he
  cases hpure
  obtain ⟨h1, hroom, hperm, hsize, hauto⟩ := h.grow hgrow
  have hsame : t1.bindings = t.bindings := funext fun key => perm_dlookup key h1.nodupKeys hperm
  rw [← hsame, ← hsize, ← hauto]
  have hlooked : Filed (t1.sItemLookup key).2 := h1.congr rfl rfl rfl fun _ ha => ha
  have hbound : t1.bindings key = none ↔ (t1.sItemLookup key).1 = none := by
    rw [← h1.map_sItemLookup, Option.map_eq_none_iff]
  rcases sItemInsert_cases hinsert with ⟨hitem, rfl, rfl⟩ | ⟨hitem, rfl, hunused, rfl⟩
  · have hsome := mt hbound.mp hitem
    refine ⟨hlooked, ?_, rfl, (if_neg hsome).symm, Nat.le_succ _⟩
    rw [bindFirst, if_neg hsome]
    rfl
  · have hnone := hbound.mpr hitem
    obtain ⟨haddr, hkey⟩ := unused_iff.mp hunused
    obtain ⟨hfiled, hbindings⟩ :=
      hlooked.link (t1.newItem key value site) rfl haddr hkey hnone hroom
    refine ⟨hfiled, ?_, rfl, (if_pos hnone).symm, Nat.le_refl _⟩
    rw [bindFirst, if_pos hnone]
    exact hbindings

lemma Sound.insert_identity (h : Sound t) {key : CString} {site : Site}
    {rc : Int} (he : t.insert key value site = .ok (rc, t')) :
    ∀ it ∈ t'.all, identity it ∈ t.all.map identity ∨ identity it = (site.item, site.key) := by
  obtain ⟨t1, hgrow, he⟩ := bind_eq_ok.mp he
  obtain ⟨⟨inserted, t2⟩, hinsert, hpure⟩ := bind_eq_ok.mp he
  cases hpure
  obtain ⟨h1, hperm, -⟩ := grow_ok h hgrow
  have hold : ∀ it ∈ t1.all, identity it ∈ t.all.map identity := fun it hit =>
    hperm.mem_iff.mp (mem_map_of_mem hit)
  rcases sItemInsert_cases hinsert with ⟨-, -, rfl⟩ | ⟨-, -, hunused, rfl⟩
  · exact fun it hit => .inl (hold it hit)
  · obtain ⟨haddr, hkey⟩ := unused_iff.mp hunused
    obtain ⟨-, hlinked⟩ := (h1.looked key).sound.link (t1.newItem key value site)
      (sItemHash_lt key h1.limit_pos) haddr hkey
    intro it hit
    rcases mem_cons.mp (hlinked.mem_iff.mp hit) with rfl | hit
    · exact .inr rfl
    · exact .inl (hold it hit)

lemma Filed.exists_insert_iff (h : Filed t) {key : CString} {site : Site}
    (hsite : t.unused site = true) (hvalue : t.autofree = true → value.isSome = true) :
    (∃ r, t.insert key value site = .ok r) ↔ t.size < capacity := by
  rw [← h.exists_grow_iff]
  constructor
  · rintro ⟨r, he⟩
    obtain ⟨t1, hgrow, -⟩ := bind_eq_ok.mp he
    exact ⟨t1, hgrow⟩
  · rintro ⟨t1, hgrow⟩
    obtain ⟨-, -, -, -, hauto⟩ := h.grow hgrow
    obtain ⟨-, hperm, -⟩ := grow_ok h.sound hgrow
    have hunused : t1.unused site = true := by
      rw [unused_iff] at hsite ⊢
      have hmem : ∀ it ∈ t1.all, ∃ it' ∈ t.all, identity it' = identity it := fun it hit =>
        mem_map.mp (hperm.mem_iff.mp (mem_map_of_mem hit))
      constructor
      · intro it hit
        obtain ⟨it', hit', he⟩ := hmem it hit
        rw [show it.addr = it'.addr from congrArg Prod.fst he.symm]
        exact hsite.1 it' hit'
      · intro it hit
        obtain ⟨it', hit', he⟩ := hmem it hit
        rw [show it.key = it'.key from congrArg Prod.snd he.symm]
        exact hsite.2 it' hit'
    have hcopied : t1.copied value = .ok value := by
      unfold copied
      rw [if_neg]
      intro hand
      rw [Bool.and_eq_true, hauto] at hand
      have hsome := hvalue hand.1
      cases value with
      | none => cases hsome
      | some _ => cases hand.2
    obtain ⟨r, hinsert⟩ : ∃ r, t1.sItemInsert key value site = .ok r := by
      unfold sItemInsert
      split
      · exact ⟨_, rfl⟩
      · next t3 hlookup =>
        obtain rfl : (t1.sItemLookup key).2 = t3 := congrArg Prod.snd hlookup
        have hcopied' : (t1.sItemLookup key).2.copied value = .ok value := hcopied
        have hunused' : (t1.sItemLookup key).2.unused site = true := hunused
        rw [hcopied', ok_bind, if_pos hunused']
        exact ⟨_, rfl⟩
    exact ⟨_, bind_eq_ok.mpr ⟨t1, hgrow, bind_eq_ok.mpr ⟨r, hinsert, rfl⟩⟩⟩

lemma Filed.sItemDestroy (h : Filed t) {item : Item V} (hmem : item ∈ t.all) :
    ∃ t', t.sItemDestroy item true = .ok t' ∧ Filed t' ∧ t.all.Perm (item :: t'.all) ∧
      t'.autofree = t.autofree ∧ t'.size ≤ t.size := by
  have hany : (t.items.getD item.index []).any (·.addr == item.addr) = true :=
    any_eq_true.mpr ⟨item, h.sound.placed.mem_getD hmem, beq_self_eq_true _⟩
  have hunlink : t.unlink item = .ok { t with
      items := t.items.modify item.index (·.eraseP (·.addr == item.addr)), size := t.size - 1 } :=
    if_pos hany
  obtain ⟨hsound, -, -, -, -, it, haddr, hperm⟩ := h.sound.unlink hunlink
  obtain rfl : it = item :=
    inj_on_of_nodup_map h.sound.addrs (hperm.mem_iff.mpr mem_cons_self) hmem haddr
  refine ⟨_, bind_eq_ok.mpr ⟨_, hunlink, rfl⟩, ⟨?_, fun x hx => ?_, ?_, ?_, h.doubled, ?_⟩, hperm,
    rfl, Nat.sub_le _ _⟩
  · exact hsound.congr rfl rfl rfl
  · exact h.filed x (hperm.mem_iff.mpr (mem_cons_of_mem _ hx))
  · have hnodup := (perm_nodupKeys (hperm.map binding)).mp h.nodupKeys
    exact (nodupKeys_cons.mp hnodup).2
  · have hlength := hperm.length_eq
    show t.size - 1 = _
    rw [h.size_eq, hlength]
    rfl
  · exact (Nat.sub_le _ _).trans h.size_le

lemma Filed.delete (h : Filed t) (key : CString) :
    ∃ t', t.delete key = .ok t' ∧ Filed t' ∧ t'.bindings = Function.update t.bindings key none ∧
      t'.autofree = t.autofree ∧ t'.size ≤ t.size := by
  have hlooked : Filed (t.sItemLookup key).2 := h.congr rfl rfl rfl fun _ ha => ha
  have hmap := h.map_sItemLookup key
  unfold Zhash.delete
  split
  · next item t1 hlookup =>
    obtain rfl : (t.sItemLookup key).2 = t1 := congrArg Prod.snd hlookup
    have hitem : (t.sItemLookup key).1 = some item := congrArg Prod.fst hlookup
    obtain rfl : item.text = key := by
      have hkey := find?_some hitem
      exact of_decide_eq_true hkey
    obtain ⟨t', he, h', hperm, hauto, hsize⟩ := hlooked.sItemDestroy (sItemLookup_mem hitem)
    refine ⟨t', he, h', ?_, hauto, hsize⟩
    have hbindings : (t.all.map binding).Perm (binding item :: t'.all.map binding) :=
      hperm.map binding
    have hnodup := (perm_nodupKeys hbindings).mp h.nodupKeys
    have hbefore : t.bindings = Function.update t'.bindings item.text (some item.value) := by
      rw [← show _ = Function.update t'.bindings item.text (some item.value) from
        dlookup_cons_eq_update (t'.all.map binding) item.text item.value]
      exact funext fun k => perm_dlookup k h.nodupKeys hbindings
    have habsent : t'.bindings item.text = none :=
      dlookup_eq_none.mpr (notMem_keys_of_nodupKeys_cons hnodup)
    rw [hbefore, update_idem, ← habsent, update_eq_self]
  · next t1 hlookup =>
    obtain rfl : (t.sItemLookup key).2 = t1 := congrArg Prod.snd hlookup
    rw [hlookup] at hmap
    refine ⟨_, rfl, hlooked, ?_, rfl, Nat.le_refl _⟩
    rw [← show t.bindings key = none from hmap.symm, update_eq_self]
    rfl

end Czmq.Zhash
