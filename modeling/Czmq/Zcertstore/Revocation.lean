import Czmq.Zcertstore.Store

/-! When a change of the directory takes effect: the store has its certificates as they were when it
could last be read. -/

namespace Czmq.Zcertstore

open Option List Machine Bytes

open Zdir Zhashx

section
variable (z : Z85)

def Held (disk : Disk) (location : List UInt8) (publicKey : CString) : Prop :=
  ∃ x ∈ disk.dir location, ∃ file ∈ filesOf x, disk.regular file.fullname = true ∧
    isSecret file.fullname = false ∧
    ∃ cert, Zcert.load z disk.read file.fullname = .ok (some cert) ∧ keyOf z cert = publicKey

def certsOf (disk : Disk) (files : List Zfile) : List Zcert :=
  files.filterMap fun file => (certificate z disk file).toOption.join

def held (disk : Disk) (location : List UInt8) : List Zcert :=
  (disk.dir location).elim [] fun x => certsOf z disk (filesOf x)

lemma held_iff {disk : Disk} {location : List UInt8} {publicKey : CString} :
    Held z disk location publicKey ↔ ∃ cert ∈ held z disk location, keyOf z cert = publicKey := by
  have hfile : ∀ (file : Zfile) (cert : Zcert), (certificate z disk file).toOption.join = some cert ↔
      disk.regular file.fullname = true ∧ isSecret file.fullname = false ∧
        Zcert.load z disk.read file.fullname = .ok (some cert) := by
    intro file cert
    rw [certificate, ← and_assoc, ← Bool.not_eq_true', ← Bool.and_eq_true]
    split
    · next h =>
      rw [and_iff_right h]
      cases Zcert.load z disk.read file.fullname with
      | error e => simp [Except.toOption]
      | ok r => simp [Except.toOption]
    · next h => simp [h, Except.toOption]
  rw [Held, held]
  cases disk.dir location with
  | none => simp
  | some x =>
    simp only [mem_some, exists_eq_left', elim_some, certsOf, mem_filterMap, hfile]
    constructor
    · rintro ⟨file, hmem, hreg, hsecret, cert, hload, hkey⟩
      exact ⟨cert, ⟨file, hmem, hreg, hsecret, hload⟩, hkey⟩
    · rintro ⟨cert, ⟨file, hmem, hreg, hsecret, hload⟩, hkey⟩
      exact ⟨file, hmem, hreg, hsecret, cert, hload, hkey⟩

lemma keyOf_eq_iff {a b : Zcert} : keyOf z a = keyOf z b ↔ a.publicKey = b.publicKey := by
  rw [keyOf, keyOf, Subtype.mk.injEq, Zcert.publicTxt, Zcert.publicTxt]
  constructor
  · intro h
    rw [← z.decode_encode a.publicKey, h, z.decode_encode]
  · intro h
    rw [h]

/-! ## What a cache binds -/

def cacheMap (certs : List Zcert) (k : CString) : Option (Option Zcert) :=
  (certs.find? fun cert => keyOf z cert = k).map some

variable {z}

lemma join_cacheMap (certs : List Zcert) (k : CString) :
    (cacheMap z certs k).join = certs.find? fun cert => keyOf z cert = k := by
  rw [cacheMap]
  cases certs.find? fun cert => keyOf z cert = k <;> rfl

abbrev Distinct (certs : List Zcert) : Prop := certs.Pairwise fun a b => a.publicKey ≠ b.publicKey

variable {certs : List Zcert}

lemma find?_eq_some_iff_of_distinct (h : Distinct certs) {k : CString}
    {cert : Zcert} : (certs.find? fun c => keyOf z c = k) = some cert ↔
      cert ∈ certs ∧ keyOf z cert = k := by
  constructor
  · intro hfind
    exact ⟨mem_of_find?_eq_some hfind, by simpa using find?_some hfind⟩
  · rintro ⟨hmem, hkey⟩
    cases hfind : certs.find? fun c => keyOf z c = k with
    | none => exact absurd hkey (by simpa using find?_eq_none.mp hfind cert hmem)
    | some c =>
      have hc : keyOf z c = k := by simpa using find?_some hfind
      by_contra hne
      have hsymm : Std.Symm fun a b : Zcert => a.publicKey ≠ b.publicKey := ⟨fun _ _ => Ne.symm⟩
      have hdiff : c ≠ cert := fun he => hne (by rw [he])
      exact h.forall (mem_of_find?_eq_some hfind) hmem hdiff
        ((keyOf_eq_iff z).mp (hc.trans hkey.symm))

lemma cacheMap_congr {certs' : List Zcert} (h : Distinct certs) (h' : Distinct certs')
    (hmem : ∀ cert, cert ∈ certs ↔ cert ∈ certs') : cacheMap z certs = cacheMap z certs' := by
  funext k
  rw [cacheMap]
  congr 1
  ext cert
  rw [find?_eq_some_iff_of_distinct h, find?_eq_some_iff_of_distinct h', hmem]

lemma loadFiles_eq {disk : Disk} {files : List Zfile} (t : Zhashx CString Zcert)
    (h : ∀ file ∈ files, ∃ r, certificate z disk file = .ok r) :
    loadFiles z disk (files.map some ++ [none]) t = (certsOf z disk files).foldlM (insertCert z) t := by
  induction files generalizing t with
  | nil => rfl
  | cons file files ih =>
    rw [forall_mem_cons] at h
    obtain ⟨r, hr⟩ := h.1
    rw [map_cons, cons_append, loadFiles, certsOf, filterMap_cons, hr]
    cases r with
    | none => exact ih t h.2
    | some cert =>
      exact bind_congr fun t' => ih t' h.2

def insertStep (z : Z85) (t : Zhashx CString Zcert) (cert : Zcert) :
    Except Fault (Int × Zhashx CString Zcert) := t.insert (keyOf z cert) (some cert)

lemma foldlM_insertCert {t : Zhashx CString Zcert}
    {m : CString → Option (Option Zcert)} (h : Binds t m) (hdup : t.fn.duplicator = none)
    (hfit : StepsMeet (insertStep z) (fun t cert => t.InsertFits (keyOf z cert)) t certs)
    (hnew : ∀ cert ∈ certs, m (keyOf z cert) = none) (hdistinct : Distinct certs) :
    ∃ t', certs.foldlM (insertCert z) t = .ok t' ∧ t'.fn = t.fn ∧
      Binds t' fun k => (cacheMap z certs k).or (m k) := by
  induction certs generalizing t m with
  | nil => exact ⟨t, rfl, rfl, h.congr fun k => by simp [cacheMap]⟩
  | cons cert certs ih =>
    rw [forall_mem_cons] at hnew
    obtain ⟨hfirst, hrest⟩ := pairwise_cons.mp hdistinct
    obtain ⟨t1, he, hfn, hbinds⟩ := h.insert (some cert) hfit.head
    rw [hnew.1] at he
    rw [hnew.1, isNone_none, if_pos rfl, Callbacks.dupValue, hdup] at hbinds
    have hother : ∀ c ∈ certs, keyOf z c ≠ keyOf z cert := fun c hc hk =>
      hfirst c hc ((keyOf_eq_iff z).mp hk).symm
    have hnew1 : ∀ c ∈ certs, Function.update m (keyOf z cert) (some (some cert)) (keyOf z c) = none := by
      intro c hc
      rw [Function.update_of_ne (hother c hc)]
      exact hnew.2 c hc
    obtain ⟨t', hfold, hfn', hbinds'⟩ := ih hbinds (hfn ▸ hdup) (hfit.tail he) hnew1 hrest
    refine ⟨t', ?_, hfn'.trans hfn, hbinds'.congr fun k => ?_⟩
    · rw [foldlM_cons, insertCert, he]
      exact hfold
    · rw [cacheMap, cacheMap]
      by_cases hk : keyOf z cert = k
      · have hnone : (certs.find? fun c => keyOf z c = k) = none := by
          rw [find?_eq_none]
          intro c hc
          simpa [← hk] using hother c hc
        rw [hnone, ← hk]
        simp
      · rw [Function.update_of_ne (Ne.symm hk)]
        simp [hk]

end

/-! ## Histories -/

section
variable (z : Z85) (flat : Flattening)

/-- The signature of the directory changes whenever its certificates do, and no key is in two files.
-/
structure Assumed (location : List UInt8) (disks : List Disk) : Prop where
  changes : ∀ d ∈ disks, ∀ d' ∈ disks, ∀ x ∈ d.dir location, ∀ x' ∈ d'.dir location,
    signature x = signature x' → ∀ cert, cert ∈ held z d location ↔ cert ∈ held z d' location
  distinct : ∀ d ∈ disks, Distinct (held z d location)

/-- The loader gets through: the table can be emptied and has room, an `int` counts the files, and
each can be looked at. -/
def RefreshFits (disk : Disk) (self : Zcertstore) : Prop :=
  ∀ loader ∈ self.loader, ∀ x ∈ disk.dir loader.location, loader.signature ≠ signature x →
    self.certs.limit < 2 ^ 32 ∧ x.1.count ≤ intMax ∧
    (∀ file ∈ filesOf x, ∃ r, certificate z disk file = .ok r) ∧
    ∀ t, self.certs.purge = .ok t → StepsMeet (insertStep z)
      (fun t cert => t.InsertFits (keyOf z cert)) t (certsOf z disk (flat.files x))

def Fits (self : Zcertstore) (c : Disk × Option CString) : Prop :=
  RefreshFits z flat c.1 self ∧
    ∀ publicKey ∈ c.2, ∀ s, refresh z flat c.1 self = .ok s → s.certs.LookupFits publicKey

def seen (location : List UInt8) (o : Option Disk) (disks : List Disk) : Option Disk :=
  disks.foldl (fun o disk => if (disk.dir location).isSome then some disk else o) o

structure Caches (location : List UInt8) (o : Option Disk) (store : Zcertstore) : Prop where
  loader : store.loader = some ⟨location, (o.bind (·.dir location)).elim .zero signature⟩
  binds : Binds store.certs (cacheMap z (o.elim [] (held z · location)))
  duplicator : store.certs.fn.duplicator = none

variable {z flat} {location : List UInt8} {o : Option Disk} {self : Zcertstore} {disk : Disk}

lemma caches_blank (location : List UInt8) : Caches z location none (blank location) :=
  ⟨rfl, binds_new ⟨rfl, rfl⟩, rfl⟩

variable {x : Directory × Zdir}

lemma held_eq_nil_of_signature (hx : disk.dir location = some x)
    (h : signature x = .zero) : held z disk location = [] := by
  have hcount := count_signature x
  rw [h] at hcount
  rw [held, hx, elim_some, length_eq_zero_iff.mp hcount.symm]
  rfl

lemma distinct_of_foldlM_insertCert {t t' : Zhashx CString Zcert} {certs : List Zcert}
    {m : CString → Option (Option Zcert)} (h : Binds t m)
    (hfit : StepsMeet (insertStep z) (fun t cert => t.InsertFits (keyOf z cert)) t certs)
    (hok : certs.foldlM (insertCert z) t = .ok t') :
    (∀ cert ∈ certs, m (keyOf z cert) = none) ∧ Distinct certs := by
  induction certs generalizing t m with
  | nil => exact ⟨fun cert hc => absurd hc not_mem_nil, .nil⟩
  | cons cert certs ih =>
    obtain ⟨t1, he, -, hbinds⟩ := h.insert (some cert) hfit.head
    rw [foldlM_cons, insertCert, he] at hok
    cases hm : m (keyOf z cert) with
    | some v =>
      rw [hm] at hok
      cases hok
    | none =>
      rw [hm] at hok hbinds
      obtain ⟨hnew, hdistinct⟩ := ih hbinds (hfit.tail he) hok
      have hother : ∀ c ∈ certs, keyOf z c ≠ keyOf z cert := by
        intro c hc hk
        have hnone := hnew c hc
        rw [hk, isNone_none, if_pos rfl, Function.update_self] at hnone
        cases hnone
      refine ⟨forall_mem_cons.mpr ⟨hm, fun c hc => ?_⟩, pairwise_cons.mpr ⟨fun c hc hk => ?_, hdistinct⟩⟩
      · have hnone := hnew c hc
        rwa [isNone_none, if_pos rfl, Function.update_of_ne (hother c hc)] at hnone
      · exact hother c hc ((keyOf_eq_iff z).mpr hk.symm)

lemma refresh_unchanged {loader : DiskLoader} (hloader : self.loader = some loader)
    (hlocation : loader.location ≠ [])
    (hsame : ∀ x ∈ disk.dir loader.location, loader.signature = signature x) :
    Zcertstore.refresh z flat disk self = .ok self := by
  obtain ⟨_, certs⟩ := self
  obtain rfl : _ = some loader := hloader
  rw [Zcertstore.refresh]
  dsimp only
  rw [diskLoader, if_neg hlocation]
  cases hx : disk.dir loader.location with
  | none => rfl
  | some x =>
    dsimp only
    rw [if_neg (not_not.mpr (hsame x hx))]
    rfl

/-- The loader on a directory that has changed: it gets through exactly when no key is in two files.
-/
lemma refresh_changed {loader : DiskLoader} (hloader : self.loader = some loader)
    (hlocation : loader.location ≠ []) (hx : disk.dir loader.location = some x)
    (hne : loader.signature ≠ signature x) {m : CString → Option (Option Zcert)}
    (h : Binds self.certs m) (hdup : self.certs.fn.duplicator = none)
    (hfit : RefreshFits z flat disk self) :
    (Distinct (held z disk loader.location) → ∃ t', Zcertstore.refresh z flat disk self =
        .ok ⟨some { loader with signature := signature x }, t'⟩ ∧
      Binds t' (cacheMap z (held z disk loader.location)) ∧ t'.fn = self.certs.fn) ∧
    ((∃ s, Zcertstore.refresh z flat disk self = .ok s) →
      Distinct (held z disk loader.location)) := by
  obtain ⟨hlim, hcount, hload, hinserts⟩ := hfit loader hloader x hx hne
  obtain ⟨t0, hpurge, hs, hall, hfn⟩ := purge_of_lt h.wf.toShape hlim
  have hempty := h.of_empty hs hall hfn
  have hperm : (certsOf z disk (flat.files x)).Perm (held z disk loader.location) := by
    rw [held, hx]
    exact (flat.perm x).filterMap _
  have hdistinct : Distinct (certsOf z disk (flat.files x)) ↔
      Distinct (held z disk loader.location) := hperm.pairwise_iff Ne.symm
  have hfiles : ∀ file ∈ flat.files x, ∃ r, certificate z disk file = .ok r :=
    fun file hfile => hload file ((flat.perm x).mem_iff.mp hfile)
  have hrefresh : Zcertstore.refresh z flat disk self =
      (certsOf z disk (flat.files x)).foldlM (insertCert z) t0 >>= fun t =>
        .ok ⟨some { loader with signature := signature x }, t⟩ := by
    have hlist : flat.list x = .ok ((flat.files x).map some ++ [none]) := if_pos hcount
    rw [Zcertstore.refresh, hloader]
    dsimp only
    rw [diskLoader, if_neg hlocation, hx]
    dsimp only
    rw [if_pos hne, hpurge, ok_bind, hlist, ok_bind, loadFiles_eq t0 hfiles]
    cases (certsOf z disk (flat.files x)).foldlM (insertCert z) t0 <;> rfl
  rw [hrefresh, ← hdistinct]
  refine ⟨fun hd => ?_, fun ⟨s, hs⟩ => ?_⟩
  · obtain ⟨t', hfold, hfn', hbinds⟩ := foldlM_insertCert hempty (hfn ▸ hdup) (hinserts t0 hpurge)
      (fun _ _ => rfl) hd
    refine ⟨t', by rw [hfold]; rfl, hbinds.congr fun k => ?_, hfn'.trans hfn⟩
    rw [or_none, cacheMap_congr hd (hdistinct.mp hd) fun cert => hperm.mem_iff]
  · obtain ⟨t', hfold, -⟩ := bind_eq_ok.mp hs
    exact (distinct_of_foldlM_insertCert hempty (hinserts t0 hpurge) hfold).2

variable {disks : List Disk}

lemma Caches.refresh (h : Caches z location o self) (hlocation : location ≠ [])
    (hassumed : Assumed z location disks) (hdisk : disk ∈ disks)
    (ho : ∀ d ∈ o, d ∈ disks) (hfit : RefreshFits z flat disk self) :
    ∃ self', Zcertstore.refresh z flat disk self = .ok self' ∧
      Caches z location (if (disk.dir location).isSome then some disk else o) self' := by
  cases hx : disk.dir location with
  | none => exact ⟨self, refresh_unchanged h.loader hlocation (by simp [hx]), h⟩
  | some x =>
    rw [isSome_some, if_pos rfl]
    by_cases hsame : (o.bind (·.dir location)).elim .zero signature = signature x
    · -- nothing is loaded, and the certificates are those of the directory now
      refine ⟨self, refresh_unchanged h.loader hlocation (by simp [hx, hsame]), ?_, ?_,
        h.duplicator⟩
      · rw [h.loader, bind_some, hx, hsame]
        rfl
      · refine h.binds.congr fun k => ?_
        cases o with
        | none => rw [elim_some, held_eq_nil_of_signature hx hsame.symm]; rfl
        | some d =>
          have hd := ho d rfl
          refine congrFun (cacheMap_congr (hassumed.distinct d hd) (hassumed.distinct disk hdisk) ?_) k
          rw [bind_some] at hsame
          cases hdx : d.dir location with
          | none =>
            rw [hdx] at hsame
            rw [held, hdx, held_eq_nil_of_signature hx hsame.symm]
            exact fun cert => Iff.rfl
          | some x' =>
            rw [hdx] at hsame
            exact hassumed.changes d hd disk hdisk x' hdx x hx hsame
    · obtain ⟨t', he, hbinds, hfn⟩ := (refresh_changed h.loader hlocation hx hsame h.binds
        h.duplicator hfit).1 (hassumed.distinct disk hdisk)
      exact ⟨_, he, by rw [bind_some, hx]; rfl, hbinds, hfn ▸ h.duplicator⟩

lemma Caches.call (h : Caches z location o self) (hlocation : location ≠ [])
    (hassumed : Assumed z location disks) {c : Disk × Option CString}
    (hdisk : c.1 ∈ disks) (ho : ∀ d ∈ o, d ∈ disks) (hfit : Fits z flat self c) :
    ∃ r self', Zcertstore.call z flat self c = .ok (r, self') ∧
      Caches z location (seen location o [c.1]) self' ∧
      ∀ publicKey ∈ c.2, r = ((seen location o [c.1]).elim [] (held z · location)).find?
        fun cert => keyOf z cert = publicKey := by
  obtain ⟨disk, k⟩ := c
  obtain ⟨s, hrefresh, hs⟩ := h.refresh hlocation hassumed hdisk ho hfit.1
  rw [Zcertstore.call]
  cases k with
  | none =>
    refine ⟨none, s, ?_, hs, fun publicKey hk => nomatch hk⟩
    rw [hrefresh]
    rfl
  | some publicKey =>
    obtain ⟨t, ht, hbinds, hfn⟩ := hs.binds.lookup (hfit.2 publicKey rfl s hrefresh)
    rw [join_cacheMap] at ht
    refine ⟨((seen location o [disk]).elim [] (held z · location)).find?
      fun cert => keyOf z cert = publicKey, { s with certs := t }, ?_,
      ⟨hs.loader, hbinds, hfn ▸ hs.duplicator⟩, ?_⟩
    · dsimp only
      rw [lookup, hrefresh, ok_bind, ht]
      rfl
    · rintro _ ⟨⟩
      rfl

lemma mem_of_seen {d : Disk} (h : d ∈ seen location o disks) :
    d ∈ o ∨ d ∈ disks := by
  induction disks generalizing o with
  | nil => exact .inl h
  | cons disk disks ih =>
    rcases ih h with hd | hd
    · dsimp only at hd
      split at hd
      · cases hd
        exact .inr mem_cons_self
      · exact .inl hd
    · exact .inr (mem_cons_of_mem _ hd)

lemma Caches.run (h : Caches z location o self) (hlocation : location ≠ [])
    (hassumed : Assumed z location disks) (ho : ∀ d ∈ o, d ∈ disks)
    {calls : List (Disk × Option CString)} (hdisks : ∀ c ∈ calls, c.1 ∈ disks)
    (hfits : StepsMeet (Zcertstore.call z flat) (Fits z flat) self calls) :
    ∃ rs self', run (Zcertstore.call z flat) self calls = .ok (rs, self') ∧
      Caches z location (seen location o (calls.map Prod.fst)) self' := by
  induction calls generalizing self o with
  | nil => exact ⟨[], self, rfl, h⟩
  | cons c calls ih =>
    rw [forall_mem_cons] at hdisks
    obtain ⟨r, s, hcall, hs, -⟩ := h.call hlocation hassumed hdisks.1 ho hfits.head
    have ho' : ∀ d ∈ seen location o [c.1], d ∈ disks := by
      intro d hd
      rcases mem_of_seen hd with hd | hd
      · exact ho d hd
      · rw [mem_singleton.mp hd]
        exact hdisks.1
    obtain ⟨rs, self', hrun, hself'⟩ := ih hs ho' hdisks.2 (hfits.tail hcall)
    refine ⟨r :: rs, self', ?_, hself'⟩
    rw [run_cons_ok hcall, hrun]
    rfl

/-- The loader gets through with one certificate for each key in the directory, and so does every
lookup. -/
def Loads (z : Z85) (flat : Flattening) (disk : Disk) (location : List UInt8) (self : Zcertstore) :
    Prop :=
  ∃ self', Zcertstore.refresh z flat disk self = .ok self' ∧
    (∃ m, Binds self'.certs m ∧ ∀ k, (m k).isSome ↔ Held z disk location k) ∧
    ∀ publicKey, self'.certs.LookupFits publicKey → ∃ r s,
      lookup z flat disk self publicKey = .ok (r, s) ∧ (r.isSome ↔ Held z disk location publicKey)

/-- A changed directory is loaded exactly when no key is in two of its files; a new store has not
seen its directory. -/
theorem loads_iff_distinct {loader : DiskLoader} (hloader : self.loader = some loader)
    (hlocation : loader.location ≠ []) (hx : disk.dir loader.location = some x)
    (hchanged : loader.signature ≠ signature x) {m : CString → Option (Option Zcert)}
    (hbinds : Binds self.certs m) (hdup : self.certs.fn.duplicator = none)
    (hfit : RefreshFits z flat disk self) :
    Loads z flat disk loader.location self ↔ Distinct (held z disk loader.location) := by
  obtain ⟨hloads, hdistinct⟩ := refresh_changed hloader hlocation hx hchanged hbinds hdup hfit
  refine ⟨fun ⟨s, hs, _⟩ => hdistinct ⟨s, hs⟩, fun hd => ?_⟩
  obtain ⟨t', he, hcache, -⟩ := hloads hd
  refine ⟨_, he, ⟨_, hcache, fun k => ?_⟩, fun publicKey hlookup => ?_⟩
  · rw [held_iff, cacheMap, isSome_map]
    simp
  · obtain ⟨t, ht, -⟩ := hcache.lookup hlookup
    rw [join_cacheMap] at ht
    refine ⟨_, _, by rw [lookup, he, ok_bind, ht]; rfl, ?_⟩
    rw [held_iff]
    simp

/-- A lookup is right exactly when the directory can be read, or had no such certificate when it was
last read. -/
theorem lookup_isSome_iff (hlocation : location ≠ []) {calls : List (Disk × Option CString)}
    (hassumed : Assumed z location (calls.map Prod.fst))
    (hfits : StepsMeet (Zcertstore.call z flat) (Fits z flat) (blank location) calls)
    {pre post : List (Disk × Option CString)} {publicKey : CString}
    (hcalls : calls = pre ++ (disk, some publicKey) :: post) :
    ∃ rs s r s', run (Zcertstore.call z flat) (blank location) pre = .ok (rs, s) ∧
      lookup z flat disk s publicKey = .ok (r, s') ∧
      ((r.isSome ↔ Held z disk location publicKey) ↔ (disk.dir location).isSome ∨
        ∀ d ∈ seen location none (pre.map Prod.fst), ¬ Held z d location publicKey) := by
  have hmem : ∀ c ∈ calls, c.1 ∈ calls.map Prod.fst := fun c hc => mem_map_of_mem hc
  subst hcalls
  obtain ⟨rs, s, hrun, hs⟩ := (caches_blank location).run hlocation hassumed (fun d hd => nomatch hd)
    (fun c hc => hmem c (mem_append_left _ hc)) hfits.left
  have ho : ∀ d ∈ seen location none (pre.map Prod.fst),
      d ∈ (pre ++ (disk, some publicKey) :: post).map Prod.fst := by
    intro d hd
    rcases mem_of_seen hd with hd | hd
    · cases hd
    · rw [map_append]
      exact mem_append_left _ hd
  have hdisk := hmem (disk, some publicKey) (mem_append_right _ mem_cons_self)
  have hfit := (hfits.right hrun).head
  obtain ⟨r, s', hcall, -, hr⟩ := hs.call hlocation hassumed hdisk ho hfit
  refine ⟨rs, s, r, s', hrun, hcall, ?_⟩
  have hfound : ∀ certs : List Zcert, (certs.find? fun cert => keyOf z cert = publicKey).isSome ↔
      ∃ cert ∈ certs, keyOf z cert = publicKey := fun certs => by simp
  rw [hr publicKey rfl, held_iff]
  cases hx : disk.dir location with
  | some x => simp [seen, hx]
  | none =>
    have hnone : held z disk location = [] := by rw [held, hx]; rfl
    rw [hnone, seen, foldl_cons, hx]
    cases seen location none (pre.map Prod.fst) with
    | none => simp
    | some d => simp [held_iff]

end

/-! ## One file -/

def asListed : Flattening := ⟨filesOf, fun _ => .refl _⟩

def oneFile : Directory × Zdir := (⟨[100], [⟨[100, 47, 97], 5, 64, true⟩], 1⟩, .nil)

def oneCertificate : List UInt8 :=
  Bytes.ascii "curve\n    public-key = \"" ++ replicate 40 49 ++ [34, 10]

def oneDisk : Disk where
  dir path := if path = [100] then some oneFile else none
  regular _ := true
  read name := if name = [100, 47, 97] then some oneCertificate else none
  scanned path x hx := by
    split at hx
    · cases hx
      rfl
    · cases hx

def emptyDisk : Disk where
  dir _ := none
  regular _ := false
  read _ := none
  scanned _ _ hx := nomatch hx

def oneKey : CString := .ofBuffer (replicate 40 49)

lemma refreshFits_oneDisk : RefreshFits .standard asListed oneDisk (blank [100]) := by
  rintro loader ⟨⟩ x ⟨⟩ -
  refine ⟨by decide, by decide, ?_, ?_⟩
  · intro file hfile
    obtain rfl := mem_singleton.mp hfile
    exact ⟨_, rfl⟩
  · rintro t ⟨⟩
    exact .cons ⟨fun _ => by decide +kernel, fun _ => by decide +kernel⟩
      fun r t' _ => stepsMeet_nil t'

theorem loads_oneDisk : Loads .standard asListed oneDisk [100] (blank [100]) :=
  (loads_iff_distinct rfl (cons_ne_nil _ _) (show oneDisk.dir [100] = some oneFile from rfl)
    (by decide) (binds_new ⟨rfl, rfl⟩) rfl refreshFits_oneDisk).mpr (pairwise_singleton _ _)

/-- The certificate in a second file too. -/
def copiedDisk : Disk where
  dir path := if path = [100] then
    some (⟨[100], [⟨[100, 47, 97], 5, 64, true⟩, ⟨[100, 47, 98], 5, 64, true⟩], 2⟩, .nil) else none
  regular _ := true
  read _ := some oneCertificate
  scanned path x hx := by
    split at hx
    · cases hx
      rfl
    · cases hx

theorem new_copiedDisk : (match new .standard asListed copiedDisk [100] with
    | .error .assertion => true
    | _ => false) = true ∧ (held .standard copiedDisk [100]).length = 2 := by
  decide +kernel

lemma fits_oneDisk (disk : Disk) (h : ∀ x ∈ disk.dir [100], signature x = signature oneFile) :
    StepsMeet (call .standard asListed) (Fits .standard asListed) (blank [100])
      [(oneDisk, none), (disk, some oneKey)] := by
  refine .cons ⟨refreshFits_oneDisk, fun k hk => nomatch hk⟩ fun r s hs => ?_
  have hopened : ∀ p ∈ (call .standard asListed (blank [100]) (oneDisk, none)).toOption,
      p.2.loader = some ⟨[100], signature oneFile⟩ ∧ p.2.certs.HasRoom := by decide +kernel
  obtain ⟨hloader, hroom⟩ := hopened (r, s) (congrArg _ hs)
  refine .cons ⟨?_, ?_⟩ fun r s _ => stepsMeet_nil s
  · intro loader hl x hx hne
    rw [hloader] at hl
    cases hl
    exact absurd (h x hx).symm hne
  · intro k _ s' hs' _
    rw [refresh_unchanged hloader (cons_ne_nil _ _) fun x hx => (h x hx).symm] at hs'
    cases hs'
    exact hroom

lemma assumed_oneDisk : Assumed .standard [100] [oneDisk, oneDisk] where
  changes d hd d' hd' x _ x' _ _ cert := by
    rcases mem_pair.mp hd with rfl | rfl <;> rcases mem_pair.mp hd' with rfl | rfl <;> rfl
  distinct d hd := by
    rcases mem_pair.mp hd with rfl | rfl <;> exact pairwise_singleton _ _

lemma assumed_emptyDisk : Assumed .standard [100] [oneDisk, emptyDisk] where
  changes d hd d' hd' x hx x' hx' _ cert := by
    rcases mem_pair.mp hd with rfl | rfl
    · rcases mem_pair.mp hd' with rfl | rfl
      · exact Iff.rfl
      · cases hx'
    · cases hx
  distinct d hd := by
    rcases mem_pair.mp hd with rfl | rfl
    ·
      exact pairwise_singleton _ _
    · exact Pairwise.nil

theorem lookup_isSome_oneDisk : ∃ rs s r s',
    run (call .standard asListed) (blank [100]) [(oneDisk, none)] = .ok (rs, s) ∧
      lookup .standard asListed oneDisk s oneKey = .ok (r, s') ∧
      (r.isSome ↔ Held .standard oneDisk [100] oneKey) := by
  obtain ⟨rs, s, r, s', hrun, hlookup, hright⟩ := lookup_isSome_iff (cons_ne_nil _ _)
    assumed_oneDisk (fits_oneDisk oneDisk fun x hx => by cases hx; rfl)
    (show _ = [(oneDisk, none)] ++ [(oneDisk, some oneKey)] from rfl)
  exact ⟨rs, s, r, s', hrun, hlookup, hright.mpr (.inl rfl)⟩

/-- A certificate is still found when its directory has been removed. -/
theorem lookup_isSome_removed : ∃ rs s cert s',
    run (call .standard asListed) (blank [100]) [(oneDisk, none)] = .ok (rs, s) ∧
      lookup .standard asListed emptyDisk s oneKey = .ok (some cert, s') ∧
      ¬ Held .standard emptyDisk [100] oneKey := by
  have hlocation : ([100] : List UInt8) ≠ [] := cons_ne_nil _ _
  have hfits := fits_oneDisk emptyDisk fun x hx => nomatch hx
  have hone : oneDisk ∈ [oneDisk, emptyDisk] := mem_cons_self
  obtain ⟨r, s, hopen, hs, -⟩ := (caches_blank [100]).call hlocation assumed_emptyDisk hone
    (fun d hd => nomatch hd) hfits.head
  have hseen : seen [100] none [oneDisk] = some oneDisk := rfl
  obtain ⟨found, s', hlookup, -, hfound⟩ := hs.call hlocation assumed_emptyDisk
    (mem_cons_of_mem _ mem_cons_self)
    (by rintro d ⟨⟩; exact hone) (hfits.tail hopen).head
  have hcert : found = some ⟨Z85.standard.decode (replicate 40 49), .zero, []⟩ := by
    rw [hfound oneKey rfl]
    decide +kernel
  refine ⟨[r], s, _, s', ?_, hcert ▸ hlookup, ?_⟩
  · rw [run_cons_ok hopen]
    rfl
  · rintro ⟨x, hx, -⟩
    cases hx

end Czmq.Zcertstore
