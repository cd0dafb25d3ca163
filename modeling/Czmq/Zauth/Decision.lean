import Czmq.Zauth.Actor

/-! Which requests the actor grants. The lists are those of all commands so far; passwords and
certificates are as they are found at the time of the request. -/

namespace Czmq

open Option List Machine Bytes Zhashx

namespace Passwords

variable {host : Host} {t : Dictionary} {m : CString → Option (Option CString)}

def prepared (t : Dictionary) : Dictionary :=
  { t with fn := { t.fn with destructor := true, duplicator := some id } }

def LoadFits (host : Host) (t : Dictionary) (filename : CString) : Prop :=
  ∀ file ∈ host.contents filename.1,
    StepsMeet mapStep MapFits (prepared t) (updates (bindings file))

def Changed (host : Host) (self : Passwords) : Prop :=
  self.modified < host.modified self.filename.1 ∧ host.stable self.filename.1 = true

def RefreshFits (host : Host) (self : Passwords) : Prop :=
  Changed host self → self.table.limit < 2 ^ 32 ∧
    ∀ t, empty self.table = .ok t → LoadFits host t self.filename

lemma exists_load (h : Binds t m) {filename : CString} (hfit : LoadFits host t filename) :
    ∃ self, load host t filename = .ok self ∧ ∃ m', Binds self.table m' := by
  have hprepared : Binds (prepared t) m :=
    ⟨⟨h.wf.toShape.congr rfl rfl rfl rfl, h.wf.hashed, h.wf.distinct⟩,
      ⟨h.strings.keyDuplicator, h.strings.keyComparator⟩, h.bound⟩
  unfold load loadFile
  cases hfile : host.contents filename.1 with
  | none => exact ⟨_, rfl, m, hprepared⟩
  | some file =>
    obtain ⟨rs, t', hrun, hbinds⟩ := hprepared.updates (hfit file hfile)
    have hload : (buffers file).foldlM loadBuffer (prepared t) = .ok t' := by
      rw [foldlM_loadBuffer]
      exact congrArg (Except.map Prod.snd) hrun
    refine ⟨⟨t', filename, host.modified filename.1⟩, ?_, hbinds⟩
    change ((buffers file).foldlM loadBuffer (prepared t) >>= _) >>= _ = _
    rw [hload]
    rfl

lemma emptyBucket_eq (h : Shape t) (i : Nat) : emptyBucket t i = purgeBucket t i := by
  obtain ⟨t', he, -, hset, -⟩ := destroyChain_eq _ h (show t.items.getD i [] = _ from rfl)
  rw [emptyBucket, purgeBucket, he]
  change Except.ok t' = Except.ok { t' with items := t'.items.set i [] }
  rw [hset, set_set, ← hset]

lemma foldlM_emptyBucket (is : List Nat) (h : Shape t) :
    is.foldlM emptyBucket t = is.foldlM purgeBucket t := by
  induction is generalizing t with
  | nil => rfl
  | cons i is ih =>
    obtain ⟨t', he, hs, -⟩ := purgeBucket_eq h i
    rw [foldlM_cons, foldlM_cons, emptyBucket_eq h, he]
    exact ih hs

lemma exists_refresh {self : Passwords} (h : Binds self.table m) (hfit : RefreshFits host self) :
    ∃ self', refresh host self = .ok self' ∧ ∃ m', Binds self'.table m' := by
  rw [refresh]
  split
  · next hchanged =>
    obtain ⟨hlim, hload⟩ := hfit hchanged
    obtain ⟨t, he, hs, hall, -, hfn, -⟩ := sPurge_of_lt h.wf.toShape hlim
    have hempty : empty self.table = .ok t := by
      rw [← he, empty, sPurge, Loop.forUint_eq_foldlM _ _ _ hlim,
        Loop.forUint_eq_foldlM _ _ _ hlim, foldlM_emptyBucket _ h.wf.toShape]
    rw [hempty]
    exact exists_load (h.of_empty hs hall hfn) (hload t hempty)
  · exact ⟨self, rfl, m, h⟩

end Passwords

namespace Zcertstore

open Zdir

variable {z : Z85} {flat : Flattening} {disk : Disk} {self : Zcertstore}

structure Sound (store : Zcertstore) : Prop where
  binds : ∃ m, Binds store.certs m
  duplicator : store.certs.fn.duplicator = none

/-- The loader gets through: `RefreshFits`, a location, and no key in two files. -/
structure Ready (z : Z85) (flat : Flattening) (disk : Disk) (store : Zcertstore) : Prop where
  location : ∀ loader ∈ store.loader, loader.location ≠ []
  fits : RefreshFits z flat disk store
  distinct : ∀ loader ∈ store.loader, Distinct (held z disk loader.location)

lemma sound_blank (location : List UInt8) : Sound (blank location) :=
  ⟨⟨_, binds_new ⟨rfl, rfl⟩⟩, rfl⟩

lemma ready_of_no_loader (h : self.loader = none) : Ready z flat disk self := by
  have hnone : ∀ loader, loader ∉ self.loader := by
    rw [h]
    exact fun _ => not_mem_none _
  exact ⟨fun loader hl => absurd hl (hnone loader), fun loader hl => absurd hl (hnone loader),
    fun loader hl => absurd hl (hnone loader)⟩

lemma Sound.refresh (h : Sound self) (hready : Ready z flat disk self) :
    ∃ self', Zcertstore.refresh z flat disk self = .ok self' ∧ Sound self' := by
  obtain ⟨m, hm⟩ := h.binds
  cases hloader : self.loader with
  | none => exact ⟨self, by rw [Zcertstore.refresh, hloader], h⟩
  | some loader =>
    have hlocation := hready.location loader hloader
    by_cases hsame : ∀ x ∈ disk.dir loader.location, loader.signature = signature x
    · exact ⟨self, refresh_unchanged hloader hlocation hsame, h⟩
    · obtain ⟨x, hx, hne⟩ : ∃ x ∈ disk.dir loader.location, loader.signature ≠ signature x := by
        simpa using hsame
      obtain ⟨t', he, hbinds, hfn⟩ := (refresh_changed hloader hlocation hx hne hm h.duplicator
        hready.fits).1 (hready.distinct loader hloader)
      exact ⟨_, he, ⟨_, hbinds⟩, hfn ▸ h.duplicator⟩

lemma Sound.lookup (h : Sound self) (hready : Ready z flat disk self) {publicKey : CString}
    (hfit : ∀ s, Zcertstore.refresh z flat disk self = .ok s → s.certs.LookupFits publicKey) :
    ∃ cert self', Zcertstore.lookup z flat disk self publicKey = .ok (cert, self') ∧
      Sound self' := by
  obtain ⟨s, hrefresh, hs⟩ := h.refresh hready
  obtain ⟨m, hm⟩ := hs.binds
  obtain ⟨t, ht, hbinds, hfn⟩ := hm.lookup (hfit s hrefresh)
  refine ⟨(m publicKey).join, { s with certs := t }, ?_, ⟨m, hbinds⟩, hfn ▸ hs.duplicator⟩
  rw [Zcertstore.lookup, hrefresh, ok_bind, ht]
  rfl

end Zcertstore

namespace Zauth

open Zdir Zcertstore

inductive Command where
  | allow (addresses : List (List UInt8))
  | deny (addresses : List (List UInt8))
  | plain (filename : List UInt8)
  | curve (location : List UInt8)
  | gssapi
  | verbose

def Command.frames : Command → List (List UInt8)
  | .allow addresses => Bytes.ascii "ALLOW" :: addresses
  | .deny addresses => Bytes.ascii "DENY" :: addresses
  | .plain filename => [Bytes.ascii "PLAIN", filename]
  | .curve location => [Bytes.ascii "CURVE", location]
  | .gssapi => [Bytes.ascii "GSSAPI"]
  | .verbose => [Bytes.ascii "VERBOSE"]

inductive Mechanism where
  | null
  | plain (username password : List UInt8)
  | curve (key : Key)
  | gssapi (principal : List UInt8)

def Mechanism.frames : Mechanism → List (List UInt8)
  | .null => [Bytes.ascii "NULL"]
  | .plain username password => [Bytes.ascii "PLAIN", username, password]
  | .curve key => [Bytes.ascii "CURVE", key.1]
  | .gssapi principal => [Bytes.ascii "GSSAPI", principal]

structure Request where
  sequence : List UInt8
  domain : List UInt8
  address : List UInt8
  identity : List UInt8
  mechanism : Mechanism

def Request.frames (r : Request) : List (List UInt8) :=
  [Bytes.ascii "1.0", r.sequence, r.domain, r.address, r.identity] ++ r.mechanism.frames

inductive Action where
  | command (host : Host) (c : Command)
  | request (host : Host) (r : Request)

def Action.event : Action → Event
  | .command host c => .command host c.frames
  | .request host r => .request host r.frames

def allowed (actions : List Action) : List CString :=
  actions.flatMap fun
    | .command _ (.allow addresses) => addresses.map string
    | _ => []

def denied (actions : List Action) : List CString :=
  actions.flatMap fun
    | .command _ (.deny addresses) => addresses.map string
    | _ => []

def nextAny (any : Bool) : Action → Bool
  | .command _ (.curve location) => decide ((string location).1 = curveAllowAny)
  | _ => any

def allowsAny (actions : List Action) : Bool := actions.foldl nextAny false

/-- An address is let through: it is allowed if any are, and otherwise not denied. -/
def Passes (allow deny : List CString) (address : CString) : Prop :=
  if allow = [] then address ∉ deny else address ∈ allow

section
variable (z : Z85) (flat : Flattening)

def Proves (host : Host) (self : Zauth) (any : Bool) : Mechanism → Prop
  | .null => True
  | .gssapi _ => True
  | .plain username password => ∃ p ∈ self.passwords, ∃ q, p.refresh host = .ok q ∧
      (string username, some (string password)) ∈ q.table.pairs
  | .curve key => any = true ∨ ∃ s ∈ self.certstore, ∃ cert s',
      s.lookup z flat host.toDisk (clientKeyOf z key) = .ok (some cert, s')

def refusal (sequence : List UInt8) : Reply :=
  ⟨Bytes.ascii "1.0", (string sequence).1, Bytes.ascii "400", Bytes.ascii "No access", [], []⟩

/-- The reply is 200 for right credentials from an address that is let through, and otherwise a
refusal in which they have no part. -/
structure Lawful (actions : List Action) (host : Host) (s : Zauth) (r : Request) (reply : Reply) :
    Prop where
  granted : reply.statusCode = Bytes.ascii "200" ↔
    Passes (allowed actions) (denied actions) (string r.address) ∧
      Proves z flat host s (allowsAny actions) r.mechanism
  refused : ¬ (Passes (allowed actions) (denied actions) (string r.address) ∧
    Proves z flat host s (allowsAny actions) r.mechanism) → reply = refusal r.sequence

def propertySize (entry : List UInt8 × List UInt8) : Nat := 1 + entry.1.length + 4 + entry.2.length

def MetadataFit (cert : Zcert) : Prop :=
  (∀ entry ∈ cert.metadata, entry.1.length ≤ 255) ∧ (cert.metadata.map propertySize).sum ≤ 512

def Admits (self : Zauth) (address : CString) : Prop :=
  if self.allowlist.size = 0 then (self.blocklist.entryOf address).isNone
  else (self.allowlist.entryOf address).isSome

def MechanismFits (host : Host) (self : Zauth) : Mechanism → Prop
  | .plain username _ => ∀ p ∈ self.passwords, p.RefreshFits host ∧
      ∀ q, p.refresh host = .ok q → q.table.LookupFits (string username)
  | .curve key => self.allowAny = false → ∀ s ∈ self.certstore, Ready z flat host.toDisk s ∧
      ∀ s', s.refresh z flat host.toDisk = .ok s' → s'.certs.LookupFits (clientKeyOf z key)
  | _ => True

/-- The tables that a request uses fit; for a denied address nothing else is asked. -/
structure RequestFits (host : Host) (s : Zauth) (r : Request) : Prop where
  allowlist : s.allowlist.size ≠ 0 → s.allowlist.LookupFits (string r.address)
  blocklist : s.allowlist.size = 0 → s.blocklist.size ≠ 0 →
    s.blocklist.LookupFits (string r.address)
  mechanism : Admits s (string r.address) → MechanismFits z flat host s r.mechanism

def ReplyFits (host : Host) (self : Zauth) (r : Request) : Prop :=
  ∀ key, r.mechanism = .curve key → Admits self (string r.address) → self.allowAny = false →
    ∀ s ∈ self.certstore, ∀ cert s',
      s.lookup z flat host.toDisk (clientKeyOf z key) = .ok (some cert, s') → MetadataFit cert

def CommandFits (host : Host) (self : Zauth) : Command → Prop
  | .allow addresses => StepsMeet insertAddress (fun t a => t.InsertFits a)
      self.allowlist (addresses.map string)
  | .deny addresses => StepsMeet insertAddress (fun t a => t.InsertFits a)
      self.blocklist (addresses.map string)
  | .plain filename => (∀ p ∈ self.passwords, p.table.limit < 2 ^ 32) ∧
      Passwords.LoadFits host (Zhashx.new defaultCallbacks) (string filename)
  | .curve location => (string location).1 ≠ curveAllowAny →
      (∀ s ∈ self.certstore, s.certs.limit < 2 ^ 32) ∧
      Ready z flat host.toDisk (blank (string location).1)
  | _ => True

def Fits (self : Zauth) : Action → Prop
  | .command host c => CommandFits z flat host self c
  | .request host r => RequestFits z flat host self r ∧ ReplyFits z flat host self r

variable (order : List (List UInt8 × List UInt8) → List (List UInt8 × List UInt8))

def act (self : Zauth) (a : Action) : Except Fault (Option Reply × Zauth) :=
  step z flat order self a.event

end

/-! ## What the state is after a history -/

def listMap (addresses : List CString) (k : CString) : Option (Option CString) :=
  if k ∈ addresses then some (some okValue) else none

structure Tracks (allow deny : List CString) (any : Bool) (s : Zauth) : Prop where
  allowlist : Binds s.allowlist (listMap allow)
  allowValues : s.allowlist.fn.duplicator = none
  blocklist : Binds s.blocklist (listMap deny)
  blockValues : s.blocklist.fn.duplicator = none
  passwords : ∀ p ∈ s.passwords, ∃ m, Binds p.table m
  certstore : ∀ c ∈ s.certstore, Sound c
  allowAny : s.allowAny = any
  running : s.terminated = false

lemma tracks_new {certstore : Option Zcertstore} (h : ∀ s ∈ certstore, Sound s) :
    Tracks [] [] false (new certstore) where
  allowlist := (binds_new ⟨rfl, rfl⟩).congr fun k => by simp [listMap]
  allowValues := rfl
  blocklist := (binds_new ⟨rfl, rfl⟩).congr fun k => by simp [listMap]
  blockValues := rfl
  passwords := fun p hp => nomatch hp
  certstore := h
  allowAny := rfl
  running := rfl

lemma exists_insertAddresses {t : Dictionary} {as : List CString} (h : Binds t (listMap as))
    (hdup : t.fn.duplicator = none) (xs : List CString)
    (hfit : StepsMeet insertAddress (fun t a => t.InsertFits a) t xs) :
    ∃ rs t', run insertAddress t xs = .ok (rs, t') ∧ Binds t' (listMap (as ++ xs)) ∧
      t'.fn.duplicator = none := by
  induction xs generalizing t as with
  | nil => exact ⟨[], t, rfl, by rwa [append_nil], hdup⟩
  | cons x xs ih =>
    obtain ⟨t1, he, hfn, hbinds⟩ := h.insert (some okValue) hfit.head
    have hstep : insertAddress t x = .ok (_, t1) := he
    -- an address that is in the list already stays as it is
    have hnext : Binds t1 (listMap (as ++ [x])) := by
      refine hbinds.congr fun k => ?_
      rw [Callbacks.dupValue, hdup]
      by_cases hx : x ∈ as
      · have hsame : k ∈ as ++ [x] ↔ k ∈ as := by
          rw [mem_append, mem_singleton]
          exact or_iff_left_of_imp fun hk => hk ▸ hx
        simp [listMap, hx, hsame]
      · by_cases hk : k = x
        · simp [listMap, hx, hk]
        · simp [listMap, hx, hk]
    obtain ⟨rs, t', hrun, hbinds', hdup'⟩ := ih hnext (hfn ▸ hdup) (hfit.tail hstep)
    rw [append_assoc] at hbinds'
    refine ⟨(if (listMap as x).isNone then 0 else -1) :: rs, t', ?_, hbinds', hdup'⟩
    rw [run_cons_ok hstep, hrun]
    rfl

section
variable {z : Z85} {flat : Flattening} {allow deny : List CString} {any : Bool} {self : Zauth}
  {host : Host}

lemma Tracks.unchanged (h : Tracks allow deny any self) :
    Tracks (allow ++ []) (deny ++ []) any self := by
  rwa [append_nil, append_nil]

lemma Tracks.handlePlain (h : Tracks allow deny any self) {filename : List UInt8}
    (hfit : CommandFits z flat host self (.plain filename)) :
    ∃ self', Zauth.handlePlain host self filename = .ok self' ∧ Tracks allow deny any self' := by
  have hnew : Binds (Zhashx.new defaultCallbacks) fun _ => none := binds_new ⟨rfl, rfl⟩
  obtain ⟨p, hload, hp⟩ := Passwords.exists_load hnew hfit.2
  refine ⟨{ self with passwords := some p }, ?_, { h with passwords := ?_ }⟩
  · rw [Zauth.handlePlain]
    cases hold : self.passwords with
    | none =>
      rw [hload]
      rfl
    | some old =>
      obtain ⟨m, hm⟩ := h.passwords old hold
      obtain ⟨t, hpurge, -⟩ := sPurge_of_lt hm.wf.toShape (hfit.1 old hold)
      dsimp only
      rw [hpurge, hload]
      rfl
  · rintro q ⟨⟩
    exact hp

lemma Tracks.handleCurve (h : Tracks allow deny any self) {location : List UInt8}
    (hfit : CommandFits z flat host self (.curve location)) :
    ∃ self', Zauth.handleCurve z flat host self location = .ok self' ∧
      Tracks allow deny (decide ((string location).1 = curveAllowAny)) self' := by
  rw [Zauth.handleCurve]
  by_cases hany : (string location).1 = curveAllowAny
  · rw [if_pos hany, decide_eq_true hany]
    exact ⟨_, rfl, { h with allowAny := rfl }⟩
  · rw [if_neg hany, decide_eq_false hany]
    obtain ⟨hlim, hready⟩ := hfit hany
    obtain ⟨s, hopen, hs⟩ := (sound_blank _).refresh hready
    have hopen : Zcertstore.new z flat host.toDisk (string location).1 = .ok s := hopen
    refine ⟨{ self with certstore := some s, allowAny := false }, ?_,
      { h with certstore := ?_, allowAny := rfl }⟩
    · cases hold : self.certstore with
      | none =>
        rw [hopen]
        rfl
      | some old =>
        obtain ⟨m, hm⟩ := (h.certstore old hold).binds
        obtain ⟨t, hpurge, -⟩ := sPurge_of_lt hm.wf.toShape (hlim old hold)
        dsimp only
        rw [hpurge, hopen]
        rfl
    · rintro s' ⟨⟩
      exact hs

lemma Tracks.handlePipe (h : Tracks allow deny any self) {c : Command}
    (hfit : CommandFits z flat host self c) :
    ∃ self', Zauth.handlePipe z flat host self c.frames = .ok self' ∧
      Tracks (allow ++ allowed [.command host c]) (deny ++ denied [.command host c])
        (nextAny any (.command host c)) self' := by
  cases c with
  | allow addresses =>
    obtain ⟨rs, t, hrun, hbinds, hdup⟩ := exists_insertAddresses h.allowlist h.allowValues _ hfit
    refine ⟨{ self with allowlist := t }, ?_, ?_⟩
    · change (insertAddresses self.allowlist addresses >>= _) = _
      rw [insertAddresses, hrun]
      rfl
    · simp only [allowed, denied, flatMap_cons, flatMap_nil, append_nil]
      exact { h with allowlist := hbinds, allowValues := hdup }
  | deny addresses =>
    obtain ⟨rs, t, hrun, hbinds, hdup⟩ := exists_insertAddresses h.blocklist h.blockValues _ hfit
    refine ⟨{ self with blocklist := t }, ?_, ?_⟩
    · change (insertAddresses self.blocklist addresses >>= _) = _
      rw [insertAddresses, hrun]
      rfl
    · simp only [allowed, denied, flatMap_cons, flatMap_nil, append_nil]
      exact { h with blocklist := hbinds, blockValues := hdup }
  | plain filename =>
    obtain ⟨self', he, hself'⟩ := h.handlePlain hfit
    exact ⟨self', he, hself'.unchanged⟩
  | curve location =>
    obtain ⟨self', he, hself'⟩ := h.handleCurve hfit
    exact ⟨self', he, hself'.unchanged⟩
  | gssapi => exact ⟨self, rfl, h.unchanged⟩
  | verbose => exact ⟨{ self with verbose := true }, rfl, { h.unchanged with }⟩

/-! ## Requests -/

variable {addresses : List CString}

lemma isSome_listMap {k : CString} :
    (listMap addresses k).isSome ↔ k ∈ addresses := by
  rw [listMap]
  split <;> simp_all

lemma listMap_join_isSome {k : CString} :
    (listMap addresses k).join.isSome = decide (k ∈ addresses) := by
  rw [listMap]
  split <;> simp_all

lemma size_eq_zero_iff_of_listMap {t : Dictionary}
    (h : Binds t (listMap addresses)) : t.size = 0 ↔ addresses = [] := by
  rw [h.size_eq_zero_iff, eq_nil_iff_forall_not_mem]
  refine forall_congr' fun k => ?_
  rw [← isSome_listMap, not_isSome_iff_eq_none]

lemma Tracks.admits_iff (h : Tracks allow deny any self) (address : CString) :
    Admits self address ↔ Passes allow deny address := by
  have hentry : ∀ {t : Dictionary} {as : List CString}, Binds t (listMap as) →
      ((t.entryOf address).isSome ↔ address ∈ as) := by
    intro t as ht
    rw [← isSome_listMap, ← ht.bound, isSome_map]
  have hsize := size_eq_zero_iff_of_listMap h.allowlist
  rw [Admits, Passes]
  by_cases hnil : allow = []
  · rw [if_pos (hsize.mpr hnil), if_pos hnil, ← hentry h.blocklist, not_isSome_iff_eq_none,
      isNone_iff_eq_none]
  · rw [if_neg (mt hsize.mp hnil), if_neg hnil, hentry h.allowlist]

open Classical in
lemma Tracks.checkAddress (h : Tracks allow deny any self) {address : CString}
    (hallow : self.allowlist.size ≠ 0 → self.allowlist.LookupFits address)
    (hblock : self.allowlist.size = 0 → self.blocklist.size ≠ 0 →
      self.blocklist.LookupFits address) :
    ∃ ok self', Zauth.checkAddress self address =
        .ok (ok, !decide (Passes allow deny address), self') ∧
      Tracks allow deny any self' ∧ self'.passwords = self.passwords ∧
      self'.certstore = self.certstore ∧ (¬ Passes allow deny address → ok = false) := by
  have hsize := size_eq_zero_iff_of_listMap h.allowlist
  rw [Zauth.checkAddress]
  by_cases hempty : self.allowlist.size = 0
  · have hnil := hsize.mp hempty
    have hpasses : Passes allow deny address ↔ address ∉ deny := by rw [Passes, if_pos hnil]
    rw [if_neg (not_not.mpr hempty)]
    by_cases hdeny : self.blocklist.size = 0
    · have hall : Passes allow deny address := by
        rw [hpasses, (size_eq_zero_iff_of_listMap h.blocklist).mp hdeny]
        exact not_mem_nil
      rw [if_neg (not_not.mpr hdeny), decide_eq_true hall]
      exact ⟨false, self, rfl, h, rfl, rfl, fun hn => absurd hall hn⟩
    · obtain ⟨t, ht, hbinds, hfn⟩ := h.blocklist.lookup (hblock hempty hdeny)
      refine ⟨!decide (address ∈ deny), { self with blocklist := t }, ?_,
        { h with blocklist := hbinds, blockValues := hfn ▸ h.blockValues }, rfl, rfl, ?_⟩
      · rw [if_pos hdeny, ht, ok_bind]
        simp only [hpasses, ← not_isSome, listMap_join_isSome, decide_not, Bool.not_not]
        rfl
      · rw [hpasses, not_not]
        intro hmem
        rw [decide_eq_true hmem]
        rfl
  · have hpasses : Passes allow deny address ↔ address ∈ allow := by
      rw [Passes, if_neg (mt hsize.mpr hempty)]
    obtain ⟨t, ht, hbinds, hfn⟩ := h.allowlist.lookup (hallow hempty)
    refine ⟨decide (address ∈ allow), { self with allowlist := t }, ?_,
      { h with allowlist := hbinds, allowValues := hfn ▸ h.allowValues }, rfl, rfl, ?_⟩
    · rw [if_pos hempty, ht, ok_bind]
      simp only [hpasses, ← not_isSome, listMap_join_isSome]
      rfl
    · rw [hpasses]
      exact decide_eq_false

variable {metadata : List UInt8}

lemma addProperty_fits {entry : List UInt8 × List UInt8}
    (hname : entry.1.length ≤ 255) (hroom : metadata.length + propertySize entry ≤ 512) :
    ∃ out, addProperty metadata entry = .ok out ∧
      out.length = metadata.length + propertySize entry := by
  have hroom' : metadata.length + (1 + entry.1.length + 4 + entry.2.length) ≤ 512 := hroom
  refine ⟨metadata ++ UInt8.ofNat entry.1.length :: entry.1 ++ toBytes 4 entry.2.length ++ entry.2,
    ?_, ?_⟩
  · rw [addProperty, if_neg (by omega), if_neg (by omega), if_neg (by omega), if_neg (by omega)]
  · simp only [length_append, length_cons, length_toBytes, propertySize]
    omega

lemma exists_foldlM_addProperty_iff (entries : List (List UInt8 × List UInt8))
    (hlen : metadata.length ≤ 512) :
    (∃ out, entries.foldlM addProperty metadata = .ok out) ↔
      (∀ entry ∈ entries, entry.1.length ≤ 255) ∧
        metadata.length + (entries.map propertySize).sum ≤ 512 := by
  induction entries generalizing metadata with
  | nil => simpa [pure, Except.pure] using hlen
  | cons entry entries ih =>
    rw [foldlM_cons, forall_mem_cons, map_cons, sum_cons]
    by_cases hfits : entry.1.length ≤ 255 ∧ metadata.length + propertySize entry ≤ 512
    · obtain ⟨hname, hroom⟩ := hfits
      obtain ⟨out, hadd, hsum⟩ := addProperty_fits hname hroom
      rw [hadd, ok_bind, ih (hsum ▸ hroom), hsum, and_iff_right hname, Nat.add_assoc]
    · have hadd : ∃ e, addProperty metadata entry = .error e := by
        rw [addProperty]
        split_ifs with h1 h2 h3 h4
        · exact ⟨_, rfl⟩
        · exact ⟨_, rfl⟩
        · exact ⟨_, rfl⟩
        · exact ⟨_, rfl⟩
        · exact absurd ⟨not_lt.mp h1, not_lt.mp h4⟩ hfits
      obtain ⟨e, he⟩ := hadd
      rw [he]
      refine iff_of_false (fun ⟨out, hout⟩ => nomatch hout) ?_
      rintro ⟨⟨hname, -⟩, hroom⟩
      exact hfits ⟨hname, by omega⟩

/-- The bytes that `s_add_property` writes for these items, in a buffer of any size. A name or value
that is too long stops the program. -/
def bytesWritten : List (List UInt8 × List UInt8) → Nat
  | [] => 0
  | entry :: entries =>
    if entry.1.length > 255 then 0
    else if entry.2.length > 0x7FFFFFFF then 1 + entry.1.length
    else propertySize entry + bytesWritten entries

lemma foldlM_addProperty_outside_iff (entries : List (List UInt8 × List UInt8))
    (hlen : metadata.length ≤ 512) :
    entries.foldlM addProperty metadata = .error (.outOfBounds 512) ↔
      512 < metadata.length + bytesWritten entries := by
  induction entries generalizing metadata with
  | nil => exact iff_of_false nofun (Nat.not_lt.mpr hlen)
  | cons entry entries ih =>
    rw [foldlM_cons, bytesWritten]
    split_ifs with hname hvalue
    · rw [addProperty, if_pos hname]
      exact iff_of_false nofun (Nat.not_lt.mpr hlen)
    · rw [addProperty]
      split_ifs with hroom
      · exact iff_of_true rfl hroom
      · exact iff_of_false nofun hroom
    · by_cases hroom : metadata.length + propertySize entry ≤ 512
      · obtain ⟨out, hadd, hsum⟩ := addProperty_fits (Nat.not_lt.mp hname) hroom
        rw [hadd, ok_bind, ih (hsum ▸ hroom), hsum, Nat.add_assoc]
      · have hover : metadata.length + (1 + entry.1.length + 4 + entry.2.length) > 512 :=
          Nat.not_le.mp hroom
        have hadd : addProperty metadata entry = .error (.outOfBounds 512) := by
          rw [addProperty, if_neg hname, if_neg hvalue, if_pos hover, ite_self]
        rw [hadd]
        exact iff_of_true rfl (by omega)

lemma bytesWritten_eq_sum {entries : List (List UInt8 × List UInt8)}
    (hnames : ∀ entry ∈ entries, entry.1.length ≤ 255)
    (hvalues : ∀ entry ∈ entries, entry.2.length ≤ 0x7FFFFFFF) :
    bytesWritten entries = (entries.map propertySize).sum := by
  induction entries with
  | nil => rfl
  | cons entry entries ih =>
    obtain ⟨hname, hnames⟩ := forall_mem_cons.mp hnames
    obtain ⟨hvalue, hvalues⟩ := forall_mem_cons.mp hvalues
    rw [bytesWritten, if_neg (Nat.not_lt.mpr hname), if_neg (Nat.not_lt.mpr hvalue),
      ih hnames hvalues, map_cons, sum_cons]

/-- What a mechanism has found: right credentials, or wrong ones that name no user. -/
structure Judged (allow deny : List CString) (any : Bool) (proof : Prop)
    (o : Bool × Option CString × List UInt8 × Zauth) : Prop where
  tracks : Tracks allow deny any o.2.2.2
  grants : o.1 = true ↔ proof
  anonymous : o.1 = false → o.2.1 = none

section
variable {order : List (List UInt8 × List UInt8) → List (List UInt8 × List UInt8)}
  (horder : ∀ xs, (order xs).Perm xs)

include horder in
lemma exists_metadata_iff (cert : Zcert) :
    (∃ out, (order cert.metadata).foldlM addProperty [] = .ok out) ↔ MetadataFit cert := by
  rw [exists_foldlM_addProperty_iff _ (Nat.zero_le _), MetadataFit, length_nil, Nat.zero_add,
    ((horder cert.metadata).map propertySize).sum_eq]
  simp only [(horder cert.metadata).mem_iff]

lemma Tracks.authenticatePlain (h : Tracks allow deny any self) {username password : List UInt8}
    (hfit : MechanismFits z flat host self (.plain username password)) :
    ∃ ok userId self', Zauth.authenticatePlain host self (some (string username))
        (some (string password)) = .ok (ok, userId, self') ∧
      Judged allow deny any (Proves z flat host self any (.plain username password))
        (ok, userId, [], self') := by
  rw [Zauth.authenticatePlain]
  cases hp : self.passwords with
  | none => exact ⟨false, none, self, rfl, h, by simp [Proves, hp], fun _ => rfl⟩
  | some p =>
    obtain ⟨hrefreshes, hlookup⟩ := hfit p hp
    obtain ⟨m, hm⟩ := h.passwords p hp
    obtain ⟨q, hq, m', hm'⟩ := Passwords.exists_refresh hm hrefreshes
    obtain ⟨t, ht, hbinds, -⟩ := hm'.lookup (hlookup q hq)
    have htracks : Tracks allow deny any { self with passwords := some { q with table := t } } := by
      refine { h with passwords := ?_ }
      rintro _ ⟨⟩
      exact ⟨m', hbinds⟩
    have hproves : Proves z flat host self any (.plain username password) ↔
        m' (string username) = some (some (string password)) := by
      rw [Proves, hp, ← hm'.mem_pairs_iff]
      constructor
      · rintro ⟨_, ⟨⟩, q', hq', hmem⟩
        cases hq.symm.trans hq'
        exact hmem
      · exact fun hmem => ⟨p, rfl, q, hq, hmem⟩
    dsimp only
    rw [hq, ok_bind, ht, hproves]
    cases hfound : m' (string username) with
    | none => exact ⟨false, none, _, rfl, htracks, by simp, fun _ => rfl⟩
    | some value =>
      cases value with
      | none => exact ⟨false, none, _, rfl, htracks, by simp, fun _ => rfl⟩
      | some found =>
        by_cases hsame : found = string password
        · refine ⟨true, some (string username), _, ?_, htracks, by simp [hsame], nofun⟩
          exact if_pos hsame
        · refine ⟨false, none, _, ?_, htracks, by simp [hsame], fun _ => rfl⟩
          exact if_neg hsame

include horder in
lemma Tracks.authenticateCurve (h : Tracks allow deny any self) {key : Key}
    (hfit : MechanismFits z flat host self (.curve key))
    (hmeta : self.allowAny = false → ∀ s ∈ self.certstore, ∀ cert s',
      s.lookup z flat host.toDisk (clientKeyOf z key) = .ok (some cert, s') → MetadataFit cert) :
    ∃ o, Zauth.authenticateCurve z flat order host self (clientKeyOf z key) = .ok o ∧
      Judged allow deny any (Proves z flat host self any (.curve key)) o := by
  rw [Zauth.authenticateCurve]
  by_cases hany : self.allowAny = true
  · have htrue : any = true := h.allowAny.symm.trans hany
    rw [if_pos hany]
    exact ⟨_, rfl, h, by simp [Proves, htrue], nofun⟩
  · rw [if_neg hany]
    have hany := Bool.eq_false_iff.mpr hany
    have hfalse : any = false := h.allowAny.symm.trans hany
    cases hs : self.certstore with
    | none => exact ⟨_, rfl, h, by simp [Proves, hfalse, hs], fun _ => rfl⟩
    | some s =>
      obtain ⟨hready, hlookup⟩ := hfit hany s hs
      obtain ⟨found, s', he, hs'⟩ := (h.certstore s hs).lookup hready hlookup
      have htracks : Tracks allow deny any { self with certstore := some s' } := by
        refine { h with certstore := ?_ }
        rintro _ ⟨⟩
        exact hs'
      have hproves : Proves z flat host self any (.curve key) ↔ found.isSome := by
        rw [Proves, hfalse, hs, isSome_iff_exists]
        constructor
        · rintro (hf | ⟨_, ⟨⟩, cert, s'', hl⟩)
          · cases hf
          · cases he.symm.trans hl
            exact ⟨cert, rfl⟩
        · rintro ⟨cert, rfl⟩
          exact .inr ⟨s, rfl, cert, s', he⟩
      dsimp only
      rw [he, ok_bind, hproves]
      cases found with
      | none => exact ⟨_, rfl, htracks, by simp, fun _ => rfl⟩
      | some cert =>
        obtain ⟨out, hout⟩ := (exists_metadata_iff horder cert).mpr (hmeta hany s hs cert s' he)
        refine ⟨(true, some (clientKeyOf z key), out, _), ?_, htracks, by simp, nofun⟩
        dsimp only
        rw [hout]
        rfl

/-- No byte is written outside the buffer exactly when all of them are at most 512; without a value
of 2 GiB they are what the items take. -/
theorem metadata_inside_iff (horder : ∀ xs, (order xs).Perm xs) {clientKey : CString}
    {s s' : Zcertstore} {cert : Zcert} (hany : self.allowAny = false)
    (hs : self.certstore = some s)
    (hl : s.lookup z flat host.toDisk clientKey = .ok (some cert, s'))
    (hnames : ∀ entry ∈ cert.metadata, entry.1.length ≤ 255) :
    (Zauth.authenticateCurve z flat order host self clientKey ≠ .error (.outOfBounds 512) ↔
        bytesWritten (order cert.metadata) ≤ 512) ∧
      ((∀ entry ∈ cert.metadata, entry.2.length ≤ 0x7FFFFFFF) →
        bytesWritten (order cert.metadata) = (cert.metadata.map propertySize).sum) := by
  have hsub := (horder cert.metadata).subset
  constructor
  · rw [Zauth.authenticateCurve, if_neg (Bool.eq_false_iff.mp hany), hs]
    dsimp only
    rw [hl, ← not_lt, not_iff_not]
    have houtside : (order cert.metadata).foldlM addProperty [] = .error (.outOfBounds 512) ↔
        512 < 0 + bytesWritten (order cert.metadata) :=
      foldlM_addProperty_outside_iff _ (Nat.zero_le _)
    rw [← Nat.zero_add (bytesWritten _), ← houtside]
    change (foldlM addProperty [] (order cert.metadata) >>= _) = _ ↔ _
    cases (order cert.metadata).foldlM addProperty [] with
    | ok out => exact iff_of_false nofun nofun
    | error e => rw [error_bind, Except.error.injEq, Except.error.injEq]
  · intro hvalues
    rw [← ((horder cert.metadata).map propertySize).sum_eq]
    exact bytesWritten_eq_sum (fun e he => hnames e (hsub he)) fun e he => hvalues e (hsub he)

def Mechanism.name : Mechanism → CString
  | .null => string (Bytes.ascii "NULL")
  | .plain _ _ => string (Bytes.ascii "PLAIN")
  | .curve _ => string (Bytes.ascii "CURVE")
  | .gssapi _ => string (Bytes.ascii "GSSAPI")

def Mechanism.credentials (z : Z85) : Mechanism → Credentials
  | .null => .nothing
  | .plain username password => .plain (some (string username)) (some (string password))
  | .curve key => .curve (clientKeyOf z key)
  | .gssapi principal => .gssapi (some (string principal))

def Request.read (z : Z85) (r : Request) : ZapRequest :=
  ⟨string r.sequence, string r.address, r.mechanism.name, r.mechanism.credentials z⟩

lemma zapRequestNew_frames (r : Request) : zapRequestNew z r.frames = .ok (r.read z) := by
  obtain ⟨sequence, domain, address, identity, mechanism⟩ := r
  cases mechanism with
  | null => rfl
  | plain username password => rfl
  | curve key =>
    have hkey : credentialsOf z (string (Bytes.ascii "CURVE")) [key.1] =
        .ok (.curve (clientKeyOf z key)) := dif_pos key.2
    change (credentialsOf z (string (Bytes.ascii "CURVE")) [key.1] >>= _) = _
    rw [hkey]
    rfl
  | gssapi principal => rfl

include horder

lemma Tracks.checkMechanism (h : Tracks allow deny any self) {r : Request} (hfit : MechanismFits z flat host self r.mechanism)
    (hmeta : ∀ key, r.mechanism = .curve key → self.allowAny = false → ∀ s ∈ self.certstore,
      ∀ cert s', s.lookup z flat host.toDisk (clientKeyOf z key) = .ok (some cert, s') →
        MetadataFit cert) (listed : Bool) :
    ∃ o, Zauth.checkMechanism z flat order host self (r.read z) listed = .ok o ∧
      Judged allow deny any (Proves z flat host self any r.mechanism) o := by
  obtain ⟨sequence, domain, address, identity, mechanism⟩ := r
  cases mechanism with
  | null =>
    cases listed with
    | false => exact ⟨_, rfl, h, by simp [Proves], nofun⟩
    | true => exact ⟨_, rfl, h, by simp [Proves], nofun⟩
  | plain username password =>
    obtain ⟨ok, userId, self', he, hjudged⟩ := h.authenticatePlain hfit
    refine ⟨_, ?_, hjudged⟩
    change (Zauth.authenticatePlain host self (some (string username))
      (some (string password)) >>= _) = _
    rw [he]
    rfl
  | curve key => exact h.authenticateCurve horder hfit (hmeta key rfl)
  | gssapi principal => exact ⟨_, rfl, h, by simp [Proves], nofun⟩

lemma Tracks.authenticate (h : Tracks allow deny any self) {r : Request} (hfit : RequestFits z flat host self r) (hreply : ReplyFits z flat host self r) :
    ∃ reply self', Zauth.authenticate z flat order host self r.frames = .ok (reply, self') ∧
      Tracks allow deny any self' ∧
      (reply.statusCode = Bytes.ascii "200" ↔ Passes allow deny (string r.address) ∧
        Proves z flat host self any r.mechanism) ∧
      (¬ (Passes allow deny (string r.address) ∧ Proves z flat host self any r.mechanism) →
        reply = refusal r.sequence) := by
  classical
  obtain ⟨listed, s, hcheck, hs, hp, hc, hlisted⟩ := h.checkAddress hfit.allowlist hfit.blocklist
  have hcheck : Zauth.checkAddress self (r.read z).address =
      .ok (listed, !decide (Passes allow deny (string r.address)), s) := hcheck
  have hcodes : Bytes.ascii "400" ≠ Bytes.ascii "200" := by decide
  rw [Zauth.authenticate, zapRequestNew_frames, ok_bind, hcheck, ok_bind]
  by_cases hpass : Passes allow deny (string r.address)
  · have hadmits := (h.admits_iff _).mpr hpass
    have hany : s.allowAny = self.allowAny := hs.allowAny.trans h.allowAny.symm
    -- the checks of the address leave what the mechanisms look at as it is
    have hfit' : MechanismFits z flat host s r.mechanism := by
      have := hfit.mechanism hadmits
      cases hr : r.mechanism <;> simp_all [MechanismFits]
    have hproves : Proves z flat host s any r.mechanism ↔
        Proves z flat host self any r.mechanism := by
      cases r.mechanism <;> simp [Proves, hp, hc]
    obtain ⟨⟨ok, userId, metadata, self'⟩, he, hself', hok, hnone⟩ := hs.checkMechanism horder hfit'
      (fun key hkey ha c hcs => hreply key hkey hadmits (hany ▸ ha) c (hc ▸ hcs)) listed
    rw [hproves] at hok
    simp only [decide_eq_true hpass]
    rw [he]
    cases ok with
    | true =>
      refine ⟨_, self', rfl, hself', ?_, fun hn => absurd ⟨hpass, hok.mp rfl⟩ hn⟩
      exact iff_of_true rfl ⟨hpass, hok.mp rfl⟩
    | false =>
      have hnot : ¬ Proves z flat host self any r.mechanism := fun hpr => nomatch hok.mpr hpr
      obtain rfl := hnone rfl
      refine ⟨refusal r.sequence, self', rfl, hself', ?_, fun _ => rfl⟩
      exact iff_of_false hcodes fun hpr => hnot hpr.2
  · obtain rfl := hlisted hpass
    simp only [decide_eq_false hpass]
    refine ⟨refusal r.sequence, s, rfl, hs, ?_, fun _ => rfl⟩
    exact iff_of_false hcodes fun hpr => hpass hpr.1

lemma Tracks.replyFits (h : Tracks allow deny any self) {r : Request} (hfit : RequestFits z flat host self r) {x : Reply × Zauth}
    (hok : Zauth.authenticate z flat order host self r.frames = .ok x) :
    ReplyFits z flat host self r := by
  classical
  intro key hkey hadmits hany s hs cert s' hl
  obtain ⟨listed, a, hcheck, ha, -, hc, -⟩ := h.checkAddress hfit.allowlist hfit.blocklist
  have hcheck : Zauth.checkAddress self (r.read z).address =
      .ok (listed, !decide (Passes allow deny (string r.address)), a) := hcheck
  rw [Zauth.authenticate, zapRequestNew_frames, ok_bind, hcheck, ok_bind] at hok
  simp only [decide_eq_true ((h.admits_iff _).mp hadmits)] at hok
  obtain ⟨y, hy, -⟩ := bind_eq_ok.mp hok
  obtain ⟨sequence, domain, address, identity, mechanism⟩ := r
  obtain rfl : mechanism = .curve key := hkey
  have hy : Zauth.authenticateCurve z flat order host a (clientKeyOf z key) = .ok y := hy
  have hnot : a.allowAny = false := by
    rw [ha.allowAny, ← h.allowAny]
    exact hany
  rw [Zauth.authenticateCurve, if_neg (Bool.eq_false_iff.mp hnot), hc.trans hs] at hy
  dsimp only at hy
  rw [hl, ok_bind] at hy
  obtain ⟨out, hout, -⟩ := bind_eq_ok.mp hy
  exact (exists_metadata_iff horder cert).mp ⟨out, hout⟩

lemma Tracks.act (h : Tracks allow deny any self) {a : Action} (hfit : Fits z flat self a) :
    ∃ r self', Zauth.act z flat order self a = .ok (r, self') ∧
      Tracks (allow ++ allowed [a]) (deny ++ denied [a]) (nextAny any a) self' := by
  unfold Zauth.act step
  rw [if_neg (Bool.eq_false_iff.mp h.running)]
  cases a with
  | command host c =>
    obtain ⟨self', he, hself'⟩ := h.handlePipe hfit
    refine ⟨none, self', ?_, hself'⟩
    dsimp only [Action.event]
    rw [he]
    rfl
  | request host r =>
    obtain ⟨reply, self', he, hself', -⟩ := h.authenticate horder hfit.1 hfit.2
    refine ⟨some reply, self', ?_, hself'.unchanged⟩
    dsimp only [Action.event]
    rw [he]
    rfl

lemma Tracks.run (h : Tracks allow deny any self) {actions : List Action}
    (hfits : StepsMeet (Zauth.act z flat order) (Fits z flat) self actions) :
    ∃ rs self', run (Zauth.act z flat order) self actions = .ok (rs, self') ∧
      Tracks (allow ++ allowed actions) (deny ++ denied actions) (actions.foldl nextAny any)
        self' := by
  induction actions generalizing self allow deny any with
  | nil => exact ⟨[], self, rfl, by simpa only [allowed, denied, flatMap_nil, append_nil]⟩
  | cons a actions ih =>
    obtain ⟨r, s, hact, hs⟩ := h.act horder hfits.head
    obtain ⟨rs, self', hrun, hself'⟩ := ih hs (hfits.tail hact)
    refine ⟨r :: rs, self', ?_, ?_⟩
    · rw [run_cons_ok hact, hrun]
      rfl
    · simpa only [allowed, denied, flatMap_cons, flatMap_nil, append_nil,
        append_assoc, foldl_cons] using hself'

/-- After every history, the reply is lawful exactly when the metadata of the certificate that is
found fit the buffer. -/
theorem authenticate_lawful_iff {certstore : Option Zcertstore}
    (hstore : ∀ s ∈ certstore, Sound s) {actions : List Action}
    (hfits : StepsMeet (Zauth.act z flat order) (Fits z flat) (new certstore) actions) :
    ∃ rs s, run (Zauth.act z flat order) (new certstore) actions = .ok (rs, s) ∧
      ∀ host r, RequestFits z flat host s r →
        ((∃ reply s', Zauth.authenticate z flat order host s r.frames = .ok (reply, s') ∧
          Lawful z flat actions host s r reply) ↔ ReplyFits z flat host s r) := by
  obtain ⟨rs, s, hrun, hs⟩ := (tracks_new hstore).run horder hfits
  refine ⟨rs, s, hrun, fun host r hfit => ⟨?_, fun hreply => ?_⟩⟩
  · rintro ⟨reply, s', hok, -⟩
    exact hs.replyFits horder hfit hok
  · obtain ⟨reply, s', hok, -, hgranted, hrefused⟩ := hs.authenticate horder hfit hreply
    exact ⟨reply, s', hok, hgranted, hrefused⟩

end

end

/-! ## One address, and one certificate -/

def bareHost : Host :=
  { emptyDisk with contents := fun _ => none, modified := fun _ => 0, stable := fun _ => true }

def oneAddress : List UInt8 := Bytes.ascii "10.0.0.1"

def allowOne : Action := .command bareHost (.allow [oneAddress])

def requestOf (mechanism : Mechanism) : Request := ⟨Bytes.ascii "1", [], oneAddress, [], mechanism⟩

theorem authenticate_lawful_allowOne : ∃ rs s,
    run (act .standard asListed id) (new none) [allowOne] = .ok (rs, s) ∧
      ∃ reply s', authenticate .standard asListed id bareHost s (requestOf .null).frames =
          .ok (reply, s') ∧ reply.statusCode = Bytes.ascii "200" := by
  have hstore : ∀ s ∈ (none : Option Zcertstore), Sound s := fun s hs => nomatch hs
  have hfits : StepsMeet (act .standard asListed id) (Fits .standard asListed) (new none)
      [allowOne] := by
    refine .cons ?_ fun r s _ => stepsMeet_nil s
    exact .cons ⟨fun _ => by decide +kernel, fun _ => by decide +kernel⟩
      fun r t _ => stepsMeet_nil t
  obtain ⟨rs, s, hrun, hlaw⟩ := authenticate_lawful_iff (fun xs => .refl xs) hstore hfits
  have hcheck : ∀ p ∈ (run (act .standard asListed id) (new none) [allowOne]).toOption,
      p.2.allowlist.HasRoom ∧ p.2.allowlist.size ≠ 0 := by decide +kernel
  obtain ⟨hroom, hsize⟩ := hcheck (rs, s) (congrArg _ hrun)
  have hfit : RequestFits .standard asListed bareHost s (requestOf .null) :=
    ⟨fun _ _ => hroom, fun hzero => absurd hzero hsize, fun _ => trivial⟩
  have hreply : ReplyFits .standard asListed bareHost s (requestOf .null) := by
    intro key hkey
    cases hkey
  obtain ⟨reply, s', hok, hlawful⟩ := (hlaw bareHost _ hfit).mpr hreply
  have hpasses : Passes (allowed [allowOne]) (denied [allowOne]) (string oneAddress) :=
    mem_singleton.mpr rfl
  exact ⟨rs, s, hrun, reply, s', hok, hlawful.granted.mpr ⟨hpasses, trivial⟩⟩

def longCert : Zcert := ⟨.zero, .zero, [(Bytes.ascii "name", replicate 600 120)]⟩

lemma hasRoom_longCert {t : Zhashx CString Zcert}
    (h : insertCert .standard (blank []).certs longCert = .ok t) : t.HasRoom := by
  have hcheck : ∀ t ∈ (insertCert .standard (blank []).certs longCert).toOption, t.HasRoom := by
    decide +kernel
  exact hcheck t (congrArg _ h)

lemma found_longCert : ∃ t t', insertCert .standard (blank []).certs longCert = .ok t ∧
    Sound ⟨none, t⟩ ∧ Zcertstore.lookup .standard asListed bareHost.toDisk ⟨none, t⟩
      (clientKeyOf .standard .zero) = .ok (some longCert, ⟨none, t'⟩) := by
  have hempty : Binds (blank []).certs fun _ => none := binds_new ⟨rfl, rfl⟩
  obtain ⟨t, he, hfn, hbinds⟩ := hempty.insert (some longCert)
    ⟨fun _ => by decide +kernel, fun _ => by decide +kernel⟩
  have hinsert : insertCert .standard (blank []).certs longCert = .ok t := by
    rw [insertCert, he]
    rfl
  obtain ⟨t', hlookup, -⟩ := hbinds.lookup fun _ => hasRoom_longCert hinsert
  refine ⟨t, t', hinsert, ⟨⟨_, hbinds⟩, hfn ▸ rfl⟩, ?_⟩
  have hkey : clientKeyOf .standard .zero = keyOf .standard longCert := rfl
  change (t.lookup (keyOf .standard longCert) >>= _) = _
  rw [hlookup]
  rfl

/-- A client whose certificate is in the store gets no reply: the property is written past the
buffer. -/
theorem authenticate_longCert : ∃ t, insertCert .standard (blank []).certs longCert = .ok t ∧
    Passes (allowed []) (denied []) (string oneAddress) ∧
    Proves .standard asListed bareHost (new (some ⟨none, t⟩)) (allowsAny []) (.curve .zero) ∧
    ∀ x, authenticate .standard asListed id bareHost (new (some ⟨none, t⟩))
      (requestOf (.curve .zero)).frames ≠ .ok x := by
  obtain ⟨t, t', hinsert, hsound, hfound⟩ := found_longCert
  refine ⟨t, hinsert, not_mem_nil, .inr ⟨_, rfl, longCert, _, hfound⟩, fun x hok => ?_⟩
  have hfit : RequestFits .standard asListed bareHost (new (some ⟨none, t⟩))
      (requestOf (.curve .zero)) := by
    refine ⟨fun h => absurd rfl h, fun _ h => absurd rfl h, fun _ _ s hs => ?_⟩
    cases hs
    refine ⟨ready_of_no_loader rfl, ?_⟩
    rintro s' ⟨⟩ -
    exact hasRoom_longCert hinsert
  have htracks : Tracks [] [] false (new (some ⟨none, t⟩)) :=
    tracks_new fun s hs => by cases hs; exact hsound
  have hfits := htracks.replyFits (fun xs => .refl xs) hfit hok .zero rfl
    ((htracks.admits_iff _).mpr not_mem_nil) rfl _ rfl longCert _ hfound
  exact absurd hfits.2 (by decide +kernel)

theorem metadata_inside_longCert : ∃ t, insertCert .standard (blank []).certs longCert = .ok t ∧
    (authenticateCurve .standard asListed id bareHost (new (some ⟨none, t⟩))
        (clientKeyOf .standard .zero) ≠ .error (.outOfBounds 512) ↔
      bytesWritten longCert.metadata ≤ 512) ∧ bytesWritten longCert.metadata = 609 := by
  obtain ⟨t, t', hinsert, -, hfound⟩ := found_longCert
  have hnames : ∀ entry ∈ longCert.metadata, entry.1.length ≤ 255 := by decide +kernel
  have hvalues : ∀ entry ∈ longCert.metadata, entry.2.length ≤ 0x7FFFFFFF := by decide +kernel
  have hsum : (longCert.metadata.map propertySize).sum = 609 := by decide +kernel
  obtain ⟨hinside, heq⟩ := metadata_inside_iff (fun xs => .refl xs) rfl
    (show (new (some ⟨none, t⟩)).certstore = some ⟨none, t⟩ from rfl) hfound hnames
  exact ⟨t, hinsert, hinside, (heq hvalues).trans hsum⟩

/-- 609 bytes go into the buffer of 512. -/
theorem metadata_outside_longCert : ∃ t, insertCert .standard (blank []).certs longCert = .ok t ∧
    authenticateCurve .standard asListed id bareHost (new (some ⟨none, t⟩))
        (clientKeyOf .standard .zero) = .error (.outOfBounds 512) ∧
      bytesWritten longCert.metadata = 609 := by
  obtain ⟨t, t', hinsert, -, hfound⟩ := found_longCert
  refine ⟨t, hinsert, ?_, by decide +kernel⟩
  have hfold : longCert.metadata.foldlM addProperty [] = .error (.outOfBounds 512) :=
    (foldlM_addProperty_outside_iff _ (Nat.zero_le _)).mpr (by decide +kernel)
  change (Zcertstore.lookup .standard asListed bareHost.toDisk ⟨none, t⟩ _ >>= _) = _
  rw [hfound, ok_bind]
  change (longCert.metadata.foldlM addProperty [] >>= _) = _
  rw [hfold, error_bind]

end Zauth

end Czmq
