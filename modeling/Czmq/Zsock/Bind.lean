import Czmq.Base.Decimal
import Czmq.Base.Loop
import Czmq.Zsys
import Mathlib.Data.Int.ModEq
import Mathlib.Data.List.Nodup

/-! `zsock_bind`, and the ports that it tries for an endpoint without one. -/

namespace Czmq.ZsockBind

open List Decimal

/-- What the expressions of `zsock_bind` find an endpoint to be, with their hits. -/
inductive Form where
  | port (port : List UInt8)
  | dynamic (hostname : List UInt8) (opcode : UInt8) (firstStr lastStr : List UInt8)
  | other

def dynamicFirst : Int := 0xc000
def dynamicLast : Int := 0xffff

def checked (n : Int) : Except Fault Int :=
  if -2 ^ 31 ≤ n ∧ n < 2 ^ 31 then .ok n else .error .overflow

/-- The variables of the loop, and the ports that were tried. -/
structure Scan where
  port : Int
  attempts : Int
  rc : Int
  endpoint : List UInt8
  tried : List Int

/-- One round of the loop. The `n`th call of `zmq_bind` succeeds if `bind n`. -/
def round (bind : Nat → Bool) (hostname : List UInt8) (first last : Int) (s : Scan) :
    Except Fault (Scan ⊕ Scan) :=
  if s.rc = -1 then do
    -- the condition looks at the number before it is decremented
    let attempts ← checked (s.attempts - 1)
    if s.attempts = 0 then pure (.inr { s with attempts := attempts })
    else do
      let endpoint ← zsysVprintf (hostname ++ 58 :: printInt s.port)
      let port ← checked (s.port + 1)
      pure (.inl
        { port := if last < port then first else port
          attempts := attempts
          rc := if bind s.tried.length then s.port else s.rc
          endpoint := endpoint
          tried := s.tried ++ [s.port] })
  else .ok (.inr s)

def boundOf (str : List UInt8) (dynamic : Int) : Int := if str = [] then dynamic else atoi str

def bindDynamic (randof : Int → Int) (bind : Nat → Bool) (endpoint hostname : List UInt8)
    (opcode : UInt8) (firstStr lastStr : List UInt8) : Except Fault Scan := do
  let first := boundOf firstStr dynamicFirst
  let last := boundOf lastStr dynamicLast
  let attempts ← checked (last - first)
  let attempts ← checked (attempts + 1)
  let port ← checked (first + if opcode = 33 then randof attempts else 0)
  Loop.untilDone .endlessLoop (round bind hostname first last) (2 ^ 33)
    ⟨port, attempts, -1, endpoint, []⟩

/-- What `zsock_bind` answers, the endpoint of the socket, and the ports tried. -/
structure Outcome where
  rc : Int
  endpoint : Option (List UInt8)
  tried : List Int

def stored (old : Option (List UInt8)) (rc : Int) (endpoint : List UInt8) (tried : List Int) :
    Outcome := ⟨rc, if 0 ≤ rc then some endpoint else old, tried⟩

/-- `zsock_bind`, on the text of the format. `rex` gives `zrex_eq` and `zrex_fetch`, a function
`randof`. -/
def zsockBind (rex : List UInt8 → Form) (randof : Int → Int) (bind : Nat → Bool)
    (old : Option (List UInt8)) (endpoint : List UInt8) : Except Fault Outcome :=
  match rex endpoint with
  | .port port =>
    .ok (stored old (if bind 0 then atoi port else -1) endpoint [atoi port])
  | .dynamic hostname opcode firstStr lastStr => do
    let s ← bindDynamic randof bind endpoint hostname opcode firstStr lastStr
    pure (stored old s.rc s.endpoint s.tried)
  | .other => .ok (stored old (if bind 0 then 0 else -1) endpoint [])

/-- Every port of the range is tried once at most and no other is; the first that can be bound is
returned, or -1. -/
structure ScansOnce (first last : Int) (bind : Nat → Bool) (out : Outcome) : Prop where
  inside : ∀ p ∈ out.tried, first ≤ p ∧ p ≤ last
  nodup : out.tried.Nodup
  length_le : (out.tried.length : Int) ≤ max 0 (last - first + 1)
  answer : (∃ n, out.tried.length = n + 1 ∧ (∀ i < n, bind i = false) ∧ bind n = true ∧
      out.tried.getLast? = some out.rc) ∨
    out.rc = -1 ∧ (∀ i < out.tried.length, bind i = false) ∧
      ∀ p, first ≤ p → p ≤ last → p ∈ out.tried

def IsBound (str : List UInt8) : Prop := (∀ c ∈ str, isDigit c = true) ∧ value str ≤ 65535

def meaning (str : List UInt8) (dynamic : Int) : Int := if str = [] then dynamic else value str

def dynamicEndpoint (hostname : List UInt8) (opcode : UInt8) (firstStr lastStr : List UInt8) :
    List UInt8 := hostname ++ 58 :: opcode :: 91 :: (firstStr ++ 45 :: (lastStr ++ [93]))

def IsRandof (randof : Int → Int) : Prop :=
  ∀ n, 0 ≤ n → n ≤ 65536 → 0 ≤ randof n ∧ (randof n < n ∨ randof n = 0)

lemma checked_of_mem {n : Int} (h : -2 ^ 31 ≤ n) (h' : n < 2 ^ 31) : checked n = .ok n :=
  if_pos ⟨h, h'⟩

lemma checked_eq_ok {n m : Int} (h : checked n = .ok m) : m = n := by
  unfold checked at h
  split at h
  · exact (Except.ok.inj h).symm
  · cases h

variable {str : List UInt8}

lemma atoi_digits (hne : str ≠ []) (h : IsBound str) : atoi str = value str := by
  obtain ⟨c, s, rfl⟩ := exists_cons_of_ne_nil hne
  have hdigit : isDigit c = true := h.1 c mem_cons_self
  have hsigned : signed ((c :: s).dropWhile isSpace) = (false, value (c :: s)) := by
    rw [dropWhile_cons_of_neg (not_isSpace_of_isDigit hdigit)]
    unfold signed
    split
    · next heq =>
      cases heq
      exact absurd hdigit (by decide)
    · next heq =>
      cases heq
      exact absurd hdigit (by decide)
    · rfl
  have hle := h.2
  rw [atoi, strtol, hsigned]
  dsimp only
  rw [if_neg Bool.false_ne_true, Int.bmod_def]
  omega

lemma boundOf_eq (h : IsBound str) (dynamic : Int) :
    boundOf str dynamic = meaning str dynamic := by
  unfold boundOf meaning
  split
  · rfl
  · next hne => exact atoi_digits hne h

lemma meaning_mem (h : IsBound str) {dynamic : Int} (h0 : 0 ≤ dynamic)
    (h1 : dynamic ≤ 65535) : 0 ≤ meaning str dynamic ∧ meaning str dynamic ≤ 65535 := by
  have hle := h.2
  unfold meaning
  split <;> omega

lemma length_printInt_port {p : Int} (h : 0 ≤ p) (h' : p ≤ 65535) : (printInt p).length ≤ 5 := by
  rw [printInt, if_neg (by omega)]
  exact length_print_le (by decide) (by omega)

lemma length_printInt_dynamic {p : Int} (h : 10000 ≤ p) (h' : p ≤ 65535) :
    (printInt p).length = 5 := by
  refine le_antisymm (length_printInt_port (by omega) h') ?_
  rw [printInt, if_neg (by omega), print, if_neg (by omega), length_reverse, length_map]
  by_contra hlt
  have hle : (Nat.digits 10 p.natAbs).length ≤ 4 := by omega
  have hsmall := (Nat.digits_length_le_iff (by decide) p.natAbs).mp hle
  omega

section
variable {first : Int} {N start k i j : Nat}

def portAt (first : Int) (N start i : Nat) : Int := first + ((start + i) % N : Nat)

lemma portAt_mem (hN : 0 < N) (first : Int) (start i : Nat) :
    first ≤ portAt first N start i ∧ portAt first N start i < first + N := by
  have hlt := Nat.mod_lt (start + i) hN
  unfold portAt
  omega

lemma portAt_zero (hstart : start < N ∨ start = 0) : portAt first N start 0 = first + start := by
  unfold portAt
  rcases hstart with hlt | rfl
  · rw [Nat.add_zero, Nat.mod_eq_of_lt hlt]
  · simp

lemma portAt_succ (hN : 0 < N) : portAt first N start (i + 1) =
    if first + N - 1 < portAt first N start i + 1 then first else portAt first N start i + 1 := by
  have hlt := Nat.mod_lt (start + i) hN
  have hsucc : (start + (i + 1)) % N = ((start + i) % N + 1) % N := by
    rw [Nat.mod_add_mod, Nat.add_assoc]
  unfold portAt
  rw [hsucc]
  split
  · next hwrap =>
    have hend : (start + i) % N + 1 = N := by omega
    rw [hend]
    simp
  · next hstay =>
    rw [Nat.mod_eq_of_lt (by omega)]
    omega

def ports (first : Int) (N start k : Nat) : List Int := (range k).map (portAt first N start)

lemma length_ports : (ports first N start k).length = k := by
  rw [ports, length_map, length_range]

lemma ports_succ :
    ports first N start (k + 1) = ports first N start k ++ [portAt first N start k] := by
  rw [ports, range_succ, map_append]
  rfl

lemma nodup_ports (hk : k ≤ N) : (ports first N start k).Nodup := by
  refine Nodup.map_on (fun i hi j hj h => ?_) nodup_range
  rw [mem_range] at hi hj
  have hmod : (start + i) % N = (start + j) % N := by
    unfold portAt at h
    omega
  exact Nat.ModEq.eq_of_lt_of_lt (Nat.ModEq.add_left_cancel' start hmod) (hi.trans_le hk)
    (hj.trans_le hk)

lemma mem_ports_all (hstart : start < N) {p : Int} (h : first ≤ p) (h' : p < first + N) :
    p ∈ ports first N start N := by
  obtain ⟨q, rfl⟩ : ∃ q : Nat, p = first + q := ⟨(p - first).toNat, by omega⟩
  have hq : q < N := by omega
  refine mem_map.mpr
    ⟨(q + (N - start)) % N, mem_range.mpr (Nat.mod_lt _ (by omega)), ?_⟩
  have hback : start + (q + (N - start)) = q + N := by omega
  unfold portAt
  rw [Nat.add_mod_mod, hback, Nat.add_mod_right, Nat.mod_eq_of_lt hq]

end

/-! ## The scan -/

section
variable {bind : Nat → Bool} {hostname : List UInt8} {first last : Int} {N start k : Nat} {s : Scan}

structure Tried (bind : Nat → Bool) (first : Int) (N start : Nat) (s : Scan) (k : Nat) : Prop where
  le : k ≤ N
  tried : s.tried = ports first N start k
  attempts : s.attempts = N - k
  port : s.port = portAt first N start k
  failed : ∀ i, i + 1 < k → bind i = false
  rc : (s.rc = -1 ∧ ∀ i < k, bind i = false) ∨
    ∃ n, k = n + 1 ∧ bind n = true ∧ s.rc = portAt first N start n

def Ends (bind : Nat → Bool) (first : Int) (N start : Nat) (s : Scan) : Prop :=
  ∃ k ≤ N, s.tried = ports first N start k ∧ (∀ i, i + 1 < k → bind i = false) ∧
    ((s.rc = -1 ∧ k = N ∧ ∀ i < k, bind i = false) ∨
      ∃ n, k = n + 1 ∧ bind n = true ∧ s.rc = portAt first N start n)

lemma Tried.round (h : Tried bind first N start s k) (hfirst : 0 ≤ first)
    (hlast : last = first + N - 1) (hle : last ≤ 65535)
    (hfits : ∀ p, first ≤ p → p ≤ last → (hostname ++ 58 :: printInt p).length < intMax) :
    (∃ s', round bind hostname first last s = .ok (.inr s') ∧ Ends bind first N start s') ∨
      ∃ s', round bind hostname first last s = .ok (.inl s') ∧ Tried bind first N start s' (k + 1) ∧
        s'.attempts.toNat < s.attempts.toNat := by
  have hattempts := h.attempts
  have hkN := h.le
  unfold ZsockBind.round
  rcases h.rc with ⟨hrc, hfailed⟩ | ⟨n, rfl, hbind, hrc⟩
  · rw [if_pos hrc, checked_of_mem (by omega) (by omega), ok_bind]
    by_cases hend : s.attempts = 0
    · rw [if_pos hend]
      exact .inl ⟨_, rfl, k, hkN, h.tried, h.failed, .inl ⟨hrc, by omega, hfailed⟩⟩
    · right
      have hN : 0 < N := by omega
      obtain ⟨hp, hp'⟩ := portAt_mem hN first start k
      rw [← h.port] at hp hp'
      rw [if_neg hend, zsysVprintf_of_lt (hfits _ hp (by omega)),
        checked_of_mem (by omega) (by omega)]
      have hcount : s.tried.length = k := by rw [h.tried, length_ports]
      refine ⟨_, rfl, ⟨by omega, ?_, ?_, ?_, fun i hi => hfailed i (by omega), ?_⟩, ?_⟩
      · rw [ports_succ, h.tried, h.port]
      · show s.attempts - 1 = _
        omega
      · rw [portAt_succ hN, ← h.port, ← hlast]
      · show ((if bind s.tried.length then s.port else s.rc) = -1 ∧ _) ∨ _
        rw [hcount]
        by_cases hbind : bind k = true
        · right
          refine ⟨k, rfl, hbind, ?_⟩
          show (if bind k then s.port else s.rc) = _
          rw [if_pos hbind, h.port]
        · left
          rw [if_neg hbind]
          refine ⟨hrc, fun i hi => ?_⟩
          rcases Nat.lt_succ_iff_lt_or_eq.mp hi with hlt | rfl
          · exact hfailed i hlt
          · exact eq_false_of_ne_true hbind
      · show (s.attempts - 1).toNat < _
        omega
  · have hN : 0 < N := by omega
    have hfound : s.rc ≠ -1 := by
      have hmem := portAt_mem hN first start n
      omega
    rw [if_neg hfound]
    exact .inl ⟨s, rfl, n + 1, hkN, h.tried, h.failed, .inr ⟨n, rfl, hbind, hrc⟩⟩

lemma exists_scan (hfirst : 0 ≤ first) (hlast : last = first + N - 1) (hle : last ≤ 65535)
    (hstart : start < N ∨ start = 0)
    (hfits : ∀ p, first ≤ p → p ≤ last → (hostname ++ 58 :: printInt p).length < intMax)
    (endpoint : List UInt8) :
    ∃ s, Loop.untilDone .endlessLoop (ZsockBind.round bind hostname first last) (2 ^ 33)
        ⟨first + start, N, -1, endpoint, []⟩ = .ok s ∧ Ends bind first N start s := by
  have hinit : Tried bind first N start ⟨first + start, N, -1, endpoint, []⟩ 0 :=
    ⟨Nat.zero_le _, rfl, by simp, (portAt_zero hstart).symm, fun i hi => by omega,
      .inl ⟨rfl, fun i hi => by omega⟩⟩
  refine Loop.untilDone_rule (fun s => ∃ k, Tried bind first N start s k) _
    (fun s => s.attempts.toNat) ?_ ⟨0, hinit⟩ ?_
  · rintro s ⟨k, h⟩
    exact (h.round hfirst hlast hle hfits).imp_right fun ⟨s', he, hs', hless⟩ =>
      ⟨s', he, ⟨_, hs'⟩, hless⟩
  · show (N : Int).toNat < 2 ^ 33
    omega

lemma Ends.scansOnce (h : Ends bind first N start s) (hlast : last = first + N - 1)
    (hstart : start < N ∨ start = 0) (old : Option (List UInt8)) :
    ScansOnce first last bind (stored old s.rc s.endpoint s.tried) := by
  obtain ⟨k, hk, htried, hfailed, hrc⟩ := h
  have hlength : s.tried.length = k := by rw [htried, length_ports]
  refine ⟨fun p hp => ?_, ?_, ?_, ?_⟩
  · replace hp : p ∈ s.tried := hp
    rw [htried] at hp
    obtain ⟨i, hi, rfl⟩ := mem_map.mp hp
    rw [mem_range] at hi
    have hmem := portAt_mem (by omega : 0 < N) first start i
    omega
  · show s.tried.Nodup
    rw [htried]
    exact nodup_ports hk
  · show (s.tried.length : Int) ≤ _
    omega
  · show (∃ n, s.tried.length = n + 1 ∧ _ ∧ _ ∧ s.tried.getLast? = some s.rc) ∨
      s.rc = -1 ∧ (∀ i < s.tried.length, bind i = false) ∧ ∀ p, first ≤ p → p ≤ last → p ∈ s.tried
    rw [hlength]
    rcases hrc with ⟨hrc, rfl, hall⟩ | ⟨n, rfl, hbind, hrc⟩
    · right
      refine ⟨hrc, hall, fun p hp hp' => ?_⟩
      rw [htried]
      exact mem_ports_all (by omega) hp (by omega)
    · left
      refine ⟨n, rfl, fun i hi => hfailed i (by omega), hbind, ?_⟩
      rw [htried, ports_succ, getLast?_concat, hrc]

end

lemma tried_ne_nil {bind : Nat → Bool} {hostname : List UInt8} {first last : Int} {n : Nat}
    {s s' : Scan} (hrc : s.rc = -1) (hattempts : s.attempts ≠ 0)
    (h : Loop.untilDone .endlessLoop (round bind hostname first last) n s = .ok s') :
    s'.tried ≠ [] := by
  refine Loop.untilDone_invariant (fun s => s.tried ≠ [] ∨ s.rc = -1 ∧ s.attempts ≠ 0)
    (fun s => s.tried ≠ []) (fun s hs x hx => ?_) (.inr ⟨hrc, hattempts⟩) h
  unfold round at hx
  split at hx
  · obtain ⟨attempts, -, hx⟩ := bind_eq_ok.mp hx
    split at hx
    · next hzero =>
      cases hx
      exact hs.resolve_right fun hpair => hpair.2 hzero
    · obtain ⟨endpoint, -, hx⟩ := bind_eq_ok.mp hx
      obtain ⟨port, -, hx⟩ := bind_eq_ok.mp hx
      cases hx
      exact .inl (append_ne_nil_of_right_ne_nil _ (cons_ne_nil _ _))
  · next hfound =>
    cases hx
    exact hs.resolve_right fun hpair => hfound hpair.1

section
variable {rex : List UInt8 → Form} {randof : Int → Int} {bind : Nat → Bool}
  {old : Option (List UInt8)} {hostname firstStr lastStr : List UInt8} {opcode : UInt8}

def initial (randof : Int → Int) (opcode : UInt8) (first last : Int) (endpoint : List UInt8) : Scan :=
  ⟨first + if opcode = 33 then randof (last - first + 1) else 0, last - first + 1, -1, endpoint, []⟩

lemma zsockBind_eq_ok_iff (hfirst : IsBound firstStr) (hlast : IsBound lastStr)
    {endpoint : List UInt8} (hrex : rex endpoint = .dynamic hostname opcode firstStr lastStr)
    {first last : Int} (hfirst' : first = meaning firstStr dynamicFirst)
    (hlast' : last = meaning lastStr dynamicLast) {out : Outcome} :
    zsockBind rex randof bind old endpoint = .ok out ↔
      (∃ port, checked (initial randof opcode first last endpoint).port = .ok port) ∧
      ∃ s, Loop.untilDone .endlessLoop (round bind hostname first last) (2 ^ 33)
          (initial randof opcode first last endpoint) = .ok s ∧
        out = stored old s.rc s.endpoint s.tried := by
  have hdiff : checked (last - first) = .ok (last - first) ∧
      checked (last - first + 1) = .ok (last - first + 1) := by
    have h1 := meaning_mem hfirst (show (0 : Int) ≤ dynamicFirst by decide) (by decide)
    have h2 := meaning_mem hlast (show (0 : Int) ≤ dynamicLast by decide) (by decide)
    exact ⟨checked_of_mem (by omega) (by omega), checked_of_mem (by omega) (by omega)⟩
  unfold zsockBind
  rw [hrex]
  dsimp only
  unfold bindDynamic
  rw [boundOf_eq hfirst, boundOf_eq hlast, ← hfirst', ← hlast']
  dsimp only
  rw [hdiff.1, ok_bind, hdiff.2, ok_bind]
  constructor
  · intro h
    obtain ⟨s, hs, hpure⟩ := bind_eq_ok.mp h
    obtain ⟨port, hport, hs⟩ := bind_eq_ok.mp hs
    obtain rfl := checked_eq_ok hport
    exact ⟨⟨_, hport⟩, s, hs, (Except.ok.inj hpure).symm⟩
  · rintro ⟨⟨port, hport⟩, s, hs, rfl⟩
    obtain rfl := checked_eq_ok hport
    exact bind_eq_ok.mpr ⟨s, bind_eq_ok.mpr ⟨_, hport, hs⟩, rfl⟩

lemma exists_start (hrandof : IsRandof randof) (opcode : UInt8) {first last : Int}
    (hfirst : 0 ≤ first) (hlast : last ≤ 65535) (hle : first ≤ last + 1) :
    ∃ start : Nat, (if opcode = 33 then randof (last - first + 1) else 0) = start ∧
      (start < (last - first + 1).toNat ∨ start = 0) := by
  split
  · obtain ⟨hge, hlt⟩ := hrandof (last - first + 1) (by omega) (by omega)
    exact ⟨(randof (last - first + 1)).toNat, by omega, by omega⟩
  · exact ⟨0, rfl, .inr rfl⟩

lemma scan_overflow (hrandof : IsRandof randof) {n : Nat} {s : Scan} {endpoint : List UInt8}
    (hlength : hostname.length + 6 = intMax) :
    Loop.untilDone .endlessLoop (round bind hostname dynamicFirst dynamicLast) n
      (initial randof opcode dynamicFirst dynamicLast endpoint) ≠ .ok s := by
  intro hs
  obtain ⟨start, hinit, hlt⟩ :=
    exists_start hrandof opcode (show 0 ≤ dynamicFirst by decide)
      (show dynamicLast ≤ 65535 by decide) (by decide)
  -- every dynamic port has five digits
  have hdigits : (printInt (dynamicFirst + start)).length = 5 := by
    refine length_printInt_dynamic ?_ ?_
    · unfold dynamicFirst
      omega
    · unfold dynamicFirst dynamicLast at *
      omega
  refine Loop.untilDone_invariant
    (fun s => s = initial randof opcode dynamicFirst dynamicLast endpoint) (fun _ => False)
    (fun s hs x hx => ?_) rfl hs
  subst hs
  unfold round at hx
  rw [if_pos (by rfl)] at hx
  obtain ⟨attempts, -, hx⟩ := bind_eq_ok.mp hx
  rw [if_neg (by exact (by decide : dynamicLast - dynamicFirst + 1 ≠ 0))] at hx
  obtain ⟨endpoint, hendpoint, -⟩ := bind_eq_ok.mp hx
  refine absurd ?_ (zsysVprintf_ok_iff.mp ⟨endpoint, hendpoint⟩)
  rw [initial, hinit, length_append, length_cons, hdigits]
  exact hlength

/-- The range is scanned once unless its end lies before its start, which makes the attempts
negative, or the endpoint has no bounds and no room for a port. -/
theorem scansOnce_iff (hfirst : IsBound firstStr) (hlast : IsBound lastStr)
    (hrex : rex (dynamicEndpoint hostname opcode firstStr lastStr) =
      .dynamic hostname opcode firstStr lastStr)
    (hlength : (dynamicEndpoint hostname opcode firstStr lastStr).length < intMax)
    (hrandof : IsRandof randof) :
    (∃ out,
        zsockBind rex randof bind old (dynamicEndpoint hostname opcode firstStr lastStr) = .ok out ∧
        ScansOnce (meaning firstStr dynamicFirst) (meaning lastStr dynamicLast) bind out) ↔
      meaning firstStr dynamicFirst ≤ meaning lastStr dynamicLast + 1 ∧
        (firstStr = [] → lastStr = [] →
          (dynamicEndpoint hostname opcode firstStr lastStr).length + 1 < intMax) := by
  have h₁ := meaning_mem hfirst (show (0 : Int) ≤ dynamicFirst by decide) (by decide)
  have h₂ := meaning_mem hlast (show (0 : Int) ≤ dynamicLast by decide) (by decide)
  simp only [dynamicEndpoint, length_append, length_cons, length_nil] at hlength ⊢
  constructor
  · rintro ⟨out, hout, hscans⟩
    obtain ⟨-, s, hs, rfl⟩ := (zsockBind_eq_ok_iff hfirst hlast hrex rfl rfl).mp hout
    refine ⟨?_, fun hnone hnone' => ?_⟩
    · by_contra hgt
      obtain ⟨p, hp⟩ := exists_mem_of_ne_nil _ (tried_ne_nil rfl
        (show meaning lastStr dynamicLast - meaning firstStr dynamicFirst + 1 ≠ 0 by omega) hs)
      have hmem := hscans.inside p hp
      omega
    · subst hnone hnone'
      by_contra hfull
      refine scan_overflow hrandof ?_ hs
      rw [length_nil] at hlength hfull
      omega
  · rintro ⟨hle, hroom⟩
    obtain ⟨start, hinit, hlt⟩ := exists_start hrandof opcode h₁.1 h₂.2 hle
    have hfits : ∀ p, meaning firstStr dynamicFirst ≤ p → p ≤ meaning lastStr dynamicLast →
        (hostname ++ 58 :: printInt p).length < intMax := by
      intro p hp hp'
      have hfive := length_printInt_port (show 0 ≤ p by omega) (by omega)
      rw [length_append, length_cons]
      by_cases hnone : firstStr.length + lastStr.length = 0
      · have hboth := hroom (length_eq_zero_iff.mp (by omega))
          (length_eq_zero_iff.mp (by omega))
        omega
      · omega
    have hN : meaning lastStr dynamicLast = meaning firstStr dynamicFirst +
        (meaning lastStr dynamicLast - meaning firstStr dynamicFirst + 1).toNat - 1 := by omega
    obtain ⟨s, hs, hends⟩ := exists_scan h₁.1 hN h₂.2 hlt hfits
      (dynamicEndpoint hostname opcode firstStr lastStr)
    refine ⟨_, (zsockBind_eq_ok_iff hfirst hlast hrex rfl rfl).mpr
      ⟨⟨_, checked_of_mem ?_ ?_⟩, s, ?_, rfl⟩, hends.scansOnce hN hlt old⟩
    · rw [initial]
      dsimp only
      omega
    · rw [initial]
      dsimp only
      omega
    · rw [initial, hinit, ← hs]
      congr 2
      omega

end

instance (str : List UInt8) : Decidable (IsBound str) :=
  decidable_of_iff (str.all isDigit = true ∧ value str ≤ 65535) (by rw [IsBound, all_eq_true])

def sampleHost : List UInt8 := [116, 99, 112, 58, 47, 47, 104]

/-- The second port that is tried, of `tcp://h:![7-9]`, can be bound. -/
theorem scansOnce_sample :
    ∃ out, zsockBind (fun _ => .dynamic sampleHost 33 [55] [57]) (fun n => max 0 (n - 1)) (· == 1)
        none (dynamicEndpoint sampleHost 33 [55] [57]) = .ok out ∧ ScansOnce 7 9 (· == 1) out :=
  (scansOnce_iff (by decide) (by decide) rfl (by decide) (fun n h _ => by omega)).mpr
    ⟨by decide, fun h => by simp at h⟩

/-- For `tcp://h:*[9-7]` the port 9 is tried, which is not in the range. -/
theorem bind_outside :
    (zsockBind (fun _ => .dynamic sampleHost 42 [57] [55]) (fun _ => 0) (fun _ => true) none
        (dynamicEndpoint sampleHost 42 [57] [55])).map (fun out => (out.rc, out.tried)) =
      .ok (9, [9]) := by
  decide +kernel

end Czmq.ZsockBind
