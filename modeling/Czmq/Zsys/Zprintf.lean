import Czmq.Zchunk.Chunk
import Czmq.Zconfig.Tree
import Czmq.Zhash.Table

/-! The formatting by names of `zsys.c`: a scanner with four states that goes through the format by
positions and adds to a chunk. -/

namespace Czmq

open List Loop Bytes

namespace Zprintf

def percent : UInt8 := 37
def opening : UInt8 := 40
def closing : UInt8 := 41
def letterS : UInt8 := 115

inductive State where
  | findPercent
  | findKey
  | findFormat
  | done
  deriving DecidableEq

structure Scan where
  state : State
  pos : Nat
  key : List UInt8
  chunk : Zchunk

inductive Left where
  | chunk (chunk : Zchunk)
  | returned (text : Option (List UInt8))

def notFound (key : List UInt8) : List UInt8 :=
  Bytes.ascii "Key '" ++ key ++ Bytes.ascii "' not found in hash"

def notImplemented (key : List UInt8) : List UInt8 :=
  key ++ Bytes.ascii ": arguments other than 's' are not implemented"

section
variable (lookup : List UInt8 → Except Fault (Option CString)) (validate : Bool)
  (fresh : Nat → UInt8) (format : CString)

def put (chunk : Zchunk) (bytes : List UInt8) : Except Fault Zchunk := do
  let (_, chunk) ← chunk.extend fresh bytes
  pure chunk

def putSome (chunk : Zchunk) (bytes : List UInt8) : Except Fault Zchunk :=
  if bytes.length > 0 then put fresh chunk bytes else pure chunk

def complain (message : List UInt8) : Except Fault (Option (List UInt8)) :=
  if validate then do
    let message ← zsysVprintf message
    pure (some message)
  else pure none

def findPercent (s : Scan) : Except Fault (Scan ⊕ Left) := do
  let rest := format.1.drop s.pos
  let literal := rest.takeWhile (· != percent)
  let idx := s.pos + literal.length
  if literal.length = rest.length then do
    let chunk ← put fresh s.chunk rest
    pure (.inl { s with state := .done, chunk := chunk })
  else if format.1[idx + 1]? = some percent then do
    let chunk ← putSome fresh s.chunk literal
    let chunk ← put fresh chunk [percent]
    pure (.inl { s with pos := idx + 2, chunk := chunk })
  else if format.1[idx + 1]? = some opening then do
    let chunk ← putSome fresh s.chunk literal
    pure (.inl { s with state := .findKey, pos := idx, chunk := chunk })
  else do
    let chunk ← put fresh s.chunk literal
    pure (.inl { s with pos := idx, chunk := chunk })

/-- The empty key, for which `"()"` is written and skipped before the lookup. -/
def skipEmpty (chunk : Zchunk) (keyLen pos : Nat) : Except Fault (Zchunk × Nat) :=
  if keyLen = 0 then do
    let chunk ← put fresh chunk [opening, closing]
    pure (chunk, pos + 2)
  else pure (chunk, pos)

/-- The case `FIND_KEY`. Without a closing parenthesis, the length of the key is the difference of
`NULL` and a position, too much for a copy. -/
def findKey (s : Scan) : Except Fault (Scan ⊕ Left) := do
  let rest := format.1.drop s.pos
  let before := rest.takeWhile (· != closing)
  if before.length = rest.length then do
    let _ ← put fresh s.chunk rest
    .error .outOfMemory
  else do
    let keyLen := s.pos + before.length - (s.pos + 2)
    let (chunk, pos) ← skipEmpty fresh s.chunk keyLen (s.pos + 2)
    let key := (format.1.drop pos).take keyLen
    match ← lookup key with
    | none => do
      let text ← complain validate (notFound key)
      pure (.inr (.returned text))
    | some _ => pure (.inl ⟨.findFormat, pos + keyLen + 1, key, chunk⟩)

def findFormat (s : Scan) : Except Fault (Scan ⊕ Left) := do
  if format.1[s.pos]? = some letterS then
    match ← lookup s.key with
    | none => .error (.outOfBounds 0)
    | some value => do
      let chunk ← put fresh s.chunk value.1
      pure (.inl { s with state := .findPercent, pos := s.pos + 1, chunk := chunk })
  else do
    let text ← complain validate (notImplemented s.key)
    pure (.inr (.returned text))

def round (s : Scan) : Except Fault (Scan ⊕ Left) :=
  if format.1.length ≤ s.pos then .ok (.inr (.chunk s.chunk))
  else match s.state with
    | .findPercent => findPercent fresh format s
    | .findKey => findKey lookup validate fresh format s
    | .findFormat => findFormat lookup validate fresh format s
    | .done => .ok (.inr (.chunk s.chunk))

/-- `s_zsys_zprintf`. At most three rounds get past a position, except at a lone percent sign. -/
def zprintfWith : Except Fault (Option (List UInt8)) := do
  let chunk ← Zchunk.new fresh none (format.1.length * 3 / 2)
  match ← untilDone .endlessLoop (round lookup validate fresh format)
      (3 * format.1.length + 3) ⟨.findPercent, 0, [], chunk⟩ with
  | .returned text => pure text
  | .chunk chunk => do
    let chunk ← put fresh chunk [0]
    pure (if validate then none else some (cstr chunk.data))

end

/-- `zhash_lookup`. The table changes only in a field that the next lookup sets anew. -/
def zhashLookup (t : Zhash CString) (key : List UInt8) : Except Fault (Option CString) :=
  .ok (t.lookup (.ofBuffer key)).1

def zconfigLookup (root : Zconfig) (key : List UInt8) : Except Fault (Option CString) := do
  match ← root.locate key with
  | some child => pure (child.value.map .ofBuffer)
  | none => pure none

section
variable (fresh : Nat → UInt8) (format : CString)

def zprintf (args : Zhash CString) : Except Fault (Option (List UInt8)) :=
  zprintfWith (zhashLookup args) false fresh format

def zprintfError (args : Zhash CString) : Except Fault (Option (List UInt8)) :=
  zprintfWith (zhashLookup args) true fresh format

def zplprintf (args : Zconfig) : Except Fault (Option (List UInt8)) :=
  zprintfWith (zconfigLookup args) false fresh format

def zplprintfError (args : Zconfig) : Except Fault (Option (List UInt8)) :=
  zprintfWith (zconfigLookup args) true fresh format

end

inductive Element where
  | literal (c : { c : UInt8 // c ≠ percent ∧ c ≠ 0 })
  | percentSign
  | key (k : { k : List UInt8 // k ≠ [] ∧ closing ∉ k ∧ 0 ∉ k })

namespace Element

def text : Element → List UInt8
  | .literal c => [c.1]
  | .percentSign => [percent, percent]
  | .key k => percent :: opening :: (k.1 ++ [closing, letterS])

def expansion (f : List UInt8 → Option CString) : Element → List UInt8
  | .literal c => [c.1]
  | .percentSign => [percent]
  | .key k => ((f k.1).map Subtype.val).getD []

def key? : Element → Option (List UInt8)
  | .key k => some k.1
  | .literal _ | .percentSign => none

lemma zero_not_mem_text (e : Element) : 0 ∉ e.text := by
  cases e with
  | literal c =>
    intro h
    exact c.2.2 (mem_singleton.mp h).symm
  | percentSign => decide
  | key k =>
    intro h
    have hk := k.2.2.2
    simp [text, hk, percent, opening, closing, letterS] at h

end Element

lemma zero_not_mem_texts (es : List Element) : 0 ∉ es.flatMap Element.text := by
  intro h
  obtain ⟨e, -, he⟩ := mem_flatMap.mp h
  exact e.zero_not_mem_text he

def formatOf (es : List Element) : CString := ⟨es.flatMap Element.text, zero_not_mem_texts es⟩

def keys (es : List Element) : List (List UInt8) := es.filterMap Element.key?

def firstUnbound (f : List UInt8 → Option CString) (es : List Element) : Option (List UInt8) :=
  (keys es).find? fun k => (f k).isNone

def expanded (f : List UInt8 → Option CString) (es : List Element) : List UInt8 :=
  es.flatMap (Element.expansion f)

/-! ## Rounds -/

/-- A chunk with these contents, and memory for twice as many bytes as `room` more. -/
structure Holds (chunk : Zchunk) (out : List UInt8) (room : Nat) : Prop where
  valid : chunk.Valid
  contents : chunk.contents = out
  room : 2 * (out.length + room) < 2 ^ 63

section
variable {chunk : Zchunk} {out : List UInt8} {room : Nat} (fresh : Nat → UInt8) (bytes : List UInt8)
  (h : Holds chunk out (bytes.length + room))
include h

lemma Holds.put :
    ∃ c', put fresh chunk bytes = .ok c' ∧ Holds c' (out ++ bytes) room := by
  have hsize : chunk.size = out.length := by rw [← Zchunk.length_contents h.valid, h.contents]
  have hroom := h.room
  have hfits : chunk.size + bytes.length ≤ chunk.maxSize ∨
      2 * (chunk.size + bytes.length) < 2 ^ 63 := .inr (by omega)
  obtain ⟨c', hok, hvalid, -, hcontents, -⟩ := Zchunk.extend_spec h.valid hfits fresh
  refine ⟨c', ?_, hvalid, by rw [hcontents, h.contents], ?_⟩
  · rw [Zprintf.put, hok]
    rfl
  · rw [length_append]
    omega

lemma Holds.putSome :
    ∃ c', putSome fresh chunk bytes = .ok c' ∧ Holds c' (out ++ bytes) room := by
  rw [Zprintf.putSome]
  split
  · exact Holds.put fresh bytes h
  · next hnone =>
    obtain rfl : bytes = [] := eq_nil_of_length_eq_zero (by omega)
    refine ⟨chunk, rfl, h.valid, by rw [h.contents, append_nil], ?_⟩
    have hroom := h.room
    rw [append_nil]
    omega

end

lemma takeWhile_ne {c : UInt8} {before behind : List UInt8} (h : c ∉ before) :
    (before ++ c :: behind).takeWhile (· != c) = before := by
  have hpass : ∀ x ∈ before, (x != c) = true := by
    intro x hx
    rw [bne_iff_ne]
    rintro rfl
    exact h hx
  rw [takeWhile_append_of_pos hpass, takeWhile_cons_of_neg (by simp), append_nil]

section
variable {lookup : List UInt8 → Except Fault (Option CString)} {validate : Bool}
  {fresh : Nat → UInt8} {format : CString} {s : Scan} {out literal : List UInt8} {room : Nat}

lemma pos_lt {rest : List UInt8} (hdrop : format.1.drop s.pos = rest) (hne : rest ≠ []) :
    s.pos < format.1.length := by
  by_contra h
  rw [drop_eq_nil_of_le (by omega)] at hdrop
  exact hne hdrop.symm

lemma round_eq_findPercent (h : s.pos < format.1.length) (hstate : s.state = .findPercent) :
    round lookup validate fresh format s = findPercent fresh format s := by
  rw [round, if_neg (by omega), hstate]

lemma round_end (hstate : s.state = .findPercent) (hne : literal ≠ [])
    (hdrop : format.1.drop s.pos = literal) (hliteral : percent ∉ literal)
    (h : Holds s.chunk out (literal.length + room)) :
    ∃ c', round lookup validate fresh format s = .ok (.inl { s with state := .done, chunk := c' }) ∧
      Holds c' (out ++ literal) room := by
  obtain ⟨c', hput, hholds⟩ := Holds.put fresh _ h
  refine ⟨c', ?_, hholds⟩
  have htake : literal.takeWhile (· != percent) = literal := by
    refine takeWhile_eq_self_iff.mpr fun c hc => ?_
    rw [bne_iff_ne]
    rintro rfl
    exact hliteral hc
  rw [round_eq_findPercent (pos_lt hdrop hne) hstate, findPercent, hdrop, htake, if_pos rfl, hput]
  rfl

variable {more : List UInt8}

lemma findPercent_eq {c : UInt8}
    (hdrop : format.1.drop s.pos = literal ++ percent :: c :: more) (hliteral : percent ∉ literal) :
    findPercent fresh format s = (
      if c = percent then do
        let chunk ← putSome fresh s.chunk literal
        let chunk ← put fresh chunk [percent]
        pure (.inl { s with pos := s.pos + literal.length + 2, chunk := chunk })
      else if c = opening then do
        let chunk ← putSome fresh s.chunk literal
        pure (.inl { s with state := .findKey, pos := s.pos + literal.length, chunk := chunk })
      else do
        let chunk ← put fresh s.chunk literal
        pure (.inl { s with pos := s.pos + literal.length, chunk := chunk })) := by
  have hnext : format.1[s.pos + literal.length + 1]? = some c := by
    rw [Nat.add_assoc, ← getElem?_drop, hdrop]
    simp
  rw [findPercent, hdrop, takeWhile_ne hliteral, if_neg (by simp), hnext]
  simp only [Option.some_inj]

lemma round_key {k : List UInt8} (hstate : s.state = .findKey) (hk : k ≠ [])
    (hclosing : closing ∉ k)
    (hdrop : format.1.drop s.pos = percent :: opening :: (k ++ closing :: more)) :
    round lookup validate fresh format s = lookup k >>= fun value =>
      match value with
      | none => complain validate (notFound k) >>= fun text => .ok (.inr (.returned text))
      | some _ => .ok (.inl ⟨.findFormat, s.pos + 2 + k.length + 1, k, s.chunk⟩) := by
  have hlen : 0 < k.length := length_pos_of_ne_nil hk
  have hbefore : (format.1.drop s.pos).takeWhile (· != closing) = percent :: opening :: k := by
    have hnone : closing ∉ percent :: opening :: k := by simpa [percent, opening, closing]
    rw [hdrop]
    exact takeWhile_ne hnone
  have hkey : (format.1.drop (s.pos + 2)).take k.length = k := by
    rw [← drop_drop, hdrop]
    exact take_left
  have hpos := pos_lt hdrop (by simp)
  rw [round, if_neg (by omega), hstate]
  dsimp only
  rw [findKey, hbefore, hdrop]
  dsimp only
  rw [if_neg (by simp)]
  have hkeyLen : s.pos + (percent :: opening :: k).length - (s.pos + 2) = k.length := by
    simp only [length_cons]
    omega
  rw [hkeyLen, skipEmpty, if_neg (by omega)]
  dsimp only [pure, Except.pure, ok_bind]
  rw [hkey]

lemma round_format {value : CString} (hstate : s.state = .findFormat)
    (hdrop : format.1.drop s.pos = letterS :: more) (hlookup : lookup s.key = .ok (some value))
    (h : Holds s.chunk out (value.1.length + room)) :
    ∃ c', round lookup validate fresh format s =
        .ok (.inl { s with state := .findPercent, pos := s.pos + 1, chunk := c' }) ∧
      Holds c' (out ++ value.1) room := by
  obtain ⟨c', hput, hholds⟩ := Holds.put fresh _ h
  refine ⟨c', ?_, hholds⟩
  have hletter : format.1[s.pos]? = some letterS := by
    rw [← Nat.add_zero s.pos, ← getElem?_drop, hdrop]
    rfl
  have hpos := pos_lt hdrop (by simp)
  rw [round, if_neg (by omega), hstate]
  dsimp only
  rw [findFormat, if_pos hletter, hlookup]
  dsimp only [ok_bind]
  rw [hput]
  rfl

end

/-! ## The loop -/

section
variable {lookup : List UInt8 → Except Fault (Option CString)} {validate : Bool}
  {fresh : Nat → UInt8} {format : CString} {f : List UInt8 → Option CString}

def Outcome (validate : Bool) (unbound : Option (List UInt8)) (text : List UInt8) (room : Nat)
    (result : Except Fault Left) : Prop :=
  match unbound with
  | none => ∃ c', result = .ok (.chunk c') ∧ Holds c' text room
  | some k => result = complain validate (notFound k) >>= fun message => .ok (.returned message)

lemma drop_append_length {pos : Nat} {before behind : List UInt8}
    (h : format.1.drop pos = before ++ behind) :
    format.1.drop (pos + before.length) = behind := by
  rw [← drop_drop, h, drop_left]

section
variable {es : List Element} {literal out : List UInt8} {s : Scan} {room n : Nat}

/-- What the scanner does where it looks for the next percent sign, at these parts of the format. -/
def Scans (lookup : List UInt8 → Except Fault (Option CString)) (validate : Bool)
    (fresh : Nat → UInt8) (format : CString) (f : List UInt8 → Option CString)
    (es : List Element) : Prop :=
  ∀ (literal out : List UInt8) (s : Scan) (room n : Nat), s.state = .findPercent →
    format.1.drop s.pos = literal ++ es.flatMap Element.text → percent ∉ literal →
    Holds s.chunk out (literal.length + ((expanded f es).length + room)) →
    3 * es.length + 2 ≤ n →
    Outcome validate (firstUnbound f es) (out ++ literal ++ expanded f es) room
      (untilDone .endlessLoop (round lookup validate fresh format) n s)

lemma scans_nil : Scans lookup validate fresh format f [] := by
  intro literal out s room n hstate hdrop hliteral h hn
  rw [flatMap_nil, append_nil] at hdrop
  rw [expanded, flatMap_nil, length_nil, Nat.zero_add] at h
  rw [expanded, flatMap_nil, append_nil]
  obtain ⟨n, rfl⟩ := Nat.exists_eq_add_of_le' (show 2 ≤ n from hn)
  by_cases hne : literal = []
  · subst hne
    refine ⟨s.chunk, untilDone_inr ?_ _, ?_⟩
    · rw [round, if_pos (by simpa using hdrop)]
    · rw [length_nil, Nat.zero_add] at h
      rwa [append_nil]
  · obtain ⟨c', hround, hholds⟩ := round_end hstate hne hdrop hliteral h
    refine ⟨c', ?_, hholds⟩
    rw [untilDone_inl hround]
    refine untilDone_inr ?_ _
    rw [round]
    split <;> rfl

lemma scans_literal (ih : Scans lookup validate fresh format f es)
    (c : { c : UInt8 // c ≠ percent ∧ c ≠ 0 }) :
    Scans lookup validate fresh format f (.literal c :: es) := by
  intro literal out s room n hstate hdrop hliteral h hn
  have hdrop' : format.1.drop s.pos = (literal ++ [c.1]) ++ es.flatMap Element.text := by
    rw [hdrop, append_assoc]
    rfl
  have hliteral' : percent ∉ literal ++ [c.1] := by
    simp [hliteral, c.2.1.symm]
  have hlength : literal.length + ((expanded f (.literal c :: es)).length + room) =
      (literal ++ [c.1]).length + ((expanded f es).length + room) := by
    change literal.length + ((expanded f es).length + 1 + room) = _
    rw [length_append, length_singleton]
    omega
  rw [hlength] at h
  rw [length_cons] at hn
  have hrest := ih _ out s room n hstate hdrop' hliteral' h (by omega)
  rw [← append_assoc out, append_assoc (out ++ literal)] at hrest
  exact hrest

lemma scans_percentSign (ih : Scans lookup validate fresh format f es) :
    Scans lookup validate fresh format f (.percentSign :: es) := by
  intro literal out s room n hstate hdrop hliteral h hn
  rw [length_cons] at hn
  obtain ⟨n, rfl⟩ := Nat.exists_eq_add_of_le' (by omega : 1 ≤ n)
  have hlength : (expanded f (.percentSign :: es)).length + room =
      1 + ((expanded f es).length + room) := by
    change (expanded f es).length + 1 + room = _
    omega
  rw [hlength] at h
  obtain ⟨c1, hput1, hholds1⟩ := Holds.putSome fresh _ h
  obtain ⟨c', hput2, hholds⟩ := Holds.put fresh [percent] hholds1
  have hround : round lookup validate fresh format s =
      .ok (.inl { s with pos := s.pos + literal.length + 2, chunk := c' }) := by
    rw [round_eq_findPercent (pos_lt hdrop (by simp [Element.text])) hstate,
      findPercent_eq hdrop hliteral, hput1, ok_bind, hput2]
    rfl
  have hdrop' : format.1.drop (s.pos + literal.length + 2) = [] ++ es.flatMap Element.text := by
    have hassoc : literal ++ (Element.percentSign :: es).flatMap Element.text =
        (literal ++ [percent, percent]) ++ es.flatMap Element.text := by
      rw [append_assoc]
      rfl
    have hbehind := drop_append_length (hdrop.trans hassoc)
    rwa [length_append] at hbehind
  rw [untilDone_inl hround]
  have hrest := ih [] _ { s with pos := s.pos + literal.length + 2, chunk := c' } room n hstate hdrop'
    (by simp) (by rwa [length_nil, Nat.zero_add]) (by omega)
  rw [append_nil, append_assoc _ [percent]] at hrest
  exact hrest

lemma scans_key {k : { k : List UInt8 // k ≠ [] ∧ closing ∉ k ∧ 0 ∉ k }}
    (hlookup : lookup k.1 = .ok (f k.1)) (ih : Scans lookup validate fresh format f es) :
    Scans lookup validate fresh format f (.key k :: es) := by
  intro literal out s room n hstate hdrop hliteral h hn
  rw [length_cons] at hn
  obtain ⟨n, rfl⟩ := Nat.exists_eq_add_of_le' (by omega : 3 ≤ n)
  obtain ⟨c1, hput, hholds1⟩ := Holds.putSome fresh _ h
  have hround1 : round lookup validate fresh format s =
      .ok (.inl { s with state := .findKey, pos := s.pos + literal.length, chunk := c1 }) := by
    rw [round_eq_findPercent (pos_lt hdrop (by simp [Element.text])) hstate,
      findPercent_eq hdrop hliteral, hput]
    rfl
  -- at the key
  have hdrop1 : format.1.drop (s.pos + literal.length) =
      percent :: opening :: (k.1 ++ closing :: letterS :: es.flatMap Element.text) := by
    rw [drop_append_length hdrop, flatMap_cons, Element.text, cons_append,
      cons_append, append_assoc]
    rfl
  have hround2 : round lookup validate fresh format
      { s with state := .findKey, pos := s.pos + literal.length, chunk := c1 } = _ :=
    round_key rfl k.2.1 k.2.2.1 hdrop1
  rw [hlookup, ok_bind] at hround2
  rw [untilDone_inl hround1]
  cases hvalue : f k.1 with
  | none =>
    have hfirst : firstUnbound f (.key k :: es) = some k.1 := by
      change (k.1 :: keys es).find? _ = _
      rw [find?_cons_of_pos (by rw [hvalue]; rfl)]
    rw [hfirst, untilDone_succ, hround2, hvalue]
    rw [bind_assoc]
    rfl
  | some value =>
    have hfirst : firstUnbound f (.key k :: es) = firstUnbound f es := by
      change (k.1 :: keys es).find? _ = _
      rw [find?_cons_of_neg (by rw [hvalue]; simp)]
      rfl
    rw [hvalue] at hround2
    rw [untilDone_inl hround2, hfirst]
    -- at the letter behind it
    have hdrop2 : format.1.drop (s.pos + literal.length + 2 + k.1.length + 1) =
        letterS :: es.flatMap Element.text := by
      have hassoc : percent :: opening :: (k.1 ++ closing :: letterS :: es.flatMap Element.text) =
          (percent :: opening :: (k.1 ++ [closing])) ++ letterS :: es.flatMap Element.text := by
        simp
      rw [← drop_append_length (hdrop1.trans hassoc)]
      simp only [length_cons, length_append, length_nil]
      congr 1
      omega
    have hexpanded : expanded f (.key k :: es) = value.1 ++ expanded f es := by
      rw [expanded, flatMap_cons, Element.expansion, hvalue]
      rfl
    rw [hexpanded, length_append, Nat.add_assoc] at hholds1
    obtain ⟨c2, hround3, hholds2⟩ : ∃ c', round lookup validate fresh format
          ⟨.findFormat, s.pos + literal.length + 2 + k.1.length + 1, k.1, c1⟩ = _ ∧ _ :=
      round_format rfl hdrop2 (hlookup.trans (by rw [hvalue])) hholds1
    rw [untilDone_inl hround3]
    have hdrop3 : format.1.drop (s.pos + literal.length + 2 + k.1.length + 1 + 1) =
        es.flatMap Element.text := by
      rw [← drop_drop, hdrop2]
      rfl
    have hrest := ih [] _ ⟨.findPercent, s.pos + literal.length + 2 + k.1.length + 1 + 1, k.1, c2⟩
      room n rfl hdrop3 (by simp) (by rwa [length_nil, Nat.zero_add]) (by omega)
    rw [append_nil, append_assoc _ value.1, ← hexpanded] at hrest
    exact hrest

lemma scans (hlookup : ∀ k ∈ keys es, lookup k = .ok (f k)) :
    Scans lookup validate fresh format f es := by
  induction es with
  | nil => exact scans_nil
  | cons e es ih =>
    cases e with
    | literal c => exact scans_literal (ih hlookup) c
    | percentSign => exact scans_percentSign (ih hlookup)
    | key k =>
      have hkeys : keys (.key k :: es) = k.1 :: keys es := rfl
      rw [hkeys, forall_mem_cons] at hlookup
      exact scans_key hlookup.1 (ih hlookup.2)

end

lemma length_le_length_texts (es : List Element) :
    es.length ≤ (es.flatMap Element.text).length := by
  induction es with
  | nil => exact Nat.le_refl 0
  | cons e es ih =>
    have hpos : 1 ≤ e.text.length := by
      cases e with
      | literal | percentSign => exact Nat.le_add_left 1 _
      | key k => exact Nat.le_add_left 1 _
    rw [flatMap_cons, length_append, length_cons]
    omega

lemma zero_not_mem_expanded (f : List UInt8 → Option CString) (es : List Element) :
    0 ∉ expanded f es := by
  intro h
  obtain ⟨e, -, he⟩ := mem_flatMap.mp h
  cases e with
  | literal c => exact c.2.2 (mem_singleton.mp he).symm
  | percentSign => exact absurd (mem_singleton.mp he) (by decide)
  | key k =>
    rw [Element.expansion] at he
    cases hvalue : f k.1 with
    | none => simp [hvalue] at he
    | some value =>
      rw [hvalue] at he
      exact value.2 he

def Fits (f : List UInt8 → Option CString) (es : List Element) : Prop :=
  (formatOf es).1.length * 3 / 2 < 2 ^ 63 ∧ 2 * ((expanded f es).length + 1) < 2 ^ 63

instance (f : List UInt8 → Option CString) (es : List Element) : Decidable (Fits f es) :=
  inferInstanceAs (Decidable (_ ∧ _))

lemma zprintfWith_eq {es : List Element} (hlookup : ∀ k ∈ keys es, lookup k = .ok (f k))
    (hfits : Fits f es) :
    zprintfWith lookup validate fresh (formatOf es) =
      match firstUnbound f es with
      | none => .ok (if validate then none else some (expanded f es))
      | some k => complain validate (notFound k) := by
  obtain ⟨chunk, hnew, hvalid, -, hcontents⟩ := Zchunk.new_none hfits.1 fresh
  have hholds : Holds chunk [] (([] : List UInt8).length + ((expanded f es).length + 1)) := by
    refine ⟨hvalid, hcontents, ?_⟩
    rw [length_nil, Nat.zero_add, Nat.zero_add]
    exact hfits.2
  have hrounds := length_le_length_texts es
  have hdrop : (formatOf es).1.drop 0 = [] ++ es.flatMap Element.text := rfl
  have houtcome : Outcome validate (firstUnbound f es) ([] ++ [] ++ expanded f es) 1
      (untilDone .endlessLoop (round lookup validate fresh (formatOf es))
        (3 * (formatOf es).1.length + 3) ⟨.findPercent, 0, [], chunk⟩) :=
    scans hlookup [] [] ⟨.findPercent, 0, [], chunk⟩ 1 _ rfl hdrop (by simp) hholds
      (by change _ ≤ 3 * (es.flatMap Element.text).length + 3; omega)
  rw [zprintfWith, hnew, ok_bind]
  cases hfirst : firstUnbound f es with
  | some k =>
    rw [hfirst] at houtcome
    rw [houtcome, bind_assoc]
    exact bind_pure _
  | none =>
    rw [hfirst] at houtcome
    obtain ⟨c, hrun, hholds⟩ := houtcome
    have hroom : Holds c (expanded f es) (([0] : List UInt8).length + 0) := hholds
    obtain ⟨c', hput, hholds'⟩ := Holds.put fresh [0] hroom
    rw [hrun]
    dsimp only [ok_bind]
    rw [hput, ok_bind]
    have htext : cstr c'.data = expanded f es := by
      have hsplit := take_append_drop c'.size c'.data
      have hcontents := hholds'.contents
      rw [Zchunk.contents] at hcontents
      rw [← hsplit, hcontents, append_assoc]
      exact cstr_append ⟨expanded f es, zero_not_mem_expanded f es⟩ _
    rw [htext]
    rfl

end

/-- The text with every name replaced by its value, or `NULL` and a message for a name without one.
-/
def Substitutes (f : List UInt8 → Option CString) (es : List Element)
    (printed error : Except Fault (Option (List UInt8))) : Prop :=
  if ∀ k ∈ keys es, (f k).isSome then printed = .ok (some (expanded f es)) ∧ error = .ok none
  else printed = .ok none ∧ ∃ message, error = .ok (some message)

/-- The message for the first name without a value, if any, can be formatted. -/
def MessageFits (f : List UInt8 → Option CString) (es : List Element) : Prop :=
  ∀ k ∈ firstUnbound f es, (notFound k).length ≠ intMax

lemma substitutes_iff {lookup : List UInt8 → Except Fault (Option CString)}
    {f : List UInt8 → Option CString} {es : List Element}
    (hlookup : ∀ k ∈ keys es, lookup k = .ok (f k)) (hfits : Fits f es) (fresh : Nat → UInt8) :
    Substitutes f es (zprintfWith lookup false fresh (formatOf es))
        (zprintfWith lookup true fresh (formatOf es)) ↔ MessageFits f es := by
  rw [zprintfWith_eq hlookup hfits, zprintfWith_eq hlookup hfits, Substitutes, MessageFits]
  cases hfirst : firstUnbound f es with
  | none =>
    have hall : ∀ k ∈ keys es, (f k).isSome := by
      intro k hk
      have hsome := find?_eq_none.mp hfirst k hk
      simpa [Option.isSome_iff_ne_none] using hsome
    rw [if_pos hall]
    exact iff_of_true ⟨rfl, rfl⟩ (by simp)
  | some k =>
    have hnot : ¬∀ k ∈ keys es, (f k).isSome := by
      intro hall
      have hsome := hall k (mem_of_find?_eq_some hfirst)
      have hnone := find?_some hfirst
      simp_all
    rw [if_neg hnot]
    have hmessage : (∃ message, complain true (notFound k) = .ok (some message)) ↔
        ∃ message, zsysVprintf (notFound k) = .ok message := by
      rw [complain]
      cases zsysVprintf (notFound k) with
      | error e => simp
      | ok message => simp
    rw [hmessage, zsysVprintf_ok_iff]
    simp [complain, pure, Except.pure]

def bound (args : Zhash CString) (k : List UInt8) : Option CString := (args.lookup (.ofBuffer k)).1

/-- From a table or a tree, the names of any format are replaced by their values and the first
without one is reported, except where the message for that is `INT_MAX` long. -/
theorem zprintf_substitutes_iff (es : List Element) (fresh : Nat → UInt8) (args : Zhash CString)
    (root : Zconfig) (f : List UInt8 → Option CString)
    (hroot : ∀ k ∈ keys es, zconfigLookup root k = .ok (f k)) (hfits : Fits (bound args) es)
    (hfits' : Fits f es) :
    (Substitutes (bound args) es (zprintf fresh (formatOf es) args)
        (zprintfError fresh (formatOf es) args) ↔ MessageFits (bound args) es) ∧
      (Substitutes f es (zplprintf fresh (formatOf es) root)
        (zplprintfError fresh (formatOf es) root) ↔ MessageFits f es) :=
  ⟨substitutes_iff (fun _ _ => rfl) hfits fresh, substitutes_iff hroot hfits' fresh⟩

def sample : List Element :=
  [.literal ⟨97, by decide⟩, .key ⟨[107], by decide⟩, .percentSign]

def sampleTree : Zconfig :=
  .node (Zconfig.new none) (.node ⟨some [107], some [37], none⟩ .nil .nil) .nil

def sampleValues (k : List UInt8) : Option CString :=
  if k = [107] then some (.ofBuffer [37]) else none

/-- The name is not in an empty table, and it is in the tree. -/
theorem zprintf_substitutes_sample :
    Substitutes (bound .new) sample (zprintf (fun _ => 0) (formatOf sample) .new)
        (zprintfError (fun _ => 0) (formatOf sample) .new) ∧
      Substitutes sampleValues sample (zplprintf (fun _ => 0) (formatOf sample) sampleTree)
        (zplprintfError (fun _ => 0) (formatOf sample) sampleTree) := by
  have hboth := zprintf_substitutes_iff sample (fun _ => 0) .new sampleTree sampleValues
    (by rintro k hk; obtain rfl := mem_singleton.mp hk; rfl) (by decide +kernel)
    (by decide +kernel)
  refine ⟨hboth.1.mpr fun k hk => ?_, hboth.2.mpr fun k hk => ?_⟩
  · have hfirst : firstUnbound (bound .new) sample = some [107] := by decide +kernel
    cases hfirst.symm.trans hk
    decide
  · have hfirst : firstUnbound sampleValues sample = none := by decide +kernel
    cases hfirst.symm.trans hk

lemma bound_new (k : List UInt8) : bound .new k = none := by
  have hempty : (replicate Zhash.initialSize ([] : List (Zhash.Item CString))).getD
      (Zhash.sItemHash (.ofBuffer k) Zhash.initialSize) [] = [] := by
    rw [getD_eq_getElem?_getD, getElem?_replicate]
    split <;> rfl
  change (find? _ ((replicate Zhash.initialSize ([] : List (Zhash.Item CString))).getD
    (Zhash.sItemHash (.ofBuffer k) Zhash.initialSize) [])).bind _ = none
  rw [hempty]
  rfl

/-- For a missing name of `INT_MAX - 24` characters, the size of the message and its terminator
overflows an `int`. -/
theorem zprintfError_overflow : ∃ k, k.1 = replicate (intMax - 24) 97 ∧
    zprintf (fun _ => 0) (formatOf [.key k]) .new = .ok none ∧
      zprintfError (fun _ => 0) (formatOf [.key k]) .new = .error .overflow := by
  have hk : replicate (intMax - 24) (97 : UInt8) ≠ [] ∧
      closing ∉ replicate (intMax - 24) (97 : UInt8) ∧
      0 ∉ replicate (intMax - 24) (97 : UInt8) := by
    refine ⟨?_, fun h => absurd (eq_of_mem_replicate h) (by decide),
      fun h => absurd (eq_of_mem_replicate h) (by decide)⟩
    rw [Ne, replicate_eq_nil_iff]
    decide
  obtain ⟨k, hkey⟩ : ∃ k : { k : List UInt8 // k ≠ [] ∧ closing ∉ k ∧ 0 ∉ k },
      k.1 = replicate (intMax - 24) 97 := ⟨⟨_, hk⟩, rfl⟩
  have hlength : k.1.length = intMax - 24 := by rw [hkey, length_replicate]
  have hmessage : (notFound k.1).length = intMax := by
    simp only [notFound, length_append, hlength]
    decide
  have hfirst : firstUnbound (bound .new) [.key k] = some k.1 := by
    change [k.1].find? _ = _
    rw [find?_cons_of_pos (by rw [bound_new]; rfl)]
  have hfits : Fits (bound .new) [.key k] := by
    have hexpanded : expanded (bound .new) [.key k] = [] := by
      simp [expanded, Element.expansion, bound_new]
    have htext : (formatOf [.key k]).1.length = k.1.length + 4 := by
      simp [formatOf, Element.text]
    rw [Fits, hexpanded, htext, hlength]
    decide
  have hlookup : ∀ k' ∈ keys [.key k], zhashLookup .new k' = .ok (bound .new k') := fun _ _ => rfl
  refine ⟨k, hkey, ?_, ?_⟩
  · rw [zprintf, zprintfWith_eq hlookup hfits, hfirst]
    rfl
  · rw [zprintfError, zprintfWith_eq hlookup hfits, hfirst]
    dsimp only
    rw [complain, zsysVprintf, hmessage]
    rfl

end Zprintf

end Czmq
