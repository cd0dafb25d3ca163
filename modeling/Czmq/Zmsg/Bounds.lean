import Czmq.Zmsg.Codec
import Mathlib.Logic.Relation

/-! What `zmsg_decode` hands to `zframe_new`, for any bytes. A length is bounded by `source > limit
- frame_size`, which wraps around, and is sign-extended from `2 ^ 31` on. -/

namespace Czmq.Zmsg

open Bytes

def limit (b : Block) : Nat := ptrAdd b.base b.data.length

/-- What the guard of the loop is evaluated in: `source`, and the message so far. -/
def Reached (alloc : Nat → Bool) (b : Block) : Nat × Zmsg → Prop :=
  Relation.ReflTransGen (fun s t => decodeRound alloc b (limit b) s = .ok (.inl t)) (b.base, new)

/-- The arguments with which a round calls `zframe_new`, if it comes to that. -/
def passed (b : Block) (limit source : Nat) : Except Fault (Option (Nat × Nat)) := do
  match ← decodeSize b limit source with
  | none => pure none
  | some (frameSize, source) =>
    if ptrSub limit frameSize < source then pure none else pure (some (source, frameSize))

/-- A round reads its length inside the input, and passes a size to `zframe_new` that is at most the
bytes between `source` and `limit`. -/
def StaysInside (b : Block) (source : Nat) : Prop :=
  ∃ call, passed b (limit b) source = .ok call ∧
    ∀ p n, call = some (p, n) → p ≤ limit b ∧ n ≤ limit b - p

/-- No subtraction from `limit` wraps around: not that of 4, and not that of the length, which is `2
^ 64 - 2 ^ 32 + length` from `2 ^ 31` on. -/
def NoWrap (limit : Nat) : List UInt8 → Prop
  | [] => True
  | x :: rest =>
    if x = 255 then
      4 ≤ limit ∧ (4 ≤ rest.length →
        ofBytes (rest.take 4) < 2 ^ 31 ∧ ofBytes (rest.take 4) ≤ limit ∨
          2 ^ 64 + ofBytes (rest.take 4) ≤ limit + 2 ^ 32)
    else x.toNat ≤ limit

instance (limit : Nat) : (bytes : List UInt8) → Decidable (NoWrap limit bytes)
  | [] => inferInstanceAs (Decidable True)
  | x :: rest => inferInstanceAs (Decidable (if x = 255 then
      4 ≤ limit ∧ (4 ≤ rest.length →
        ofBytes (rest.take 4) < 2 ^ 31 ∧ ofBytes (rest.take 4) ≤ limit ∨
          2 ^ 64 + ofBytes (rest.take 4) ≤ limit + 2 ^ 32)
    else x.toNat ≤ limit))

variable {alloc : Nat → Bool} {b : Block}

lemma limit_eq (b : Block) : limit b = b.base + b.data.length := ptrAdd_of_lt b.end_lt

lemma decodeRound_eq_passed (alloc : Nat → Bool) (b : Block) (limit : Nat) (s : Nat × Zmsg) :
    decodeRound alloc b limit s =
      if s.1 < limit then passed b limit s.1 >>= fun
        | none => .ok (.inr none)
        | some call => zframeNew alloc b call.1 call.2 >>= fun
          | none => .ok (.inr none)
          | some decoded => .ok (.inl (ptrAdd call.1 call.2, s.2.append decoded))
      else .ok (.inr (some s.2)) := by
  unfold decodeRound passed
  split
  · cases decodeSize b limit s.1 with
    | error e => rfl
    | ok size =>
      cases size with
      | none => rfl
      | some size =>
        dsimp only [ok_bind]
        split
        · rfl
        · refine bind_congr fun decoded => ?_
          cases decoded <;> rfl
  · rfl

variable {source n p : Nat}

lemma le_of_decodeSize_eq_some
    (h : decodeSize b (limit b) source = .ok (some (n, p))) : b.base ≤ p ∧ p ≤ limit b := by
  have hend := b.end_lt
  obtain ⟨byte, hbyte, h⟩ := bind_eq_ok.mp h
  obtain ⟨hbase, hsource, -⟩ := load_eq_ok.mp hbyte
  rw [ptrAdd_of_lt (by omega)] at h
  rw [limit_eq] at h ⊢
  dsimp only at h
  split at h
  · split at h
    · cases h
    · obtain ⟨bytes, hbytes, h⟩ := bind_eq_ok.mp h
      obtain ⟨-, hfour, -⟩ := load_eq_ok.mp hbytes
      obtain ⟨-, rfl⟩ := Prod.mk.inj (Option.some.inj (Except.ok.inj h))
      rw [ptrAdd_of_lt (by omega)]
      omega
  · cases h
    omega

lemma le_of_passed_eq_some
    (h : passed b (limit b) source = .ok (some (p, n))) : b.base ≤ p ∧ p ≤ limit b := by
  obtain ⟨size, hsize, h⟩ := bind_eq_ok.mp h
  rcases size with _ | ⟨n', p'⟩
  · cases h
  · dsimp only at h
    split at h
    · cases h
    · cases h
      exact le_of_decodeSize_eq_some hsize

lemma le_of_zframeNew_eq_some {decoded : List UInt8} (hp : p ≤ limit b)
    (h : zframeNew alloc b p n = .ok (some decoded)) : p + n ≤ limit b := by
  rw [zframeNew] at h
  split at h
  · omega
  · split at h
    · cases hload : load b p n with
      | error e => rw [hload] at h; cases h
      | ok bs =>
        rw [limit_eq]
        exact (load_eq_ok.mp hload).2.1
    · cases h

lemma Reached.le {s : Nat × Zmsg} (h : Reached alloc b s) : b.base ≤ s.1 ∧ s.1 ≤ limit b := by
  induction h with
  | refl =>
    rw [limit_eq]
    exact ⟨le_rfl, Nat.le_add_right _ _⟩
  | @tail s t _ hstep _ =>
    rw [decodeRound_eq_passed] at hstep
    split at hstep
    · obtain ⟨call, hcall, hstep⟩ := bind_eq_ok.mp hstep
      rcases call with _ | ⟨p, n⟩
      · cases hstep
      · obtain ⟨copy, hcopy, hstep⟩ := bind_eq_ok.mp hstep
        rcases copy with _ | decoded
        · cases hstep
        · cases hstep
          obtain ⟨hbase, hp⟩ := le_of_passed_eq_some hcall
          have hn := le_of_zframeNew_eq_some hp hcopy
          have hend := b.end_lt
          rw [← limit_eq] at hend
          rw [ptrAdd_of_lt (by omega)]
          omega
    · cases hstep

/-! ## The test of a length -/

lemma inside_iff_le {limit : Nat} (hlimit : limit < 2 ^ 64) (hp : p ≤ limit)
    (hn : n < 2 ^ 64) : (¬ ptrSub limit n < p → n ≤ limit - p) ↔ n ≤ limit := by
  constructor
  · intro h
    by_contra hwrap
    have hsub : ptrSub limit n = limit + 2 ^ 64 - n := by
      rw [ptrSub]
      omega
    have := h (by omega)
    omega
  · intro hle hcheck
    rw [ptrSub_of_le hle hlimit] at hcheck
    omega

lemma staysInside_iff_le
    (h : decodeSize b (limit b) source = .ok (some (n, p))) (hn : n < 2 ^ 64) :
    StaysInside b source ↔ n ≤ limit b := by
  have hlimit : limit b < 2 ^ 64 := by
    rw [limit_eq]
    exact b.end_lt
  have hp := (le_of_decodeSize_eq_some h).2
  have hpassed : passed b (limit b) source =
      if ptrSub (limit b) n < p then .ok none else .ok (some (p, n)) := by
    rw [passed, h]
    rfl
  rw [← inside_iff_le hlimit hp hn, StaysInside, hpassed]
  split
  · next hcheck => simp [hcheck]
  · next hcheck => simp [hcheck, hp]

section
variable {source : Nat} {x : UInt8} {rest : List UInt8} (hbase : b.base ≤ source)
  (hsource : source < limit b) (hrest : b.data.drop (source - b.base) = x :: rest)
include hbase hsource hrest

lemma load_one : load b source 1 = .ok [x] := by
  rw [limit_eq] at hsource
  exact load_eq_ok.mpr ⟨hbase, hsource, by rw [hrest]; rfl⟩

lemma decodeSize_short (hx : x ≠ 255) :
    decodeSize b (limit b) source = .ok (some (x.toNat, ptrAdd source 1)) := by
  have hbyte : ofBytes [x] = x.toNat := by simp [ofBytes]
  have hne : x.toNat ≠ 255 := fun h => hx (UInt8.toNat_inj.mp h)
  rw [decodeSize, load_one hbase hsource hrest, ok_bind, hbyte, if_neg hne]
  rfl

omit hsource in
lemma length_rest : source + 1 + rest.length = limit b := by
  have hlen := congrArg List.length hrest
  rw [List.length_drop, List.length_cons] at hlen
  rw [limit_eq]
  omega

lemma decodeSize_long (hx : x = 255) :
    decodeSize b (limit b) source =
      if ptrSub (limit b) 4 < source + 1 then .ok none
      else if 4 ≤ rest.length then
        .ok (some (sizeT (int32 (ofBytes (rest.take 4))), ptrAdd (source + 1) 4))
      else .error (.outOfBounds (source + 1)) := by
  have hlen := length_rest hbase hrest
  have hend := b.end_lt
  rw [← limit_eq] at hend
  subst hx
  rw [decodeSize, load_one hbase hsource hrest, ok_bind, if_pos (by decide),
    ptrAdd_of_lt (by omega)]
  refine if_congr Iff.rfl rfl ?_
  split
  · next hfour =>
    have hload : load b (source + 1) 4 = .ok (rest.take 4) := by
      refine load_eq_ok.mpr ⟨by omega, by rw [← limit_eq]; omega, ?_⟩
      rw [Nat.sub_add_comm hbase, ← List.drop_drop, hrest]
      rfl
    rw [hload]
    rfl
  · rw [load_of_lt (by rw [← limit_eq]; omega)]
    rfl

lemma staysInside_long_iff (hx : x = 255) :
    StaysInside b source ↔ 4 ≤ limit b ∧
      (4 ≤ rest.length → sizeT (int32 (ofBytes (rest.take 4))) ≤ limit b) := by
  have hlen := length_rest hbase hrest
  have hend := b.end_lt
  rw [← limit_eq] at hend
  have hlong := decodeSize_long hbase hsource hrest hx
  by_cases hfour : 4 ≤ rest.length
  · rw [ptrSub_of_le (by omega) hend, if_neg (by omega), if_pos hfour] at hlong
    rw [staysInside_iff_le hlong (by rw [sizeT]; omega)]
    exact ⟨fun hle => ⟨by omega, fun _ => hle⟩, fun hle => hle.2 hfour⟩
  · by_cases hlimit : 4 ≤ limit b
    · rw [ptrSub_of_le hlimit hend, if_pos (by omega)] at hlong
      refine iff_of_true ⟨none, ?_, by simp⟩ ⟨hlimit, fun h => absurd h hfour⟩
      rw [passed, hlong]
      rfl
    · have hsub : ptrSub (limit b) 4 = limit b + 2 ^ 64 - 4 := by
        rw [ptrSub]
        omega
      rw [if_neg (by omega), if_neg hfour] at hlong
      refine iff_of_false ?_ fun h => hlimit h.1
      rintro ⟨call, hcall, -⟩
      rw [passed, hlong] at hcall
      cases hcall

end

/-- In every round, on any bytes, the size passed to `zframe_new` is at most the bytes left exactly
when no subtraction from `limit` wraps around. -/
theorem staysInside_iff_noWrap {s : Nat × Zmsg} (hs : Reached alloc b s) (hguard : s.1 < limit b) :
    StaysInside b s.1 ↔ NoWrap (limit b) (b.data.drop (s.1 - b.base)) := by
  have hbase := hs.le.1
  cases hrest : b.data.drop (s.1 - b.base) with
  | nil =>
    rw [List.drop_eq_nil_iff] at hrest
    rw [limit_eq] at hguard
    omega
  | cons x rest =>
    by_cases hx : x = 255
    · rw [staysInside_long_iff hbase hguard hrest hx, NoWrap, if_pos hx]
      refine and_congr_right fun _ => imp_congr_right fun hfour => ?_
      have hlt := ofBytes_lt (rest.take 4)
      rw [List.length_take, Nat.min_eq_left hfour] at hlt
      by_cases hsmall : ofBytes (rest.take 4) < 2 ^ 31
      · rw [sizeT_int32_of_lt hsmall]
        omega
      · rw [sizeT_int32_of_ge (by omega) hlt]
        omega
    · have hlt := x.toNat_lt
      rw [staysInside_iff_le (decodeSize_short hbase hguard hrest hx) (by omega), NoWrap,
        if_neg hx]

/-- Two frames at an ordinary address, in the second round. -/
theorem staysInside_second : ∃ b : Block, ∃ s, Reached (fun _ => true) b s ∧
    s.1 = b.base + 2 ∧ StaysInside b s.1 := by
  let b : Block := ⟨2 ^ 40, [1, 7, 2, 8, 9], by decide, by decide⟩
  have hs : Reached (fun _ => true) b (2 ^ 40 + 2, new.append [7]) := by
    refine .single ?_
    decide +kernel
  exact ⟨b, _, hs, rfl, (staysInside_iff_noWrap hs (by decide)).mpr (by decide +kernel)⟩

/-- Five bytes of 255: the length is -1 as an `int`, and `2 ^ 64 - 1` bytes are to be copied. -/
theorem passed_hostile : ∃ b : Block, b.data = [255, 255, 255, 255, 255] ∧
    passed b (limit b) b.base = .ok (some (limit b, 2 ^ 64 - 1)) ∧ ¬ StaysInside b b.base := by
  let b : Block := ⟨2 ^ 40, [255, 255, 255, 255, 255], by decide, by decide⟩
  have hpassed : passed b (limit b) b.base = .ok (some (limit b, 2 ^ 64 - 1)) := by decide +kernel
  refine ⟨b, rfl, hpassed, ?_⟩
  rintro ⟨call, hcall, hinside⟩
  obtain rfl : some (limit b, 2 ^ 64 - 1) = call := Except.ok.inj (hpassed.symm.trans hcall)
  have := (hinside _ _ rfl).2
  omega

end Czmq.Zmsg
