import Czmq.Fault

/-! The formatting of `zsys.c`. -/

namespace Czmq

def intMax : Nat := 2 ^ 31 - 1

/-- `zsys_vprintf`, on the text of the format. For a length that is no `int`, `vsnprintf` answers -1
with its first buffer of 256 bytes filled. -/
def zsysVprintf (text : List UInt8) : Except Fault (List UInt8) :=
  if text.length < intMax then .ok text
  else if text.length = intMax then .error .overflow
  else .ok (text.take 255)

variable {text : List UInt8}

lemma zsysVprintf_of_lt (h : text.length < intMax) :
    zsysVprintf text = .ok text := by rw [zsysVprintf, if_pos h]

lemma zsysVprintf_eq_self_iff :
    zsysVprintf text = .ok text ↔ text.length < intMax := by
  refine ⟨fun h => ?_, zsysVprintf_of_lt⟩
  by_contra hge
  rw [zsysVprintf, if_neg hge] at h
  split at h
  · cases h
  · have hlen := congrArg List.length (Except.ok.inj h)
    rw [List.length_take, intMax] at *
    omega

lemma zsysVprintf_ok_iff :
    (∃ s, zsysVprintf text = .ok s) ↔ text.length ≠ intMax := by
  rw [zsysVprintf]
  constructor
  · rintro ⟨s, hs⟩ he
    rw [if_neg (by omega), if_pos he] at hs
    cases hs
  · intro hne
    split
    · exact ⟨_, rfl⟩
    · exact ⟨_, rfl⟩

end Czmq
