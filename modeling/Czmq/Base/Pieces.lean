import Mathlib.Data.List.Basic
import Mathlib.Tactic.Common

/-! A text read into a buffer as `fgets` does: a piece ends behind the first `stop`, or where the
buffer is full. -/

namespace Pieces

open List

variable {α : Type} [DecidableEq α] (stop : α) (size : Nat)

/-- The pieces of a text, with `acc` in a buffer that has room for `room` more. -/
def cut : Nat → List α → List α → List (List α)
  | _, acc, [] => if acc.isEmpty then [] else [acc]
  | room, acc, c :: text =>
    if c = stop ∨ room ≤ 1 then (acc ++ [c]) :: cut size [] text
    else cut (room - 1) (acc ++ [c]) text

def pieces (text : List α) : List (List α) := cut stop size size [] text

section
variable {stop size} {room : Nat} {acc x : List α}

lemma cut_stop (room : Nat) (acc text : List α) :
    cut stop size room acc (stop :: text) = (acc ++ [stop]) :: pieces stop size text := by
  rw [cut, if_pos (.inl rfl), pieces]

lemma cut_append_stop (room : Nat) (acc x y : List α) :
    cut stop size room acc (x ++ stop :: y) =
      cut stop size room acc (x ++ [stop]) ++ pieces stop size y := by
  induction x generalizing room acc with
  | nil =>
    rw [nil_append, nil_append, cut_stop, cut_stop]
    rfl
  | cons c x ih =>
    rw [cons_append, cons_append, cut, cut]
    split
    · rw [ih, cons_append]
    · rw [ih]

lemma cut_line (hx : stop ∉ x) (hlen : x.length < room) :
    cut stop size room acc (x ++ [stop]) = [acc ++ x ++ [stop]] := by
  induction x generalizing room acc with
  | nil =>
    rw [nil_append, append_nil, cut_stop]
    rfl
  | cons c x ih =>
    obtain ⟨hc, hx⟩ := not_or.mp (mem_cons.not.mp hx)
    rw [length_cons] at hlen
    rw [cons_append, cut, if_neg (not_or.mpr ⟨Ne.symm hc, by omega⟩), ih hx (by omega)]
    simp

lemma cut_line_full (hx : stop ∉ x) (hne : x ≠ []) (hlen : x.length = room) :
    cut stop size room acc (x ++ [stop]) = [acc ++ x, [stop]] := by
  induction x generalizing room acc with
  | nil => exact absurd rfl hne
  | cons c x ih =>
    obtain ⟨hc, hx⟩ := not_or.mp (mem_cons.not.mp hx)
    rw [length_cons] at hlen
    by_cases hnil : x = []
    · subst hnil
      rw [cons_append, cut, if_pos (.inr (by rw [← hlen]; simp)), nil_append, cut_stop]
      rfl
    · have hpos := length_pos_iff.mpr hnil
      rw [cons_append, cut, if_neg (not_or.mpr ⟨Ne.symm hc, by omega⟩), ih hx hnil (by omega)]
      simp

lemma length_le_of_mem_cut (hsize : 0 < size) (hroom : 0 < room)
    (hacc : acc.length + room ≤ size) {text piece : List α}
    (h : piece ∈ cut stop size room acc text) : piece.length ≤ size := by
  induction text generalizing room acc with
  | nil =>
    rw [cut] at h
    split at h
    · cases h
    · rw [mem_singleton.mp h]
      omega
  | cons c text ih =>
    rw [cut] at h
    split at h
    · rcases mem_cons.mp h with rfl | h
      · rw [length_append, length_singleton]
        omega
      · exact ih hsize (by simp) h
    · next hc =>
      obtain ⟨-, hmore⟩ := not_or.mp hc
      refine ih (by omega) ?_ h
      rw [length_append, length_singleton]
      omega

end

end Pieces
