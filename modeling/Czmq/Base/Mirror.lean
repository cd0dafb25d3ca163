import Mathlib.Data.List.Basic
import Mathlib.Tactic.Common

/-! Two replicas of a map that tell each other of their changes by queues, seen at one key. -/

namespace Mirror

section
variable {κ ν : Type} [DecidableEq κ]

def valuesOf (k : κ) (xs : List (κ × ν)) : List ν :=
  xs.filterMap fun x => if x.1 = k then some x.2 else none

lemma valuesOf_cons (k : κ) (x : κ × ν) (xs : List (κ × ν)) :
    valuesOf k (x :: xs) = if k = x.1 then x.2 :: valuesOf k xs else valuesOf k xs := by
  by_cases h : k = x.1
  · simp [valuesOf, h]
  · simp [valuesOf, h, Ne.symm h]

lemma valuesOf_concat (k : κ) (x : κ × ν) (xs : List (κ × ν)) :
    valuesOf k (xs ++ [x]) = if k = x.1 then valuesOf k xs ++ [x.2] else valuesOf k xs := by
  rw [valuesOf, List.filterMap_append, ← valuesOf, ← valuesOf, valuesOf_cons]
  split
  · rfl
  · exact List.append_nil _

variable {xs : List (κ × ν)}

lemma mem_valuesOf {k : κ} {v : ν} : v ∈ valuesOf k xs ↔ (k, v) ∈ xs := by
  rw [valuesOf, List.mem_filterMap]
  constructor
  · rintro ⟨⟨k', v'⟩, hmem, heq⟩
    split at heq
    · next hk =>
      cases heq
      exact hk ▸ hmem
    · cases heq
  · intro hmem
    exact ⟨(k, v), hmem, if_pos rfl⟩

def Lists (xs : List (κ × ν)) (t : κ → Option ν) : Prop := ∀ k, valuesOf k xs = (t k).toList

lemma Lists.getLast? {t : κ → Option ν} (h : Lists xs t) (k : κ) :
    (valuesOf k xs).getLast? = t k := by
  rw [h k]
  cases t k <;> rfl

lemma Lists.mem_iff {t : κ → Option ν} (h : Lists xs t) {k : κ} {v : ν} :
    (k, v) ∈ xs ↔ t k = some v := by
  rw [← mem_valuesOf, h k, Option.mem_toList]

end

section
variable {ν : Type} {x y : Option ν} {up down : List ν} {v : ν}

/-- One key on both sides: a side holds what it sent last, and with nothing under way both hold the
same. -/
structure Mirrored (x : Option ν) (up : List ν) (y : Option ν) (down : List ν) : Prop where
  left : ∀ v ∈ up.getLast?, x = some v
  right : ∀ v ∈ down.getLast?, y = some v
  rest : up = [] → down = [] → x = y

lemma Mirrored.symm (h : Mirrored x up y down) : Mirrored y down x up :=
  ⟨h.right, h.left, fun hdown hup => (h.rest hup hdown).symm⟩

lemma Mirrored.of_sent (hup : up.getLast? = x) (hdown : down.getLast? = y) :
    Mirrored x up y down := by
  refine ⟨fun v hv => hup.symm.trans hv, fun v hv => hdown.symm.trans hv, ?_⟩
  rintro rfl rfl
  exact hup.symm.trans hdown

lemma Mirrored.write (h : Mirrored x up y down) (v : ν) : Mirrored (some v) (up ++ [v]) y down := by
  refine ⟨fun v' hv' => ?_, h.right, fun hnil => absurd hnil (List.concat_ne_nil _ _)⟩
  rw [List.getLast?_concat] at hv'
  exact hv'

lemma getLast?_cons_of_mem {v' : ν} (h : v' ∈ up.getLast?) : v' ∈ (v :: up).getLast? := by
  rw [List.getLast?_cons, Option.mem_def.mp h]
  rfl

end

end Mirror
