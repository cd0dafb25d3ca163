import Czmq.Zmsg.Codec

/-! `zmsg_save` and `zmsg_load`. `fwrite` and `fread` are called for one item of the size of the
data and answer the items moved: none, if the size is zero. -/

namespace Czmq

open List Bytes

namespace Stdio

/-- `fwrite (data, size, 1, file)` on a file that takes all that is written. -/
def fwrite (data : List UInt8) (file : List UInt8) : Nat × List UInt8 :=
  if data.length = 0 then (0, file) else (1, file ++ data)

/-- `fread (_, size, 1, file)` on `rest`: the items read, their bytes, and what remains. -/
def fread (size : Nat) (rest : List UInt8) : Nat × List UInt8 × List UInt8 :=
  if size = 0 then (0, [], rest)
  else if size ≤ rest.length then (1, rest.take size, rest.drop size)
  else (0, rest, [])

lemma fread_append {data : List UInt8} (h : data ≠ []) (rest : List UInt8) :
    fread data.length (data ++ rest) = (1, data, rest) := by
  have hne : data.length ≠ 0 := fun h0 => h (eq_nil_of_length_eq_zero h0)
  rw [fread, if_neg hne, if_pos (by simp), take_left, drop_left]

end Stdio

namespace Zmsg

open Stdio

def saveFrames : List (List UInt8) → List UInt8 → Int × List UInt8
  | [], file => (0, file)
  | frame :: frames, file =>
    let (items, file) := fwrite (toLittle 8 frame.length) file
    if items ≠ 1 then (-1, file)
    else
      let (items, file) := fwrite frame file
      if items ≠ 1 then (-1, file) else saveFrames frames file

def save (self : Zmsg) : Int × List UInt8 := saveFrames self.frames []

/-- One round of `zmsg_load`, on what is left of the file and the message. -/
def loadRound (alloc : Nat → Bool) (s : List UInt8 × Zmsg) :
    Except Fault ((List UInt8 × Zmsg) ⊕ Option Zmsg) :=
  let (items, size, rest) := fread 8 s.1
  if items = 1 then
    let frameSize := ofLittle size
    if frameSize = 0 ∨ alloc frameSize then
      let (items, data, rest) := fread frameSize rest
      if items = 1 ∧ frameSize > 0 then .ok (.inl (rest, s.2.append data)) else .ok (.inr none)
    -- `zframe_data` of no frame
    else .error .assertion
  else .ok (.inr (some s.2))

def loadFile (alloc : Nat → Bool) (file : List UInt8) : Except Fault (Option Zmsg) :=
  Loop.untilDone .endlessLoop (loadRound alloc) (file.length + 1) (file, new)

def saved (frames : List (List UInt8)) : List UInt8 :=
  frames.flatMap fun f => toLittle 8 f.length ++ f

lemma saved_cons (f : List UInt8) (fs : List (List UInt8)) :
    saved (f :: fs) = toLittle 8 f.length ++ (f ++ saved fs) := by
  rfl

lemma fwrite_toLittle (n : Nat) (file : List UInt8) :
    fwrite (toLittle 8 n) file = (1, file ++ toLittle 8 n) := by
  rw [fwrite, if_neg (by rw [length_toLittle]; decide)]

lemma saveFrames_of_ne {fs : List (List UInt8)} (h : ∀ f ∈ fs, f ≠ []) (file : List UInt8) :
    saveFrames fs file = (0, file ++ saved fs) := by
  induction fs generalizing file with
  | nil => simp [saveFrames, saved]
  | cons f fs ih =>
    have hf : f.length ≠ 0 := fun h0 => h f mem_cons_self (eq_nil_of_length_eq_zero h0)
    have hfwrite : ∀ file, fwrite f file = (1, file ++ f) := fun file => by rw [fwrite, if_neg hf]
    simp only [saveFrames, fwrite_toLittle, hfwrite, ne_eq, not_true_eq_false, if_false]
    rw [ih fun x hx => h x (mem_cons_of_mem _ hx), saved_cons]
    simp only [append_assoc]

lemma saveFrames_of_nil_mem {fs : List (List UInt8)} (h : [] ∈ fs) (file : List UInt8) :
    (saveFrames fs file).1 = -1 := by
  induction fs generalizing file with
  | nil => cases h
  | cons f fs ih =>
    by_cases hf : f = []
    · subst hf
      simp [saveFrames, fwrite]
    · have hmem : [] ∈ fs := (mem_cons.mp h).resolve_left (Ne.symm hf)
      simp only [saveFrames, fwrite_toLittle, ne_eq, not_true_eq_false, if_false]
      split
      · rfl
      · exact ih hmem _

section
variable {alloc : Nat → Bool} {self : Zmsg}

lemma loadRound_saved {f : List UInt8} (hne : f ≠ []) (hf : f.length < 2 ^ 64)
    (halloc : alloc f.length = true) (rest : List UInt8) :
    loadRound alloc (toLittle 8 f.length ++ (f ++ rest), self) = .ok (.inl (rest, self.append f)) := by
  have hpos : 0 < f.length := length_pos_iff.mpr hne
  have hsize : fread 8 (toLittle 8 f.length ++ (f ++ rest)) = (1, toLittle 8 f.length, f ++ rest) := by
    have hlittle : toLittle 8 f.length ≠ [] :=
      ne_nil_of_length_pos (by rw [length_toLittle]; decide)
    have hread := fread_append hlittle (f ++ rest)
    rwa [length_toLittle] at hread
  have hval : ofLittle (toLittle 8 f.length) = f.length := ofLittle_toLittle (by omega)
  simp only [loadRound, hsize, hval, halloc, fread_append hne, hpos, if_true,
    or_true, and_self]

lemma untilDone_saved {fs : List (List UInt8)} (hne : ∀ f ∈ fs, f ≠ [])
    (hlen : ∀ f ∈ fs, f.length < 2 ^ 64) (halloc : ∀ f ∈ fs, alloc f.length = true) {n : Nat}
    (hn : fs.length < n) :
    Loop.untilDone .endlessLoop (loadRound alloc) n (saved fs, self) =
      .ok (some (fs.foldl append self)) := by
  induction fs generalizing self n with
  | nil =>
    obtain ⟨k, rfl⟩ := Nat.exists_eq_add_of_le' hn
    exact Loop.untilDone_inr rfl k
  | cons f fs ih =>
    obtain ⟨k, rfl⟩ := Nat.exists_eq_add_of_le' (Nat.lt_of_le_of_lt (Nat.zero_le _) hn)
    rw [saved_cons, Loop.untilDone_inl (loadRound_saved (hne f mem_cons_self)
      (hlen f mem_cons_self) (halloc f mem_cons_self) (saved fs))]
    exact ih (fun x hx => hne x (mem_cons_of_mem _ hx))
      (fun x hx => hlen x (mem_cons_of_mem _ hx))
      (fun x hx => halloc x (mem_cons_of_mem _ hx)) (by rw [length_cons] at hn; omega)

end

lemma frames_length_le_saved (fs : List (List UInt8)) : fs.length ≤ (saved fs).length := by
  induction fs with
  | nil => exact Nat.le_refl _
  | cons f fs ih =>
    rw [saved_cons, length_append, length_append, length_cons, length_toLittle]
    omega

def SurvivesFile (alloc : Nat → Bool) (m : Zmsg) : Prop :=
  (save m).1 = 0 ∧ ∃ m', loadFile alloc (save m).2 = .ok (some m') ∧ m'.frames = m.frames

/-- A message survives its file exactly when none of its frames is empty. -/
theorem survivesFile_iff (alloc : Nat → Bool) (m : Zmsg) (hlen : ∀ f ∈ m.frames, f.length < 2 ^ 64)
    (halloc : ∀ f ∈ m.frames, alloc f.length = true) :
    SurvivesFile alloc m ↔ ∀ f ∈ m.frames, f ≠ [] := by
  constructor
  · rintro ⟨hsave, -⟩ f hf rfl
    rw [save, saveFrames_of_nil_mem hf] at hsave
    cases hsave
  · intro hne
    have hsave : save m = (0, saved m.frames) := saveFrames_of_ne hne []
    rw [SurvivesFile, hsave]
    refine ⟨rfl, m.frames.foldl append new, ?_, ?_⟩
    · have hrounds := frames_length_le_saved m.frames
      exact untilDone_saved hne hlen halloc (Nat.lt_succ_of_le hrounds)
    · rw [foldl_append_frames]
      rfl

theorem survivesFile_two : SurvivesFile (fun _ => true) ⟨[[1, 2], [3]], 3⟩ :=
  (survivesFile_iff (fun _ => true) ⟨[[1, 2], [3]], 3⟩ (by decide) (fun _ _ => rfl)).mpr (by decide)

/-- The message of one empty frame is not saved, although every write succeeds. -/
theorem not_survivesFile_empty :
    (save ⟨[[]], 0⟩).1 = -1 ∧ ¬ SurvivesFile (fun _ => true) ⟨[[]], 0⟩ :=
  ⟨by decide, fun h => absurd h.1 (by decide)⟩

end Zmsg

end Czmq
