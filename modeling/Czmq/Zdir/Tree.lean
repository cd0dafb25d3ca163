import Czmq.Base.Forest
import Czmq.Base.Merge
import Czmq.Zlist.Sorted
import Czmq.Zsys

/-! The directory trees of `zdir.c` and `zdir_flatten`, which writes the files of a tree to an array
in the order of their names. -/

namespace Czmq

open List

namespace Zdir

def slash : UInt8 := 47

/-- `zfile_t`: the name, and what was known of the file when last looked at. -/
structure Zfile where
  fullname : List UInt8
  modified : Int
  cursize : Int
  stable : Bool
  deriving DecidableEq, Inhabited

def Zfile.dup (self : Zfile) : Zfile := { self with stable := false }

def Zfile.filename (self : Zfile) (path : List UInt8) : List UInt8 :=
  if path.isPrefixOf self.fullname then (self.fullname.drop path.length).dropWhile (· == slash)
  else self.fullname

structure Directory where
  path : List UInt8
  files : List Zfile
  count : Nat
  deriving DecidableEq

end Zdir

open Zdir

/-- `zdir_t *`: a directory with its subdirectories and those behind it, or `NULL`. -/
abbrev Zdir := Forest Directory

namespace Zdir

def fileCompare (a b : Zfile) : Int := Bytes.strcmp a.fullname b.fullname

abbrev Files := List (Option Zfile) × Nat

def store (s : Files) (file : Zfile) : Except Fault Files :=
  if s.2 < s.1.length then
    if s.2 < intMax then .ok (s.1.set s.2 (some file), s.2 + 1) else .error .overflow
  else .error (.outOfBounds s.2)

def siblings : Zdir → List (Directory × Zdir)
  | .nil => []
  | .node a subdirs next => (a, subdirs) :: siblings next

def dirCompare (a b : Directory × Zdir) : Int := Bytes.strcmp a.1.path b.1.path

instance : Inhabited Directory := ⟨⟨[], [], 0⟩⟩

instance : Inhabited Zdir := ⟨.nil⟩

section
variable (shrink : Nat → Nat) (rounds : Nat)

def dirFlatten : Nat → Files → Directory × Zdir → Except Fault Files
  | 0, _, _ => .error .endlessLoop
  | depth + 1, s, (self, subdirs) => do
    let files ← Zlist.sortedItems fileCompare shrink rounds self.files
    let s ← files.foldlM store s
    let subdirs ← Zlist.sortedItems dirCompare shrink rounds (siblings subdirs)
    subdirs.foldlM (dirFlatten depth) s

/-- `zdir_flatten`, with bounds on sort rounds and levels. It reads the count of a `NULL` too. -/
def flatten : Zdir → Except Fault (List (Option Zfile))
  | .nil => .error (.outOfBounds 0)
  | .node a subdirs _ => do
    let (files, _) ← dirFlatten shrink rounds rounds (List.replicate (a.count + 1) none, 0) (a, subdirs)
    -- `zlist_append` takes no `NULL`, and `zlist_pop` gives it when the list is empty
    let sorted ← Zlist.sortedItems fileCompare shrink rounds
      ((files.take a.count).filterMap fun file => file)
    pure ((List.range a.count).map (fun i => sorted[i]?) ++ files.drop a.count)

end

def allFiles : Zdir → List Zfile
  | .nil => []
  | .node a subdirs next => a.files ++ allFiles subdirs ++ allFiles next

def filesOf (x : Directory × Zdir) : List Zfile := x.1.files ++ allFiles x.2

lemma allFiles_eq (f : Zdir) : allFiles f = (siblings f).flatMap filesOf := by
  induction f with
  | nil => rfl
  | node a subdirs next _ ih => rw [allFiles, siblings, flatMap_cons, ih, filesOf]

def name (file : Zfile) : List Nat := Bytes.codes file.fullname

lemma totalPreorder_strcmp {α : Type} (key : α → List UInt8) (xs : List α) :
    Comb.TotalPreorder (Zlist.above fun a b => Bytes.strcmp (key a) (key b)) xs := by
  have hgt : ∀ a b, Zlist.above (fun a b => Bytes.strcmp (key a) (key b)) a b = true ↔
      (Bytes.codes ∘ key) b < (Bytes.codes ∘ key) a := by
    intro a b
    rw [Zlist.above, decide_eq_true_eq]
    exact Bytes.strcmp_pos_iff
  exact Comb.totalPreorder_of_key hgt xs

lemma totalPreorder_fileCompare (files : List Zfile) :
    Comb.TotalPreorder (Zlist.above fileCompare) files := totalPreorder_strcmp Zfile.fullname files

lemma totalPreorder_dirCompare (dirs : List (Directory × Zdir)) :
    Comb.TotalPreorder (Zlist.above dirCompare) dirs :=
  totalPreorder_strcmp (fun x : Directory × Zdir => x.1.path) dirs

/-- With enough rounds and levels, the files of a directory are stored in some order. -/
def Stores (shrink : Nat → Nat) (x : Directory × Zdir) : Prop :=
  ∃ fs : List Zfile, fs.Perm (filesOf x) ∧ ∃ bound, ∀ rounds depth, bound ≤ rounds → bound ≤ depth →
    ∀ s, dirFlatten shrink rounds depth s x = fs.foldlM store s

lemma stores_each {shrink : Nat → Nat} {dirs : List (Directory × Zdir)} (h : ∀ x ∈ dirs, Stores shrink x) :
    ∃ fs : List Zfile, fs.Perm (dirs.flatMap filesOf) ∧ ∃ bound, ∀ rounds depth, bound ≤ rounds →
      bound ≤ depth → ∀ s, dirs.foldlM (dirFlatten shrink rounds depth) s = fs.foldlM store s := by
  induction dirs with
  | nil => exact ⟨[], .refl _, 0, fun _ _ _ _ _ => rfl⟩
  | cons x dirs ih =>
    rw [forall_mem_cons] at h
    obtain ⟨fs, hfs, bound, hx⟩ := h.1
    obtain ⟨gs, hgs, bound', hdirs⟩ := ih h.2
    refine ⟨fs ++ gs, hfs.append hgs, max bound bound', fun rounds depth hr hd s => ?_⟩
    rw [foldlM_cons, foldlM_append,
      hx rounds depth (le_of_max_le_left hr) (le_of_max_le_left hd) s]
    exact bind_congr fun s' =>
      hdirs rounds depth (le_of_max_le_right hr) (le_of_max_le_right hd) s'

section
variable {shrink : Nat → Nat} (hshrink : ∀ g, 1 < g → 1 ≤ shrink g ∧ shrink g < g)
include hshrink

lemma stores_node (a : Directory) {subdirs : Zdir} (h : ∀ x ∈ siblings subdirs, Stores shrink x) :
    Stores shrink (a, subdirs) := by
  obtain ⟨files, hfiles, -, bound, hsort⟩ :=
    Zlist.sortedItems_spec (totalPreorder_fileCompare a.files) hshrink
  obtain ⟨dirs, hdirs, -, bound', hsort'⟩ :=
    Zlist.sortedItems_spec (totalPreorder_dirCompare (siblings subdirs)) hshrink
  obtain ⟨fs, hfs, bound'', heach⟩ := stores_each fun x hx => h x (hdirs.mem_iff.mp hx)
  refine ⟨files ++ fs, ?_, max bound (max bound' bound'') + 1, fun rounds depth hr hd s => ?_⟩
  · rw [filesOf, allFiles_eq]
    exact hfiles.append (hfs.trans (hdirs.flatMap_right _))
  · obtain ⟨depth, rfl⟩ := Nat.exists_eq_add_of_le' (Nat.one_le_of_lt hd)
    rw [dirFlatten, hsort rounds (by omega), ok_bind, foldlM_append]
    refine bind_congr fun s' => ?_
    rw [hsort' rounds (by omega), ok_bind, heach rounds depth (by omega) (by omega)]

lemma stores_all (f : Zdir) : ∀ x ∈ siblings f, Stores shrink x := by
  induction f with
  | nil => exact fun x hx => absurd hx not_mem_nil
  | node a subdirs next ihs ihn =>
    exact forall_mem_cons.mpr ⟨stores_node hshrink a ihs, ihn⟩

omit hshrink in
lemma foldlM_store {fs : List Zfile} {files : List (Option Zfile)} {index : Nat}
    (hroom : index + fs.length ≤ files.length) (hindex : index ≤ intMax) :
    fs.foldlM store (files, index) = if index + fs.length ≤ intMax then
      .ok (files.take index ++ fs.map some ++ files.drop (index + fs.length), index + fs.length)
    else .error .overflow := by
  induction fs generalizing files index with
  | nil =>
    rw [foldlM_nil, length_nil, Nat.add_zero, if_pos hindex, map_nil, append_nil,
      take_append_drop]
    rfl
  | cons f fs ih =>
    rw [length_cons] at hroom
    have hlt : index < files.length := by omega
    rw [foldlM_cons, store, if_pos hlt]
    by_cases hint : index < intMax
    · have hroom' : index + 1 + fs.length ≤ (files.set index (some f)).length := by
        rw [length_set]
        omega
      rw [if_pos hint, ok_bind, ih hroom' hint]
      have htake : (files.set index (some f)).take (index + 1) = files.take index ++ [some f] := by
        rw [take_add_one, take_set_of_le (Nat.le_refl _), getElem?_set_self hlt]
        rfl
      rw [htake, drop_set_of_lt (by omega), length_cons,
        show index + 1 + fs.length = index + (fs.length + 1) by omega, map_cons,
        append_assoc (files.take index)]
      rfl
    · rw [if_neg hint, error_bind, if_neg (by rw [length_cons]; omega)]

def tree (x : Directory × Zdir) : Zdir := .node x.1 x.2 .nil

omit hshrink in
lemma ascending_of_chain {files : List Zfile} (h : files.IsChain fun x y => fileCompare x y ≤ 0)
    (hdistinct : (files.map Zfile.fullname).Nodup) : Merge.Ascending name files := by
  have hle : files.IsChain fun x y => name x ≤ name y := by
    refine h.imp fun x y hxy => ?_
    rw [← not_lt, name, name, ← Bytes.strcmp_pos_iff]
    exact not_lt.mpr hxy
  have hpair : (files.map name).Pairwise (· ≤ ·) := ((isChain_map name).mpr hle).pairwise
  rw [pairwise_map] at hpair
  have hne : files.Pairwise fun x y => x.fullname ≠ y.fullname := pairwise_map.mp hdistinct
  exact (hpair.and hne).imp fun h => lt_of_le_of_ne h.1 fun heq => h.2 (Bytes.codes_injective heq)

lemma flatten_perm {x : Directory × Zdir} (hcount : x.1.count = (filesOf x).length) :
    ∃ fs : List Zfile, fs.Perm (filesOf x) ∧ (fs.IsChain fun a b => fileCompare a b ≤ 0) ∧
      ∃ rounds, ∀ n, rounds ≤ n → flatten shrink n (tree x) =
        if x.1.count ≤ intMax then .ok (fs.map some ++ [none]) else .error .overflow := by
  obtain ⟨a, subdirs⟩ := x
  obtain ⟨stored, hstored, bound, hflat⟩ := stores_all hshrink (tree (a, subdirs)) _ mem_cons_self
  obtain ⟨fs, hfs, hchain, bound', hsort⟩ :=
    Zlist.sortedItems_spec (totalPreorder_fileCompare stored) hshrink
  have hlen : stored.length = a.count := hstored.length_eq.trans hcount.symm
  have hlen' : fs.length = a.count := hfs.length_eq.trans hlen
  refine ⟨fs, hfs.trans hstored, hchain, max bound bound', fun n hn => ?_⟩
  have hroom : 0 + stored.length ≤ (List.replicate (a.count + 1) (none : Option Zfile)).length := by
    rw [length_replicate]
    omega
  rw [tree, flatten, hflat n n (le_of_max_le_left hn) (le_of_max_le_left hn),
    foldlM_store hroom (Nat.zero_le _), Nat.zero_add, hlen]
  by_cases hint : a.count ≤ intMax
  · rw [if_pos hint, if_pos hint, ok_bind]
    have hlength : (stored.map some).length = a.count := by rw [length_map, hlen]
    have hread : (List.range a.count).map (fun i => fs[i]?) = fs.map some := by
      refine ext_getElem? fun i => ?_
      rw [getElem?_map, ← hlen']
      by_cases hi : i < fs.length
      ·
        simp [hi]
      · rw [getElem?_eq_none (by simpa using hi), getElem?_eq_none (by simpa using hi)]
        rfl
    have hrest : (List.replicate (a.count + 1) (none : Option Zfile)).drop a.count = [none] := by
      rw [drop_replicate, Nat.add_sub_cancel_left, replicate_one]
    simp only [take_zero, nil_append]
    rw [take_left' hlength, drop_left' hlength, filterMap_map]
    simp only [Function.comp_def, filterMap_some]
    rw [hsort n (le_of_max_le_right hn), ok_bind, hread, hrest]
    rfl
  · rw [if_neg hint, if_neg hint, error_bind]

lemma flatten_spec {x : Directory × Zdir} (hcount : x.1.count = (filesOf x).length)
    (hdistinct : ((filesOf x).map Zfile.fullname).Nodup) :
    ∃ fs : List Zfile, fs.Perm (filesOf x) ∧ Merge.Ascending name fs ∧ ∃ rounds, ∀ n, rounds ≤ n →
      flatten shrink n (tree x) =
        if x.1.count ≤ intMax then .ok (fs.map some ++ [none]) else .error .overflow := by
  obtain ⟨fs, hperm, hchain, hflat⟩ := flatten_perm hshrink hcount
  exact ⟨fs, hperm, ascending_of_chain hchain ((hperm.map _).nodup_iff.mpr hdistinct), hflat⟩

end

end Zdir

end Czmq
