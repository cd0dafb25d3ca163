import Czmq.Zdir.Tree

/-! What `zdir_new` sums up of a directory, and `zdir_flatten` as a function of it. -/

namespace Czmq

namespace Zdir

structure Signature where
  modified : Int
  cursize : Int
  count : Nat
  deriving DecidableEq

namespace Signature

def zero : Signature := ⟨0, 0, 0⟩

def addDir (self subdir : Signature) : Signature where
  modified := if self.modified < subdir.modified then subdir.modified else self.modified
  cursize := self.cursize + subdir.cursize
  count := self.count + subdir.count

def addFile (self : Signature) (file : Zfile) : Signature where
  modified := if self.modified < file.modified then file.modified else self.modified
  cursize := self.cursize + file.cursize
  count := self.count + 1

@[simp] lemma count_zero : zero.count = 0 := rfl

lemma count_addFiles (files : List Zfile) (self : Signature) :
    (files.foldl addFile self).count = self.count + files.length := by
  induction files generalizing self with
  | nil => rfl
  | cons file files ih =>
    have hstep : (self.addFile file).count = self.count + 1 := rfl
    rw [List.foldl_cons, ih, List.length_cons]
    omega

lemma count_addDirs (subdirs : List Signature) (self : Signature) :
    (subdirs.foldl addDir self).count = self.count + (subdirs.map count).sum := by
  induction subdirs generalizing self with
  | nil => rfl
  | cons subdir subdirs ih =>
    have hstep : (self.addDir subdir).count = self.count + subdir.count := rfl
    rw [List.foldl_cons, ih, List.map_cons, List.sum_cons]
    omega

end Signature

def signatures : Zdir → List Signature
  | .nil => []
  | .node a subdirs next =>
    a.files.foldl Signature.addFile ((signatures subdirs).foldl Signature.addDir .zero) ::
      signatures next

def signature (x : Directory × Zdir) : Signature :=
  x.1.files.foldl Signature.addFile ((signatures x.2).foldl Signature.addDir .zero)

lemma sum_count_signatures (f : Zdir) :
    ((signatures f).map Signature.count).sum = (allFiles f).length := by
  induction f with
  | nil => rfl
  | node a subdirs next ihs ihn =>
    rw [signatures, List.map_cons, List.sum_cons, Signature.count_addFiles,
      Signature.count_addDirs, allFiles, List.length_append, List.length_append,
      Signature.count_zero]
    omega

lemma count_signature (x : Directory × Zdir) : (signature x).count = (filesOf x).length := by
  rw [signature, Signature.count_addFiles, Signature.count_addDirs, sum_count_signatures, filesOf,
    List.length_append, Signature.count_zero]
  omega

/-- `zdir_flatten` with as many rounds as its sorts need: the files in some order. -/
structure Flattening where
  files : Directory × Zdir → List Zfile
  perm : ∀ x, (files x).Perm (filesOf x)

def Flattening.list (flat : Flattening) (x : Directory × Zdir) : Except Fault (List (Option Zfile)) :=
  if x.1.count ≤ intMax then .ok ((flat.files x).map some ++ [none]) else .error .overflow

theorem exists_flattening {shrink : Nat → Nat} (hshrink : Comb.Shrinks shrink) :
    ∃ flat : Flattening, ∀ x, x.1.count = (signature x).count → ∃ rounds, ∀ n, rounds ≤ n →
      flatten shrink n (tree x) = flat.list x := by
  have hspec : ∀ x : Directory × Zdir, ∃ fs : List Zfile, fs.Perm (filesOf x) ∧
      (x.1.count = (signature x).count → ∃ rounds, ∀ n, rounds ≤ n → flatten shrink n (tree x) =
        if x.1.count ≤ intMax then .ok (fs.map some ++ [none]) else .error .overflow) := by
    intro x
    by_cases hcount : x.1.count = (signature x).count
    · obtain ⟨fs, hperm, -, hflat⟩ := flatten_perm hshrink (hcount.trans (count_signature x))
      exact ⟨fs, hperm, fun _ => hflat⟩
    · exact ⟨filesOf x, .refl _, fun h => absurd h hcount⟩
  choose files hperm hflat using hspec
  exact ⟨⟨files, hperm⟩, hflat⟩

theorem exists_flattening_half : ∃ flat : Flattening, ∀ x, x.1.count = (signature x).count →
    ∃ rounds, ∀ n, rounds ≤ n → flatten (· / 2) n (tree x) = flat.list x :=
  exists_flattening fun g hg => by omega

end Zdir

end Czmq
