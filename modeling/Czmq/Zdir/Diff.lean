import Czmq.Zdir.Tree

/-! `zdir_diff` goes through the files of two trees side by side, in the order of their names. -/

namespace Czmq.Zdir

open List

inductive PatchOp where
  | create
  | delete
  deriving DecidableEq

structure Patch where
  path : List UInt8
  vpath : List UInt8
  file : Zfile
  op : PatchOp
  deriving DecidableEq

/-- `zdir_patch_new`, which takes the length of an alias that may be `NULL`. -/
def patchNew (path : List UInt8) (file : Zfile) (op : PatchOp) (aliasPath : Option (List UInt8)) :
    Except Fault Patch :=
  let filename := file.filename path
  if filename.head? = some slash then .error .assertion
  else
    match aliasPath with
    | none => .error (.outOfBounds 0)
    | some root =>
      let root := if root.getLast? = some slash then root else root ++ [slash]
      .ok ⟨path, root ++ filename, file.dup, op⟩

/-- The file at a pointer, which `zfile_is_stable` and the others assert. -/
def deref : Option Zfile → Except Fault Zfile
  | some file => .ok file
  | none => .error .assertion

def fileAt (files : List (Option Zfile)) (index : Int) : Except Fault (Option Zfile) :=
  if 0 ≤ index then
    match files[index.toNat]? with
    | some file => .ok file
    | none => .error (.outOfBounds index.toNat)
  else .error (.outOfBounds 0)

def increment (index : Int) : Except Fault Int :=
  if index < intMax then .ok (index + 1) else .error .overflow

def compareFiles : Option Zfile → Option Zfile → Int
  | none, _ => 1
  | some _, none => -1
  | some old, some new => fileCompare old new

def changeOf (cmp : Int) (oldFile newFile : Option Zfile) :
    Except Fault (Option (PatchOp × Zfile)) := do
  if 0 < cmp then
    let new ← deref newFile
    pure (if new.stable then some (.create, new) else none)
  else if cmp < 0 then
    let old ← deref oldFile
    pure (if old.stable then some (.delete, old) else none)
  else
    let new ← deref newFile
    if new.stable then
      let old ← deref oldFile
      if old.stable then
        pure (if new.modified ≠ old.modified ∨ new.cursize ≠ old.cursize then some (.create, new)
          else none)
      else pure (some (.create, new))
    else pure none

structure Cursors where
  oldIndex : Int
  newIndex : Int
  patches : List Patch

section
variable (oldPath newPath : List UInt8) (aliasPath : Option (List UInt8))

def patchOf (change : PatchOp × Zfile) : Except Fault Patch :=
  match change.1 with
  | .create => patchNew newPath change.2 .create aliasPath
  | .delete => patchNew oldPath change.2 .delete aliasPath

/-- The loop of `zdir_diff`: one guard test, and a round if it succeeds. -/
def diffRound (oldFiles newFiles : List (Option Zfile)) (s : Cursors) :
    Except Fault (Cursors ⊕ List Patch) := do
  let oldFile ← fileAt oldFiles s.oldIndex
  let newFile ← fileAt newFiles s.newIndex
  if oldFile = none ∧ newFile = none then pure (.inr s.patches)
  else
    let cmp := compareFiles oldFile newFile
    let change ← changeOf cmp oldFile newFile
    let added ← change.toList.mapM (patchOf oldPath newPath aliasPath)
    let oldIndex ← increment (if 0 < cmp then s.oldIndex - 1 else s.oldIndex)
    let newIndex ← increment (if cmp < 0 then s.newIndex - 1 else s.newIndex)
    pure (.inl ⟨oldIndex, newIndex, s.patches ++ added⟩)

end

def diff (shrink : Nat → Nat) (rounds : Nat) (older newer : Zdir) (aliasPath : Option (List UInt8)) :
    Except Fault (List Patch) := do
  let oldFiles ← flatten shrink rounds older
  let newFiles ← flatten shrink rounds newer
  match older, newer with
  | .node old _ _, .node new _ _ =>
    Loop.untilDone .endlessLoop (diffRound old.path new.path aliasPath oldFiles newFiles) rounds ⟨0, 0, []⟩
  | _, _ => .error (.outOfBounds 0)

/-! ## The loop as a merge -/

def deleted (old : Zfile) : Option (PatchOp × Zfile) :=
  if old.stable then some (.delete, old) else none

def created (new : Zfile) : Option (PatchOp × Zfile) :=
  if new.stable then some (.create, new) else none

def changed (old new : Zfile) : Option (PatchOp × Zfile) :=
  if new.stable ∧ (old.stable → new.modified ≠ old.modified ∨ new.cursize ≠ old.cursize) then
    some (.create, new)
  else none

def changes (old new : List Zfile) : List (PatchOp × Zfile) :=
  Merge.merge name deleted created changed old new

def arrayOf (files : List Zfile) : List (Option Zfile) := files.map some ++ [none]

lemma fileAt_append (pre xs : List Zfile) :
    fileAt (arrayOf (pre ++ xs)) pre.length = .ok xs.head? := by
  rw [fileAt, Int.toNat_natCast, arrayOf, map_append,
    append_assoc, getElem?_append_right (by simp), length_map, Nat.sub_self]
  cases xs <;> rfl

lemma increment_natCast {n : Nat} (h : n < intMax) : increment n = .ok ((n + 1 : Nat) : Int) := by
  rw [increment, if_pos (by exact_mod_cast h)]
  rfl

lemma increment_natCast_sub_one {n : Nat} (h : n ≤ intMax) : increment ((n : Int) - 1) = .ok n := by
  rw [increment, if_pos (by omega), Int.sub_add_cancel]

section
variable {oldPath newPath : List UInt8} {aliasPath : Option (List UInt8)}

lemma diffRound_eq {pre xs pre' ys : List Zfile} (h : ¬(xs.head? = none ∧ ys.head? = none))
    (ps : List Patch) :
    diffRound oldPath newPath aliasPath (arrayOf (pre ++ xs)) (arrayOf (pre' ++ ys))
        ⟨pre.length, pre'.length, ps⟩ = (do
      let cmp := compareFiles xs.head? ys.head?
      let change ← changeOf cmp xs.head? ys.head?
      let added ← change.toList.mapM (patchOf oldPath newPath aliasPath)
      let oldIndex ← increment (if 0 < cmp then (pre.length : Int) - 1 else pre.length)
      let newIndex ← increment (if cmp < 0 then (pre'.length : Int) - 1 else pre'.length)
      pure (.inl ⟨oldIndex, newIndex, ps ++ added⟩)) := by
  rw [diffRound, fileAt_append, fileAt_append, ok_bind, ok_bind, if_neg h]

section
variable {pre xs pre' ys : List Zfile} {x y : Zfile}

lemma diffRound_old (hcmp : compareFiles (some x) ys.head? < 0) (hpre : pre.length < intMax)
    (hpre' : pre'.length ≤ intMax) (ps : List Patch) :
    diffRound oldPath newPath aliasPath (arrayOf (pre ++ x :: xs)) (arrayOf (pre' ++ ys))
        ⟨pre.length, pre'.length, ps⟩ =
      (deleted x).toList.mapM (patchOf oldPath newPath aliasPath) >>= fun added =>
        .ok (.inl ⟨(pre ++ [x]).length, pre'.length, ps ++ added⟩) := by
  have hchange : changeOf (compareFiles (some x) ys.head?) (some x) ys.head? = .ok (deleted x) := by
    rw [changeOf, if_neg (by omega), if_pos hcmp]
    rfl
  rw [diffRound_eq (by simp), head?_cons]
  simp only
  rw [hchange, if_neg (by omega), if_pos hcmp, increment_natCast hpre,
    increment_natCast_sub_one hpre', length_append]
  rfl

lemma diffRound_new (hcmp : 0 < compareFiles xs.head? (some y)) (hpre : pre.length ≤ intMax)
    (hpre' : pre'.length < intMax) (ps : List Patch) :
    diffRound oldPath newPath aliasPath (arrayOf (pre ++ xs)) (arrayOf (pre' ++ y :: ys))
        ⟨pre.length, pre'.length, ps⟩ =
      (created y).toList.mapM (patchOf oldPath newPath aliasPath) >>= fun added =>
        .ok (.inl ⟨pre.length, (pre' ++ [y]).length, ps ++ added⟩) := by
  have hchange : changeOf (compareFiles xs.head? (some y)) xs.head? (some y) = .ok (created y) := by
    rw [changeOf, if_pos hcmp]
    rfl
  rw [diffRound_eq (by simp), head?_cons]
  simp only
  rw [hchange, if_pos hcmp, if_neg (by omega), increment_natCast hpre',
    increment_natCast_sub_one hpre, length_append]
  rfl

lemma diffRound_both (hcmp : fileCompare x y = 0) (hpre : pre.length < intMax)
    (hpre' : pre'.length < intMax) (ps : List Patch) :
    diffRound oldPath newPath aliasPath (arrayOf (pre ++ x :: xs)) (arrayOf (pre' ++ y :: ys))
        ⟨pre.length, pre'.length, ps⟩ =
      (changed x y).toList.mapM (patchOf oldPath newPath aliasPath) >>= fun added =>
        .ok (.inl ⟨(pre ++ [x]).length, (pre' ++ [y]).length, ps ++ added⟩) := by
  have hchange : changeOf 0 (some x) (some y) = .ok (changed x y) := by
    rw [changeOf, changed]
    simp only [deref, ok_bind]
    cases y.stable <;> cases x.stable <;> simp <;> rfl
  rw [diffRound_eq (by simp), head?_cons, head?_cons, compareFiles, hcmp]
  simp only
  rw [hchange, if_neg (by omega), if_neg (by omega), increment_natCast hpre,
    increment_natCast hpre', length_append, length_append]
  rfl

end

lemma untilDone_round {oldFiles newFiles : List (Option Zfile)} {s : Cursors} {i j : Int}
    {changes changes' : List (PatchOp × Zfile)} {n : Nat}
    (hround : diffRound oldPath newPath aliasPath oldFiles newFiles s =
      changes.mapM (patchOf oldPath newPath aliasPath) >>= fun added =>
        .ok (.inl ⟨i, j, s.patches ++ added⟩))
    (hrest : ∀ ps, Loop.untilDone .endlessLoop (diffRound oldPath newPath aliasPath oldFiles newFiles) n
      ⟨i, j, ps⟩ = changes'.mapM (patchOf oldPath newPath aliasPath) >>= fun added =>
        .ok (ps ++ added)) :
    Loop.untilDone .endlessLoop (diffRound oldPath newPath aliasPath oldFiles newFiles) (n + 1) s =
      (changes ++ changes').mapM (patchOf oldPath newPath aliasPath) >>= fun added =>
        .ok (s.patches ++ added) := by
  rw [mapM_append]
  cases hps : changes.mapM (patchOf oldPath newPath aliasPath) with
  | error e =>
    rw [hps] at hround
    exact Loop.untilDone_error hround n
  | ok ps =>
    rw [hps] at hround
    rw [Loop.untilDone_inl hround, hrest, ok_bind, bind_assoc]
    refine bind_congr fun added => ?_
    rw [append_assoc]
    rfl

lemma diffLoop_eq {old new pre xs pre' ys : List Zfile} (hold : old.length ≤ intMax)
    (hnew : new.length ≤ intMax) (hx : old = pre ++ xs) (hy : new = pre' ++ ys) (ps : List Patch)
    {n : Nat} (hn : xs.length + ys.length < n) :
    Loop.untilDone .endlessLoop (diffRound oldPath newPath aliasPath (arrayOf old) (arrayOf new)) n
        ⟨pre.length, pre'.length, ps⟩ =
      (changes xs ys).mapM (patchOf oldPath newPath aliasPath) >>= fun added =>
        .ok (ps ++ added) := by
  rw [changes]
  fun_induction Merge.merge name deleted created changed xs ys generalizing pre pre' ps n with
  | case1 =>
    obtain ⟨n, rfl⟩ := Nat.exists_eq_add_of_le' (Nat.one_le_of_lt hn)
    have hend : diffRound oldPath newPath aliasPath (arrayOf old) (arrayOf new)
        ⟨pre.length, pre'.length, ps⟩ = .ok (.inr ps) := by
      rw [diffRound, hx, hy, fileAt_append, fileAt_append]
      rfl
    rw [Loop.untilDone_inr hend]
    simp
  | case2 x xs ih =>
    subst hx hy
    simp only [length_append, length_cons] at hold hnew hn
    obtain ⟨n, rfl⟩ := Nat.exists_eq_add_of_le' (Nat.one_le_of_lt hn)
    have hcmp : compareFiles (some x) ([] : List Zfile).head? < 0 := Int.negSucc_lt_zero 0
    refine untilDone_round (diffRound_old hcmp (by omega) (by omega) ps) fun ps => ?_
    exact ih (by simp) rfl ps (by omega)
  | case3 y ys ih =>
    subst hx hy
    simp only [length_append, length_cons] at hold hnew hn
    obtain ⟨n, rfl⟩ := Nat.exists_eq_add_of_le' (Nat.one_le_of_lt hn)
    have hcmp : 0 < compareFiles ([] : List Zfile).head? (some y) := Int.one_pos
    refine untilDone_round (diffRound_new hcmp (by omega) (by omega) ps) fun ps => ?_
    exact ih rfl (by simp) ps (by omega)
  | case4 x xs y ys hlt ih =>
    subst hx hy
    simp only [length_append, length_cons] at hold hnew hn
    obtain ⟨n, rfl⟩ := Nat.exists_eq_add_of_le' (Nat.one_le_of_lt hn)
    have hcmp : 0 < compareFiles (x :: xs).head? (some y) := Bytes.strcmp_pos_iff.mpr hlt
    refine untilDone_round (diffRound_new hcmp (by omega) (by omega) ps) fun ps => ?_
    exact ih rfl (by simp) ps (by simp only [length_cons]; omega)
  | case5 x xs y ys hlt hlt' ih =>
    subst hx hy
    simp only [length_append, length_cons] at hold hnew hn
    obtain ⟨n, rfl⟩ := Nat.exists_eq_add_of_le' (Nat.one_le_of_lt hn)
    have hcmp : compareFiles (some x) (y :: ys).head? < 0 := Bytes.strcmp_neg_iff.mpr hlt'
    refine untilDone_round (diffRound_old hcmp (by omega) (by omega) ps) fun ps => ?_
    exact ih (by simp) rfl ps (by simp only [length_cons]; omega)
  | case6 x xs y ys hlt hlt' ih =>
    subst hx hy
    simp only [length_append, length_cons] at hold hnew hn
    obtain ⟨n, rfl⟩ := Nat.exists_eq_add_of_le' (Nat.one_le_of_lt hn)
    have hcmp : fileCompare x y = 0 := by
      refine le_antisymm (not_lt.mp fun h => hlt ?_) (not_lt.mp fun h => hlt' ?_)
      · exact Bytes.strcmp_pos_iff.mp h
      · exact Bytes.strcmp_neg_iff.mp h
    refine untilDone_round (diffRound_both hcmp (by omega) (by omega) ps) fun ps => ?_
    exact ih (by simp) (by simp) ps (by omega)

end

/-! ## Exactness -/

/-- A tree with different names below its root, and with the right count. -/
structure Snapshot (x : Directory × Zdir) : Prop where
  distinct : ((filesOf x).map Zfile.fullname).Nodup
  below : ∀ file ∈ filesOf x, x.1.path ++ [slash] <+: file.fullname
  counted : x.1.count = (filesOf x).length

section
variable (older newer : Directory × Zdir)

/-- A stable file of the new tree that is none of the old one, or differs from it. -/
def Creates (fullname : List UInt8) : Prop :=
  ∃ new ∈ filesOf newer, new.fullname = fullname ∧ new.stable = true ∧
    ((¬∃ old ∈ filesOf older, old.fullname = fullname ∧ old.stable = true) ∨
      ∃ old ∈ filesOf older, old.fullname = fullname ∧
        (new.modified ≠ old.modified ∨ new.cursize ≠ old.cursize))

def Deletes (fullname : List UInt8) : Prop :=
  (∃ old ∈ filesOf older, old.fullname = fullname ∧ old.stable = true) ∧
    ∀ new ∈ filesOf newer, new.fullname ≠ fullname

structure Exact (patches : List Patch) : Prop where
  ordered : Merge.Ascending (fun patch => name patch.file) patches
  creates : ∀ fullname, (∃ patch ∈ patches, patch.op = .create ∧ patch.file.fullname = fullname) ↔
    Creates older newer fullname
  deletes : ∀ fullname, (∃ patch ∈ patches, patch.op = .delete ∧ patch.file.fullname = fullname) ↔
    Deletes older newer fullname

end

variable {c : PatchOp × Zfile}

lemma mem_changes_iff {xs ys : List Zfile} (hxs : Merge.Ascending name xs)
    (hys : Merge.Ascending name ys) :
    c ∈ changes xs ys ↔ (∃ x ∈ xs, (∀ y ∈ ys, y.fullname ≠ x.fullname) ∧ deleted x = some c) ∨
      (∃ y ∈ ys, (∀ x ∈ xs, x.fullname ≠ y.fullname) ∧ created y = some c) ∨
      ∃ x ∈ xs, ∃ y ∈ ys, x.fullname = y.fullname ∧ changed x y = some c := by
  have hname : ∀ x y, name x = name y ↔ x.fullname = y.fullname :=
    fun x y => Bytes.codes_injective.eq_iff
  rw [changes, Merge.mem_merge_iff hxs hys]
  simp only [ne_eq, hname]

lemma deleted_eq_some_iff {x : Zfile} :
    deleted x = some c ↔ x.stable = true ∧ (.delete, x) = c := by
  rw [deleted, Option.ite_none_right_eq_some, Option.some_inj]

lemma created_eq_some_iff {y : Zfile} :
    created y = some c ↔ y.stable = true ∧ (.create, y) = c := by
  rw [created, Option.ite_none_right_eq_some, Option.some_inj]

lemma changed_eq_some_iff {x y : Zfile} :
    changed x y = some c ↔ (y.stable = true ∧
      (x.stable = true → y.modified ≠ x.modified ∨ y.cursize ≠ x.cursize)) ∧ (.create, y) = c := by
  rw [changed, Option.ite_none_right_eq_some, Option.some_inj]

/-- A change that `zdir_diff` reports is of a file in its tree. -/
def Reported (older newer : Directory × Zdir) (c : PatchOp × Zfile) : Prop :=
  match c.1 with
  | .create => c.2 ∈ filesOf newer
  | .delete => c.2 ∈ filesOf older

section
variable {older newer : Directory × Zdir} {xs ys : List Zfile} (hx : xs.Perm (filesOf older))
  (hy : ys.Perm (filesOf newer)) (hxs : Merge.Ascending name xs) (hys : Merge.Ascending name ys)
include hx hy hxs hys

lemma reported_of_mem_changes (h : c ∈ changes xs ys) : Reported older newer c := by
  rw [mem_changes_iff hxs hys] at h
  rcases h with ⟨x, hmem, -, hc⟩ | ⟨y, hmem, -, hc⟩ | ⟨x, -, y, hmem, -, hc⟩
  · obtain ⟨-, rfl⟩ := deleted_eq_some_iff.mp hc
    exact hx.mem_iff.mp hmem
  · obtain ⟨-, rfl⟩ := created_eq_some_iff.mp hc
    exact hy.mem_iff.mp hmem
  · obtain ⟨-, rfl⟩ := changed_eq_some_iff.mp hc
    exact hy.mem_iff.mp hmem

lemma creates_iff (hdistinct : ((filesOf older).map Zfile.fullname).Nodup) (fullname : List UInt8) :
    (∃ c ∈ changes xs ys, c.1 = .create ∧ c.2.fullname = fullname) ↔ Creates older newer fullname := by
  have huniq := inj_on_of_nodup_map hdistinct
  simp only [Creates, ← hx.mem_iff, ← hy.mem_iff] at huniq ⊢
  constructor
  · rintro ⟨c, hmem, hop, hname⟩
    rw [mem_changes_iff hxs hys] at hmem
    rcases hmem with ⟨x, -, -, hc⟩ | ⟨y, hmem, halone, hc⟩ | ⟨x, hmem, y, hmem', heq, hc⟩
    · obtain ⟨-, rfl⟩ := deleted_eq_some_iff.mp hc
      cases hop
    · obtain ⟨hstable, rfl⟩ := created_eq_some_iff.mp hc
      refine ⟨y, hmem, hname, hstable, .inl ?_⟩
      rintro ⟨x, hx, hxname, -⟩
      exact halone x hx (hxname.trans hname.symm)
    · obtain ⟨⟨hstable, hdiff⟩, rfl⟩ := changed_eq_some_iff.mp hc
      refine ⟨y, hmem', hname, hstable, ?_⟩
      by_cases hold : x.stable = true
      · exact .inr ⟨x, hmem, heq.trans hname, hdiff hold⟩
      · refine .inl ?_
        -- another stable file of that name would be the same
        rintro ⟨x', hx', hxname, hold'⟩
        rw [huniq hx' hmem (hxname.trans (heq.trans hname).symm)] at hold'
        exact hold hold'
  · rintro ⟨y, hmem, hname, hstable, hdiff⟩
    refine ⟨(.create, y), (mem_changes_iff hxs hys).mpr (.inr ?_), rfl, hname⟩
    by_cases hpair : ∃ x ∈ xs, x.fullname = y.fullname
    · obtain ⟨x, hx, heq⟩ := hpair
      refine .inr ⟨x, hx, y, hmem, heq, changed_eq_some_iff.mpr ⟨⟨hstable, fun hold => ?_⟩, rfl⟩⟩
      rcases hdiff with hnone | ⟨x', hx', hxname, hdiff⟩
      · exact absurd ⟨x, hx, heq.trans hname, hold⟩ hnone
      · rwa [huniq hx' hx (hxname.trans (heq.trans hname).symm)] at hdiff
    · refine .inl ⟨y, hmem, fun x hx heq => hpair ⟨x, hx, heq⟩, ?_⟩
      exact created_eq_some_iff.mpr ⟨hstable, rfl⟩

lemma deletes_iff (fullname : List UInt8) :
    (∃ c ∈ changes xs ys, c.1 = .delete ∧ c.2.fullname = fullname) ↔ Deletes older newer fullname := by
  simp only [Deletes, ← hx.mem_iff, ← hy.mem_iff]
  constructor
  · rintro ⟨c, hmem, hop, hname⟩
    rw [mem_changes_iff hxs hys] at hmem
    rcases hmem with ⟨x, hmem, halone, hc⟩ | ⟨y, -, -, hc⟩ | ⟨x, -, y, -, -, hc⟩
    · obtain ⟨hstable, rfl⟩ := deleted_eq_some_iff.mp hc
      exact ⟨⟨x, hmem, hname, hstable⟩, fun y hy hyname => halone y hy (hyname.trans hname.symm)⟩
    · obtain ⟨-, rfl⟩ := created_eq_some_iff.mp hc
      cases hop
    · obtain ⟨-, rfl⟩ := changed_eq_some_iff.mp hc
      cases hop
  · rintro ⟨⟨x, hmem, hname, hstable⟩, halone⟩
    refine ⟨(.delete, x), (mem_changes_iff hxs hys).mpr (.inl ⟨x, hmem, ?_, ?_⟩), rfl, hname⟩
    · exact fun y hy heq => halone y hy (heq.trans hname)
    · exact deleted_eq_some_iff.mpr ⟨hstable, rfl⟩

omit hx hy in
lemma ascending_changes : Merge.Ascending (fun c => name c.2) (changes xs ys) := by
  refine Merge.ascending_merge ?_ ?_ ?_ hxs hys
  · intro x c hc
    obtain ⟨-, rfl⟩ := deleted_eq_some_iff.mp hc
    rfl
  · intro y c hc
    obtain ⟨-, rfl⟩ := created_eq_some_iff.mp hc
    rfl
  · intro x y c hc
    obtain ⟨-, rfl⟩ := changed_eq_some_iff.mp hc
    rfl

end

section
variable {older newer : Directory × Zdir} {aliasPath : Option (List UInt8)}

lemma patchNew_below {path : List UInt8} {file : Zfile} (h : path ++ [slash] <+: file.fullname)
    (op : PatchOp) (root : List UInt8) :
    ∃ p, patchNew path file op (some root) = .ok p ∧ (p.op, p.file) = (op, file.dup) := by
  have hpre : path.isPrefixOf file.fullname = true :=
    isPrefixOf_iff_prefix.mpr ((prefix_append path _).trans h)
  rw [patchNew, if_neg]
  · exact ⟨_, rfl, rfl⟩
  · rw [Zfile.filename, if_pos hpre]
    intro hhead
    have hnot := head?_dropWhile_not (· == slash) (file.fullname.drop path.length)
    rw [hhead] at hnot
    exact absurd hnot (by decide)

lemma patchNew_none (path : List UInt8) (file : Zfile) (op : PatchOp) (p : Patch) :
    patchNew path file op none ≠ .ok p := by
  rw [patchNew]
  split <;> nofun

lemma mapM_patchOf_eq_ok (hold : Snapshot older) (hnew : Snapshot newer)
    {cs : List (PatchOp × Zfile)} (hcs : ∀ c ∈ cs, Reported older newer c) (halias : aliasPath = none → cs = []) :
    ∃ ps, cs.mapM (patchOf older.1.path newer.1.path aliasPath) = .ok ps ∧
      ps.map (fun p => (p.op, p.file)) = cs.map fun c => (c.1, c.2.dup) := by
  induction cs with
  | nil => exact ⟨[], rfl, rfl⟩
  | cons c cs ih =>
    cases aliasPath with
    | none => cases halias rfl
    | some root =>
      rw [forall_mem_cons] at hcs
      obtain ⟨p, hp, hpc⟩ : ∃ p, patchOf older.1.path newer.1.path (some root) c = .ok p ∧
          (p.op, p.file) = (c.1, c.2.dup) := by
        obtain ⟨op, file⟩ := c
        cases op with
        | create => exact patchNew_below (hnew.below file hcs.1) .create root
        | delete => exact patchNew_below (hold.below file hcs.1) .delete root
      obtain ⟨ps, hps, hpcs⟩ := ih hcs.2 nofun
      refine ⟨p :: ps, ?_, by rw [map_cons, map_cons, hpc, hpcs]⟩
      rw [mapM_cons, hp, hps]
      rfl

lemma mapM_patchOf_none {oldPath newPath : List UInt8} {cs : List (PatchOp × Zfile)}
    {ps : List Patch} (h : cs.mapM (patchOf oldPath newPath none) = .ok ps) : cs = [] := by
  cases cs with
  | nil => rfl
  | cons c cs =>
    obtain ⟨p, hp, -⟩ := bind_eq_ok.mp h
    obtain ⟨op, file⟩ := c
    cases op with
    | create => exact absurd hp (patchNew_none newPath file .create p)
    | delete => exact absurd hp (patchNew_none oldPath file .delete p)

lemma diff_eq {shrink : Nat → Nat} (hshrink : Comb.Shrinks shrink)
    (hold : Snapshot older) (hnew : Snapshot newer) (aliasPath : Option (List UInt8)) :
    ∃ xs ys : List Zfile, xs.Perm (filesOf older) ∧ ys.Perm (filesOf newer) ∧
      Merge.Ascending name xs ∧ Merge.Ascending name ys ∧ ∃ rounds, ∀ n, rounds ≤ n →
        diff shrink n (tree older) (tree newer) aliasPath =
          if older.1.count ≤ intMax ∧ newer.1.count ≤ intMax then
            (changes xs ys).mapM (patchOf older.1.path newer.1.path aliasPath)
          else .error .overflow := by
  obtain ⟨xs, hx, hxs, bound, hflat⟩ := flatten_spec hshrink hold.counted hold.distinct
  obtain ⟨ys, hy, hys, bound', hflat'⟩ := flatten_spec hshrink hnew.counted hnew.distinct
  refine ⟨xs, ys, hx, hy, hxs, hys, max (max bound bound') (xs.length + ys.length + 1), fun n hn => ?_⟩
  rw [diff, hflat n (by omega), hflat' n (by omega)]
  by_cases hint : older.1.count ≤ intMax
  · by_cases hint' : newer.1.count ≤ intMax
    · have hlen : xs.length ≤ intMax := by rwa [hx.length_eq, ← hold.counted]
      have hlen' : ys.length ≤ intMax := by rwa [hy.length_eq, ← hnew.counted]
      have hloop : Loop.untilDone .endlessLoop
          (diffRound older.1.path newer.1.path aliasPath (arrayOf xs) (arrayOf ys)) n ⟨0, 0, []⟩ =
            (changes xs ys).mapM (patchOf older.1.path newer.1.path aliasPath) >>= fun added =>
              .ok ([] ++ added) :=
        diffLoop_eq hlen hlen' (nil_append xs).symm (nil_append ys).symm [] (by omega)
      rw [if_pos hint, if_pos hint', if_pos ⟨hint, hint'⟩]
      exact hloop.trans (bind_pure _)
    · rw [if_pos hint, if_neg hint', if_neg fun h => hint' h.2, ok_bind, error_bind]
  · rw [if_neg hint, error_bind, if_neg fun h => hint h.1]

lemma exact_of_map_eq {xs ys : List Zfile} (hx : xs.Perm (filesOf older))
    (hy : ys.Perm (filesOf newer)) (hxs : Merge.Ascending name xs) (hys : Merge.Ascending name ys)
    (hdistinct : ((filesOf older).map Zfile.fullname).Nodup) {ps : List Patch}
    (h : ps.map (fun p => (p.op, p.file)) = (changes xs ys).map fun c => (c.1, c.2.dup)) :
    Exact older newer ps := by
  have hmem : ∀ op fullname, (∃ p ∈ ps, p.op = op ∧ p.file.fullname = fullname) ↔
      ∃ c ∈ changes xs ys, c.1 = op ∧ c.2.fullname = fullname := by
    intro op fullname
    have hboth : (∃ c ∈ ps.map (fun p => (p.op, p.file)), c.1 = op ∧ c.2.fullname = fullname) ↔
        ∃ c ∈ (changes xs ys).map fun c => (c.1, c.2.dup), c.1 = op ∧ c.2.fullname = fullname := by
      rw [h]
    simp only [mem_map, exists_exists_and_eq_and] at hboth
    exact hboth
  refine ⟨?_, fun fullname => ?_, fun fullname => ?_⟩
  · have hpair : (ps.map fun p => (p.op, p.file)).Pairwise fun c c' => name c.2 < name c'.2 := by
      rw [h, pairwise_map]
      exact ascending_changes hxs hys
    rwa [pairwise_map] at hpair
  · rw [hmem]
    exact creates_iff hx hy hxs hys hdistinct fullname
  · rw [hmem]
    exact deletes_iff hx hy hxs hys fullname

section
variable {shrink : Nat → Nat} (hshrink : ∀ g, 1 < g → 1 ≤ shrink g ∧ shrink g < g)
  (hold : Snapshot older) (hnew : Snapshot newer)
include hshrink hold hnew

lemma of_diff_eq_ok {patches : List Patch} {rounds : Nat} (hrun : ∀ n, rounds ≤ n →
      diff shrink n (tree older) (tree newer) aliasPath = .ok patches) :
    older.1.count ≤ intMax ∧ newer.1.count ≤ intMax ∧
      (aliasPath = none → ∀ fullname, ¬Creates older newer fullname ∧ ¬Deletes older newer fullname) := by
  obtain ⟨xs, ys, hx, hy, hxs, hys, bound, hdiff⟩ := diff_eq hshrink hold hnew aliasPath
  have hok := hrun (max bound rounds) (le_max_right ..)
  rw [hdiff _ (le_max_left ..)] at hok
  split at hok
  · next hint =>
    refine ⟨hint.1, hint.2, ?_⟩
    rintro rfl fullname
    have hnone := mapM_patchOf_none hok
    rw [← creates_iff hx hy hxs hys hold.distinct, ← deletes_iff hx hy hxs hys, hnone]
    simp
  · cases hok

lemma exists_exact_diff (hint : older.1.count ≤ intMax) (hint' : newer.1.count ≤ intMax)
    (halias : aliasPath = none → ∀ fullname,
      ¬Creates older newer fullname ∧ ¬Deletes older newer fullname) :
    ∃ patches, Exact older newer patches ∧ ∃ rounds, ∀ n, rounds ≤ n →
      diff shrink n (tree older) (tree newer) aliasPath = .ok patches := by
  obtain ⟨xs, ys, hx, hy, hxs, hys, bound, hdiff⟩ := diff_eq hshrink hold hnew aliasPath
  have hnone : aliasPath = none → changes xs ys = [] := by
    intro h
    refine eq_nil_iff_forall_not_mem.mpr fun c hc => ?_
    obtain ⟨op, file⟩ := c
    obtain ⟨hno, hno'⟩ := halias h file.fullname
    cases op with
    | create => exact hno ((creates_iff hx hy hxs hys hold.distinct _).mp ⟨_, hc, rfl, rfl⟩)
    | delete => exact hno' ((deletes_iff hx hy hxs hys _).mp ⟨_, hc, rfl, rfl⟩)
  obtain ⟨ps, hps, hmap⟩ := mapM_patchOf_eq_ok hold hnew
    (fun c hc => reported_of_mem_changes hx hy hxs hys hc) hnone
  refine ⟨ps, exact_of_map_eq hx hy hxs hys hold.distinct hmap, bound, fun n hn => ?_⟩
  rw [hdiff n hn, if_pos ⟨hint, hint'⟩, hps]

end

/-- The difference of two trees is exact, in the range of an `int`, if there is an alias or no
patch. -/
theorem exact_diff_iff {shrink : Nat → Nat} (hshrink : ∀ g, 1 < g → 1 ≤ shrink g ∧ shrink g < g)
    (hold : Snapshot older) (hnew : Snapshot newer) (aliasPath : Option (List UInt8)) :
    (∃ patches, Exact older newer patches ∧ ∃ rounds, ∀ n, rounds ≤ n →
        diff shrink n (tree older) (tree newer) aliasPath = .ok patches) ↔
      older.1.count ≤ intMax ∧ newer.1.count ≤ intMax ∧
        (aliasPath = none → ∀ fullname, ¬Creates older newer fullname ∧ ¬Deletes older newer fullname) := by
  constructor
  · rintro ⟨ps, -, rounds, hrun⟩
    exact of_diff_eq_ok hshrink hold hnew hrun
  · rintro ⟨hint, hint', halias⟩
    exact exists_exact_diff hshrink hold hnew hint hint' halias

end

def oldTree : Directory × Zdir :=
  (⟨[100], [⟨[100, 47, 97], 1, 10, true⟩], 2⟩,
    .node ⟨[100, 47, 115], [⟨[100, 47, 115, 47, 98], 2, 20, false⟩], 1⟩ .nil .nil)

def newTree : Directory × Zdir :=
  (⟨[100], [⟨[100, 47, 99], 3, 30, true⟩], 2⟩,
    .node ⟨[100, 47, 115], [⟨[100, 47, 115, 47, 98], 2, 20, true⟩], 1⟩ .nil .nil)

lemma snapshot_oldTree : Snapshot oldTree := ⟨by decide, by decide, rfl⟩

lemma snapshot_newTree : Snapshot newTree := ⟨by decide, by decide, rfl⟩

theorem exact_diff_iff_alias :
    ∃ patches, Exact oldTree newTree patches ∧ ∃ rounds, ∀ n, rounds ≤ n →
      diff shrinkExactly n (tree oldTree) (tree newTree) (some [118]) = .ok patches :=
  (exact_diff_iff shrinkExactly_spec snapshot_oldTree snapshot_newTree (some [118])).mpr
    ⟨by decide, by decide, nofun⟩

/-- Without an alias the length of a `NULL` string is taken for the first patch. -/
theorem diff_without_alias :
    Snapshot oldTree ∧ Snapshot newTree ∧ Creates oldTree newTree [100, 47, 99] ∧
      ¬∃ patches, ∃ rounds, ∀ n, rounds ≤ n →
        diff shrinkExactly n (tree oldTree) (tree newTree) none = .ok patches := by
  have hcreates : Creates oldTree newTree [100, 47, 99] :=
    ⟨⟨[100, 47, 99], 3, 30, true⟩, by decide, rfl, rfl, .inl (by decide)⟩
  refine ⟨snapshot_oldTree, snapshot_newTree, hcreates, ?_⟩
  rintro ⟨ps, rounds, hrun⟩
  obtain ⟨xs, ys, hx, hy, hxs, hys, bound, hdiff⟩ :=
    diff_eq shrinkExactly_spec snapshot_oldTree snapshot_newTree none
  have hok := hrun (max bound rounds) (le_max_right ..)
  rw [hdiff _ (le_max_left ..)] at hok
  obtain ⟨c, hc, -⟩ := (creates_iff hx hy hxs hys snapshot_oldTree.distinct _).mpr hcreates
  rw [mapM_patchOf_none hok] at hc
  exact absurd hc not_mem_nil

/-! ## Absent trees -/

def pointer : Option (Directory × Zdir) → Zdir
  | none => .nil
  | some x => tree x

lemma flatten_nil_ne (shrink : Nat → Nat) (n : Nat) (files : List (Option Zfile)) :
    flatten shrink n .nil ≠ .ok files := by
  rw [flatten]
  simp

section
variable {shrink : Nat → Nat} (hshrink : ∀ g, 1 < g → 1 ≤ shrink g ∧ shrink g < g)
  {older newer : Option (Directory × Zdir)}

/-- The difference is that with an empty tree in place of an absent one: the same patches in the
order of the names, one for each stable file of the other tree. -/
def AbsentAsEmpty (shrink : Nat → Nat) (empty : Directory × Zdir)
    (older newer : Option (Directory × Zdir)) (aliasPath : Option (List UInt8)) : Prop :=
  ∃ patches, Exact (older.getD empty) (newer.getD empty) patches ∧ ∃ rounds, ∀ n, rounds ≤ n →
    diff shrink n (pointer older) (pointer newer) aliasPath = .ok patches ∧
      diff shrink n (tree (older.getD empty)) (tree (newer.getD empty)) aliasPath = .ok patches

include hshrink in
/-- An absent tree is never taken for an empty one, as `zdir_flatten` reads its count; others have
their difference up to the range of an `int` and the need of an alias. -/
theorem absentAsEmpty_iff (hold : ∀ x ∈ older, Snapshot x) (hnew : ∀ x ∈ newer, Snapshot x)
    (empty : Directory × Zdir) (aliasPath : Option (List UInt8)) :
    AbsentAsEmpty shrink empty older newer aliasPath ↔
      ∃ x ∈ older, ∃ y ∈ newer, x.1.count ≤ intMax ∧ y.1.count ≤ intMax ∧
        (aliasPath = none → ∀ fullname, ¬Creates x y fullname ∧ ¬Deletes x y fullname) := by
  constructor
  · rintro ⟨patches, -, rounds, hrun⟩
    obtain ⟨oldFiles, hx, hdiff⟩ := bind_eq_ok.mp (hrun rounds le_rfl).1
    obtain ⟨newFiles, hy, -⟩ := bind_eq_ok.mp hdiff
    rcases older with _ | x
    · exact absurd hx (flatten_nil_ne shrink rounds oldFiles)
    · rcases newer with _ | y
      · exact absurd hy (flatten_nil_ne shrink rounds newFiles)
      · exact ⟨x, rfl, y, rfl,
          of_diff_eq_ok hshrink (hold x rfl) (hnew y rfl) fun n hn => (hrun n hn).1⟩
  · rintro ⟨x, rfl, y, rfl, hint, hint', halias⟩
    obtain ⟨patches, hexact, rounds, hrun⟩ :=
      exists_exact_diff hshrink (hold x rfl) (hnew y rfl) hint hint' halias
    exact ⟨patches, hexact, rounds, fun n hn => ⟨hrun n hn, hrun n hn⟩⟩

end

def emptyTree : Directory × Zdir := (⟨[100], [], 0⟩, .nil)

theorem absentAsEmpty_present :
    AbsentAsEmpty shrinkExactly emptyTree (some emptyTree) (some newTree) (some [118]) :=
  (absentAsEmpty_iff shrinkExactly_spec
    (by rintro x ⟨⟩; exact ⟨by decide, by decide, rfl⟩) (by rintro x ⟨⟩; exact snapshot_newTree)
    emptyTree (some [118])).mpr ⟨_, rfl, _, rfl, by decide, by decide, by simp⟩

/-- Against an empty tree there are two patches, against `NULL` a read through it. -/
theorem diff_absent : Snapshot newTree ∧
    (∃ patches, Exact emptyTree newTree patches ∧ ∃ rounds, ∀ n, rounds ≤ n →
      diff shrinkExactly n (tree emptyTree) (tree newTree) (some [118]) = .ok patches) ∧
    ∀ n, diff shrinkExactly n .nil (tree newTree) (some [118]) = .error (.outOfBounds 0) :=
  ⟨snapshot_newTree,
    exists_exact_diff shrinkExactly_spec ⟨by decide, by decide, rfl⟩ snapshot_newTree (by decide)
      (by decide) (by simp),
    fun _ => rfl⟩

end Czmq.Zdir
