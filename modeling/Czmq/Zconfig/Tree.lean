import Czmq.Base.Forest
import Czmq.Zsys

/-! The items of `zconfig.c` and the paths through them. After a name that it found `zconfig_put`
goes on behind the slash, `zconfig_locate` at it. -/

namespace Czmq

open List Forest

structure Property where
  name : Option (List UInt8)
  value : Option (List UInt8)
  comments : Option (List (List UInt8))
  deriving DecidableEq

/-- `zconfig_t *`: an item with its children and the siblings behind it, or `NULL`. -/
abbrev Zconfig := Forest Property

namespace Zconfig

def slash : UInt8 := 47

def skipSlash : List UInt8 → List UInt8
  | [] => []
  | c :: path => if c = slash then path else c :: path

def segment (path : List UInt8) : List UInt8 := path.takeWhile (· != slash)

def slashOf (path : List UInt8) : Option (List UInt8) :=
  match path.dropWhile (· != slash) with
  | [] => none
  | c :: rest => some (c :: rest)

def new (name : Option (List UInt8)) : Property := ⟨name, none, none⟩

def setValue (value : List UInt8) (a : Property) : Property := { a with value := some value }

/-- The loop of `zconfig_put` over the siblings, and what follows. A missing segment is made behind
them, and `zconfig_put` goes on at the slash, not behind it. -/
def putScan (seg : List UInt8) (slash : Option (List UInt8)) (value : List UInt8)
    (recurse : List UInt8 → Zconfig → Except Fault Zconfig) : Zconfig → Except Fault Zconfig
  | .nil =>
    match slash with
    | some slash => do
      let child ← recurse slash .nil
      pure (.node (new (some seg)) child .nil)
    | none => do
      let value ← zsysVprintf value
      pure (.node (setValue value (new (some seg))) .nil .nil)
  | .node a child next =>
    if a.name.isNone then .error (.outOfBounds 0)
    else if a.name = some seg then
      match slash with
      | some slash => do
        let child ← recurse (slash.drop 1) child
        pure (.node a child next)
      | none => do
        let value ← zsysVprintf value
        pure (.node (setValue value a) child next)
    else do
      let next ← putScan seg slash value recurse next
      pure (.node a child next)

def putLoop (value : List UInt8) : Nat → List UInt8 → Zconfig → Except Fault Zconfig
  | 0, _, _ => .error .endlessLoop
  | n + 1, path, child =>
    let path := skipSlash path
    putScan (segment path) (slashOf path) value (putLoop value n) child

def put (self : Zconfig) (path value : List UInt8) : Except Fault Zconfig :=
  match self with
  | .nil => .error (.outOfBounds 0)
  | .node a child next => do
    let child ← putLoop value (path.length + 1) path child
    pure (.node a child next)

/-- The loop of `zconfig_locate` over the siblings; the item found, or `NULL`. -/
def locateScan (seg : List UInt8) (slash : Option (List UInt8))
    (recurse : List UInt8 → Zconfig → Except Fault (Option Property)) :
    Zconfig → Except Fault (Option Property)
  | .nil => .ok none
  | .node a child next =>
    if a.name.isNone then .error (.outOfBounds 0)
    else if a.name = some seg then
      match slash with
      | some slash => recurse slash child
      | none => .ok (some a)
    else locateScan seg slash recurse next

def locateLoop : Nat → List UInt8 → Zconfig → Except Fault (Option Property)
  | 0, _, _ => .error .endlessLoop
  | n + 1, path, child =>
    let path := skipSlash path
    locateScan (segment path) (slashOf path) (locateLoop n) child

def locate (self : Zconfig) (path : List UInt8) : Except Fault (Option Property) :=
  match self with
  | .nil => .error .assertion
  | .node _ child _ => locateLoop (path.length + 1) path child

def get (self : Zconfig) (path : List UInt8) (defaultValue : Option (List UInt8)) :
    Except Fault (Option (List UInt8)) := do
  match ← self.locate path with
  | some item => pure item.value
  | none => pure defaultValue

/-- `zconfig_locate` with one name: the item, and what is below it. -/
def childNamed (name : List UInt8) : Zconfig → Except Fault (Option (Property × Zconfig))
  | .nil => .ok none
  | .node a child next =>
    if a.name.isNone then .error (.outOfBounds 0)
    else if a.name = some name then .ok (some (a, child))
    else childNamed name next

def names (path : List UInt8) : List (List UInt8) := (skipSlash path).splitOn slash

def namesFrom : Option (List UInt8) → List (List UInt8)
  | none => []
  | some rest => names rest

lemma splitOn_slash (path : List UInt8) :
    path.splitOn slash = segment path :: namesFrom (slashOf path) := by
  induction path with
  | nil => rfl
  | cons c path ih =>
    rw [splitOn, splitOnP_cons_eq_if_modifyHead, ← splitOn, ih]
    by_cases hc : c = slash
    · subst hc
      simp [segment, slashOf, namesFrom, names, skipSlash, ih]
    · simp [segment, slashOf, hc]

lemma names_eq (path : List UInt8) :
    names path = segment (skipSlash path) :: namesFrom (slashOf (skipSlash path)) :=
  splitOn_slash _

lemma names_ne_nil (path : List UInt8) : names path ≠ [] := splitOn_ne_nil _ _

section
variable {path rest : List UInt8}

lemma slashOf_eq_some (h : slashOf path = some rest) :
    rest = path.dropWhile (· != slash) ∧ ∃ tail, rest = slash :: tail := by
  rw [slashOf] at h
  split at h
  · cases h
  · next c tail hdrop =>
    cases h
    have hc := head?_dropWhile_not (· != slash) path
    rw [hdrop] at hc
    exact ⟨hdrop.symm, tail, by simpa using hc⟩

lemma length_lt_of_slashOf (h : slashOf (skipSlash path) = some rest) :
    rest.length < path.length := by
  obtain ⟨hrest, -⟩ := slashOf_eq_some h
  cases path with
  | nil => cases h
  | cons c path =>
    have hle : rest.length ≤ path.length := by
      by_cases hc : c = slash
      · rw [skipSlash, if_pos hc] at hrest
        rw [hrest]
        exact (dropWhile_suffix _).length_le
      · rw [skipSlash, if_neg hc, dropWhile_cons_of_pos (by simpa using hc)] at hrest
        rw [hrest]
        exact (dropWhile_suffix _).length_le
    exact Nat.lt_succ_of_le hle

end

/-! ## Both recursions as paths through the tree -/

def Named (f : Zconfig) : Prop := f.All fun a => a.name.isSome

def findNames (ks : List (List UInt8)) (f : Zconfig) : Option Property :=
  find Property.name (ks.map some) f

def putNames (value : List UInt8) (ks : List (List UInt8)) (f : Zconfig) : Zconfig :=
  Forest.put Property.name new (setValue value) (ks.map some) f

lemma not_isNone_of_isSome {o : Option (List UInt8)} (h : o.isSome) : ¬ o.isNone = true := by
  rw [Option.isNone_iff_eq_none]
  exact Option.isSome_iff_ne_none.mp h

section
variable {seg : List UInt8} {slash : Option (List UInt8)} {f : Zconfig}

lemma locateScan_eq {recurse : List UInt8 → Zconfig → Except Fault (Option Property)}
    (hrec : ∀ s ∈ slash, ∀ f, Named f → recurse s f = .ok (findNames (names s) f)) (hf : Named f) :
    locateScan seg slash recurse f = .ok (findNames (seg :: namesFrom slash) f) := by
  induction f with
  | nil => rfl
  | node a child next _ ih =>
    obtain ⟨ha, hchild, hnext⟩ := hf
    rw [locateScan.eq_def, findNames, map_cons]
    dsimp only
    rw [if_neg (not_isNone_of_isSome ha)]
    by_cases hseg : a.name = some seg
    · rw [if_pos hseg, find_node_eq _ hseg]
      cases slash with
      | none => rfl
      | some s =>
        rw [if_neg (by simp [namesFrom, names_ne_nil])]
        exact hrec s rfl child hchild
    · rw [if_neg hseg, find_node_ne hseg, ih hnext]
      rfl

lemma locateLoop_eq {n : Nat} {path : List UInt8} (hn : path.length < n) (hf : Named f) :
    locateLoop n path f = .ok (findNames (names path) f) := by
  induction n generalizing path f with
  | zero => cases hn
  | succ n ih =>
    rw [names_eq]
    refine locateScan_eq (fun s hs f hf => ih ?_ hf) hf
    have hlt := length_lt_of_slashOf hs
    omega

def putRouteScan (seg : List UInt8) (slash : Option (List UInt8))
    (recurse : List UInt8 → Zconfig → List (List UInt8)) : Zconfig → List (List UInt8)
  | .nil => seg :: namesFrom slash
  | .node a child next =>
    if a.name = some seg then seg :: (slash.map fun s => recurse (s.drop 1) child).getD []
    else putRouteScan seg slash recurse next

def putRouteLoop : Nat → List UInt8 → Zconfig → List (List UInt8)
  | 0, _, _ => []
  | n + 1, path, child =>
    putRouteScan (segment (skipSlash path)) (slashOf (skipSlash path)) (putRouteLoop n) child

/-- The names that `zconfig_put` follows: where it finds a name, it leaves out an empty segment
behind it. -/
def putRoute (self : Zconfig) (path : List UInt8) : List (List UInt8) :=
  match self with
  | .nil => []
  | .node _ child _ => putRouteLoop (path.length + 1) path child

lemma putRouteScan_eq_cons (seg : List UInt8) (slash : Option (List UInt8))
    (recurse : List UInt8 → Zconfig → List (List UInt8)) (f : Zconfig) :
    ∃ ks, putRouteScan seg slash recurse f = seg :: ks := by
  induction f with
  | nil => exact ⟨_, rfl⟩
  | node a child next _ ih =>
    rw [putRouteScan]
    split
    · exact ⟨_, rfl⟩
    · exact ih

lemma putScan_eq {value : List UInt8} {recurse : List UInt8 → Zconfig → Except Fault Zconfig}
    {route : List UInt8 → Zconfig → List (List UInt8)}
    (hnew : ∀ s ∈ slash, recurse s .nil = (zsysVprintf value).map fun v => putNames v (names s) .nil)
    (hrec : ∀ s ∈ slash, ∀ f, Named f →
      recurse (s.drop 1) f = (zsysVprintf value).map fun v => putNames v (route (s.drop 1) f) f)
    (hroute : ∀ s ∈ slash, ∀ f, route (s.drop 1) f ≠ []) (hf : Named f) :
    putScan seg slash value recurse f =
      (zsysVprintf value).map fun v => putNames v (putRouteScan seg slash route f) f := by
  induction f with
  | nil =>
    rw [putScan.eq_def, putRouteScan]
    cases slash with
    | none => cases zsysVprintf value <;> rfl
    | some s =>
      dsimp only
      obtain ⟨k, ks, hks⟩ := exists_cons_of_ne_nil (names_ne_nil s)
      rw [hnew s rfl, namesFrom, hks]
      cases zsysVprintf value <;> rfl
  | node a child next _ ih =>
    obtain ⟨ha, hchild, hnext⟩ := hf
    rw [putScan.eq_def, putRouteScan]
    dsimp only
    rw [if_neg (not_isNone_of_isSome ha)]
    by_cases hseg : a.name = some seg
    ·
      simp only [putNames, map_cons, Forest.put, if_pos hseg]
      cases slash with
      | none => cases zsysVprintf value <;> rfl
      | some s =>
        obtain ⟨k, ks, hks⟩ := exists_cons_of_ne_nil (hroute s rfl child)
        simp only [hrec s rfl child hchild, Option.map_some, hks]
        cases zsysVprintf value <;> rfl
    · -- The segment is looked for behind this item, where its names begin with it too.
      obtain ⟨ks, hks⟩ := putRouteScan_eq_cons seg slash route next
      rw [ih hnext]
      simp only [hks, putNames, map_cons, Forest.put, if_neg hseg]
      cases zsysVprintf value <;> rfl

lemma putLoop_eq {value : List UInt8} {n : Nat} {path : List UInt8} (hn : path.length < n)
    (hf : Named f) :
    putLoop value n path f = (zsysVprintf value).map fun v => putNames v (putRouteLoop n path f) f := by
  induction n generalizing path f with
  | zero => cases hn
  | succ n ih =>
    have hlt : ∀ s ∈ slashOf (skipSlash path), s.length < n := fun s hs => by
      have := length_lt_of_slashOf hs
      omega
    have hsucc : ∀ s ∈ slashOf (skipSlash path), ∃ m, n = m + 1 := fun s hs =>
      ⟨n - 1, by have := hlt s hs; omega⟩
    refine putScan_eq (fun s hs => ?_) (fun s hs f hf => ih ?_ hf) (fun s hs f => ?_) hf
    · obtain ⟨m, rfl⟩ := hsucc s hs
      rw [ih (hlt s hs) (show Named .nil from trivial), putRouteLoop, putRouteScan, names_eq]
    · rw [length_drop]
      have := hlt s hs
      omega
    · obtain ⟨m, rfl⟩ := hsucc s hs
      obtain ⟨ks, hks⟩ := putRouteScan_eq_cons (segment (skipSlash (s.drop 1)))
        (slashOf (skipSlash (s.drop 1))) (putRouteLoop m) f
      rw [putRouteLoop, hks]
      exact cons_ne_nil _ _

end

lemma length_names_skip (path : List UInt8) :
    (names path).length ≤ (path.splitOn slash).length := by
  cases path with
  | nil => exact le_rfl
  | cons c path =>
    rw [names, skipSlash]
    split
    · next hc =>
      subst hc
      rw [splitOn_slash (slash :: path)]
      simp [slashOf, namesFrom, names, skipSlash]
    · exact le_rfl

lemma length_putRouteLoop_le (n : Nat) (path : List UInt8) (f : Zconfig) :
    (putRouteLoop n path f).length ≤ (names path).length := by
  induction n generalizing path f with
  | zero => exact Nat.zero_le _
  | succ n ih =>
    rw [putRouteLoop, names_eq]
    induction f with
    | nil => exact le_rfl
    | node a child next _ ihn =>
      rw [putRouteScan]
      split
      · cases hs : slashOf (skipSlash path) with
        | none => exact le_rfl
        | some s =>
          obtain ⟨-, tail, rfl⟩ := slashOf_eq_some hs
          refine Nat.succ_le_succ (le_trans (ih tail child) ?_)
          exact length_names_skip tail
      · exact ihn

/-! ## Put, then get -/

section
variable {a : Property} {child next : Zconfig} {d : Option (List UInt8)}

lemma put_eq (hchild : Named child) (path value : List UInt8) :
    put (.node a child next) path value = (zsysVprintf value).map fun v =>
      .node a (putNames v (putRoute (.node a child next) path) child) next := by
  rw [put, putLoop_eq (Nat.lt_succ_self _) hchild]
  cases zsysVprintf value <;> rfl

lemma get_eq (hchild : Named child) (path : List UInt8) :
    get (.node a child next) path d =
      .ok ((findNames (names path) child).elim d (·.value)) := by
  rw [get, locate, locateLoop_eq (Nat.lt_succ_self _) hchild]
  cases findNames (names path) child <;> rfl

lemma named_putNames (v : List UInt8) (ks : List (List UInt8)) (hchild : Named child) :
    Named (putNames v ks child) := by
  refine all_put (fun k hk => ?_) (fun b hb => hb) hchild
  obtain ⟨seg, -, rfl⟩ := mem_map.mp hk
  rfl

lemma find_putNames (v : List UInt8) (path : List UInt8) :
    (findNames (names path) (putNames v (putRoute (.node a child next) path) child)).elim d
        (·.value) =
      if putRoute (.node a child next) path = names path then some v
      else (findNames (names path) child).elim d (·.value) := by
  have hlen := length_putRouteLoop_le (path.length + 1) path child
  have hname : ∀ b, (setValue v b).name = b.name := fun b => rfl
  have hnew : ∀ k, (new k).name = k := fun k => rfl
  split
  · next h =>
    obtain ⟨b, hb⟩ := find_put_self hnew hname
      (fun h => names_ne_nil path (map_eq_nil_iff.mp h))
    rw [h, findNames, putNames, hb]
    rfl
  · next h =>
    rw [findNames, putNames, find_put_of_not_prefix hnew hname]
    · rfl
    · intro hpre
      have he := hpre.eq_of_length_le (by rw [length_map, length_map]; exact hlen)
      exact h (map_injective_iff.mpr (Option.some_injective _) he).symm

end

/-- A value that was put is got back exactly when an `int` can say its length and the two functions
followed the same names, or when it was there already. -/
theorem get_put_iff {a : Property} {child next : Zconfig} (hchild : Named child)
    (path value : List UInt8) (d : Option (List UInt8)) :
    (∃ t, put (.node a child next) path value = .ok t ∧ t.get path d = .ok (some value)) ↔
      value.length < intMax ∧ putRoute (.node a child next) path = names path ∨
      value.length ≠ intMax ∧ putRoute (.node a child next) path ≠ names path ∧
        get (.node a child next) path d = .ok (some value) := by
  have hiff : (∃ t, put (.node a child next) path value = .ok t ∧ t.get path d = .ok (some value)) ↔
      ∃ v, zsysVprintf value = .ok v ∧ (if putRoute (.node a child next) path = names path then some v
        else (findNames (names path) child).elim d (·.value)) = some value := by
    rw [put_eq hchild]
    cases zsysVprintf value with
    | error e => simp [Except.map]
    | ok v =>
      simp only [Except.map, Except.ok.injEq, exists_eq_left', get_eq (named_putNames v _ hchild),
        find_putNames]
  rw [hiff, get_eq hchild, Except.ok.injEq, ← zsysVprintf_eq_self_iff, ← zsysVprintf_ok_iff]
  by_cases hroute : putRoute (.node a child next) path = names path
  · simp only [hroute, if_true, Option.some.injEq, and_true, ne_eq, not_true_eq_false, false_and,
      and_false, or_false]
    exact ⟨fun ⟨v, hv, he⟩ => he ▸ hv, fun hv => ⟨value, hv, rfl⟩⟩
  · simp only [hroute, and_false, false_or, ne_eq, not_false_eq_true, true_and]
    exact ⟨fun ⟨v, hv, he⟩ => ⟨⟨v, hv⟩, he⟩, fun ⟨⟨v, hv⟩, he⟩ => ⟨v, hv, he⟩⟩

def root (child : Zconfig) : Zconfig := .node (new (some [114, 111, 111, 116])) child .nil

def leaf (name : List UInt8) : Zconfig := .node (new (some name)) .nil .nil

theorem get_put_new : ∃ t, put (root .nil) [97, 47, 98] [49] = .ok t ∧
    get t [97, 47, 98] none = .ok (some [49]) :=
  (get_put_iff (show Named .nil from trivial) [97, 47, 98] [49] none).mpr
    (.inl ⟨by decide, by decide⟩)

/-- With an item `a`, the value put at `a//b` is at `a/b`, and `zconfig_get` looks below `a` for an
item without a name. -/
theorem get_put_double_slash : ∃ t, put (root (leaf [97])) [97, 47, 47, 98] [49] = .ok t ∧
    get t [97, 47, 47, 98] none = .ok none ∧ get t [97, 47, 98] none = .ok (some [49]) :=
  ⟨_, rfl, rfl, rfl⟩

/-! ## What a put leaves alone -/

def WholeNames (path : List UInt8) : Prop := ∀ seg ∈ names path, seg ≠ []

lemma names_behind_slash {tail : List UInt8} (h : WholeNames (slash :: tail)) :
    names tail = names (slash :: tail) := by
  cases tail with
  | nil => rfl
  | cons c tail =>
    rw [names, skipSlash]
    split
    · next hc =>
      subst hc
      have hseg := names_eq (slash :: slash :: tail)
      refine absurd rfl (h [] ?_)
      rw [hseg]
      exact mem_cons_self
    · rfl

lemma putRouteLoop_eq_names {n : Nat} {path : List UInt8} (hn : path.length < n)
    (h : WholeNames path) (f : Zconfig) : putRouteLoop n path f = names path := by
  induction n generalizing path f with
  | zero => cases hn
  | succ n ih =>
    rw [WholeNames, names_eq, forall_mem_cons] at h
    rw [putRouteLoop, names_eq]
    induction f with
    | nil => rfl
    | node a child next _ ihn =>
      rw [putRouteScan]
      split
      · cases hs : slashOf (skipSlash path) with
        | none => rfl
        | some s =>
          have hlt := length_lt_of_slashOf hs
          obtain ⟨-, tail, rfl⟩ := slashOf_eq_some hs
          rw [hs] at h
          have hnames := names_behind_slash h.2
          rw [length_cons] at hlt
          have htail : WholeNames tail := fun seg hseg => h.2 seg (by rwa [namesFrom, ← hnames])
          exact congrArg _ ((@ih tail (by omega) htail child).trans hnames)
      · exact ihn

/-- After `zconfig_put` only its item is changed, or only missing items along the path are new, and
no `zconfig_get` of another path is different. -/
def PutAlone (a : Property) (child next : Zconfig) (path : List UInt8) (t : Zconfig) : Prop :=
  ∃ child' v, t = .node a child' next ∧
    Patched Property.name (setValue v) [] ((names path).map some) child child' ∧
    ∀ q d, WholeNames q → ¬ names q <+: names path →
      get t q d = get (.node a child next) q d

theorem put_alone_iff {a : Property} {child next : Zconfig} (hchild : Named child)
    (path value : List UInt8) (hpath : WholeNames path) :
    (∃ t, put (.node a child next) path value = .ok t ∧ PutAlone a child next path t) ↔
      value.length ≠ intMax := by
  have hroute : putRoute (.node a child next) path = names path :=
    putRouteLoop_eq_names (Nat.lt_succ_self _) hpath child
  rw [put_eq hchild, hroute, ← zsysVprintf_ok_iff]
  constructor
  · rintro ⟨t, hput, -⟩
    cases hv : zsysVprintf value with
    | error e => rw [hv] at hput; cases hput
    | ok v => exact ⟨v, rfl⟩
  · rintro ⟨v, hv⟩
    have hname : ∀ b, (setValue v b).name = b.name := fun b => rfl
    have hnew : ∀ k, (new k).name = k := fun k => rfl
    have hne : (names path).map some ≠ [] := fun h => names_ne_nil path (map_eq_nil_iff.mp h)
    refine ⟨_, by rw [hv]; rfl, putNames v (names path) child, v, rfl,
      patched_put hnew hname [] hne, fun q d _ hq => ?_⟩
    rw [get_eq (named_putNames v _ hchild), get_eq hchild, findNames, putNames,
      find_put_of_not_prefix hnew hname]
    · rfl
    · rwa [prefix_map_iff_of_injective (Option.some_injective _)]

theorem put_alone_new : ∃ t, put (root (leaf [98])) [97, 47, 98] [49] = .ok t ∧
    PutAlone (new (some [114, 111, 111, 116])) (leaf [98]) .nil [97, 47, 98] t :=
  (put_alone_iff (show Named (leaf [98]) from ⟨rfl, trivial, trivial⟩) [97, 47, 98] [49]
    (by rw [WholeNames]; decide)).mpr
    (by decide)

/-- No `int` can hold the size of the new value. -/
theorem put_longest : put (root .nil) [97] (replicate intMax 49) = .error .overflow := by
  have hvalue : zsysVprintf (replicate intMax 49) = .error .overflow := by
    rw [zsysVprintf, length_replicate, if_neg (Nat.lt_irrefl _), if_pos rfl]
  rw [root, put_eq (show Named .nil from trivial), hvalue]
  rfl

end Zconfig

end Czmq
