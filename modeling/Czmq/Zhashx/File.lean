import Czmq.Base.Pieces
import Czmq.Zhashx.Pack

/-! The text form of a dictionary, comments and `name=value` lines. `zhashx_load` reads it with
`fgets` into a buffer of 1024 bytes and takes each piece for a line. -/

namespace Czmq.Zhashx

open List Machine Bytes AbsMap CString

/-- The comments as `zhashx_save` writes them, `none` without any. -/
def commentLines : Option (List CString) → List UInt8
  | none => []
  | some comments => comments.flatMap (fun comment => [35, 32, 32, 32] ++ comment.1 ++ [10]) ++ [10]

def line (key value : List UInt8) : List UInt8 := key ++ [61] ++ value ++ [10]

def saveItem (file : List UInt8) (item : Item CString CString) : Except Fault (List UInt8) :=
  match item.value with
  | none => .error (.outOfBounds 0)
  | some value => .ok (file ++ line item.key.1 value.1)

def save (comments : Option (List CString)) (t : Dictionary) : Except Fault (List UInt8) :=
  Loop.forUint t.limit .endlessLoop (fun file index => (t.items.getD index []).foldlM saveItem file)
    (commentLines comments)

def nameOf (buffer : CString) : CString :=
  ⟨buffer.1.takeWhile (· != 61), fun h => buffer.2 (takeWhile_subset _ h)⟩

def chomp (buffer : CString) : CString :=
  if buffer.1.getLast? = some 10 then
    ⟨buffer.1.dropLast, fun h => buffer.2 (dropLast_subset _ h)⟩
  else buffer

def binding (buffer : CString) : Option (CString × CString) :=
  let name := nameOf buffer
  if buffer.1.head? = some 35 ∨ name.1 = [] ∨ name.1.length = buffer.1.length then none
  else some (name, ⟨(chomp buffer).1.drop (name.1.length + 1),
    fun h => (chomp buffer).2 (drop_subset _ _ h)⟩)

def buffers (file : List UInt8) : List CString :=
  (Pieces.pieces 10 1023 file).map fun piece => ofBuffer (piece ++ [0])

def loadBuffer (self : Dictionary) (buffer : CString) : Except Fault Dictionary :=
  match binding buffer with
  | none => .ok self
  | some (name, value) => self.update name (some value)

def loadFile (self : Dictionary) (file : Option (List UInt8)) : Except Fault (Int × Dictionary) :=
  let self := { self with fn := { self.fn with destructor := true, duplicator := some id } }
  match file with
  | none => .ok (-1, self)
  | some file => (buffers file).foldlM loadBuffer self >>= fun self => .ok (0, self)

def defaultCallbacks : Callbacks CString CString := { unpackCallbacks with destructor := false }

def SurvivesFile (comments : Option (List CString)) (t : Dictionary) : Prop :=
  ∃ file, save comments t = .ok file ∧ ∃ copy,
    loadFile (new defaultCallbacks) (some file) = .ok (0, copy) ∧ copy.pairs.Perm t.pairs

def bindings (file : List UInt8) : List (CString × Option CString) :=
  (buffers file).filterMap fun buffer => (binding buffer).map fun b => (b.1, some b.2)

def updates (ps : List (CString × Option CString)) : List (MapOp CString CString) :=
  ps.map fun p => .update p.1 p.2

def loadCallbacks : Callbacks CString CString := { unpackCallbacks with duplicator := some id }

lemma loadCallbacks_lawful : loadCallbacks.Lawful :=
  { unpackCallbacks_lawful with }

lemma foldlM_loadBuffer (bs : List CString) (self : Dictionary) :
    bs.foldlM loadBuffer self = (run mapStep self
      (updates (bs.filterMap fun b => (binding b).map fun b => (b.1, some b.2)))).map (·.2) := by
  induction bs generalizing self with
  | nil => rfl
  | cons b bs ih =>
    rw [foldlM_cons, loadBuffer]
    cases hb : binding b with
    | none =>
      rw [filterMap_cons_none (by rw [hb]; rfl)]
      exact ih self
    | some p =>
      rw [filterMap_cons_some (by rw [hb]; rfl)]
      change self.update p.1 (some p.2) >>= _ = _
      rw [updates, map_cons]
      cases hu : self.update p.1 (some p.2) with
      | error e =>
        have hstep : self.mapStep (.update p.1 (some p.2)) = .error e := by rw [mapStep, hu]; rfl
        rw [run_cons_error hstep]
        rfl
      | ok self' =>
        have hstep : self.mapStep (.update p.1 (some p.2)) = .ok (.void, self') := by
          rw [mapStep, hu]; rfl
        rw [run_cons_ok hstep, ok_bind, ih self', updates]
        cases run mapStep self' _ <;> rfl

lemma loadFile_new (file : List UInt8) {copy : Dictionary} :
    loadFile (new defaultCallbacks) (some file) = .ok (0, copy) ↔
      ∃ rs, run mapStep (new loadCallbacks) (updates (bindings file)) = .ok (rs, copy) := by
  have hself : { (new defaultCallbacks : Dictionary) with
      fn := { (new defaultCallbacks).fn with destructor := true, duplicator := some id } } =
      new loadCallbacks := rfl
  rw [loadFile, hself, foldlM_loadBuffer, bindings]
  cases run mapStep (new loadCallbacks) _ with
  | error e => simp [Except.map]
  | ok p => simp [Except.map, Prod.ext_iff]

/-! ## The map that updates make -/

noncomputable def puts : AbsMap loadCallbacks_lawful → List (CString × Option CString) →
    AbsMap loadCallbacks_lawful
  | m, [] => m
  | m, p :: ps => puts (m.put p.1 (some p.2)) ps

section
variable {m : AbsMap loadCallbacks_lawful} {t : Dictionary} {ps : List (CString × Option CString)}
  {k : CString} {v : Option CString}

lemma put_key_string (m : AbsMap loadCallbacks_lawful) (p : CString × Option CString)
    (k : CString) :
    m.put p.1 (some p.2) (key _ k) = if p.1 = k then some p.2 else m (key _ k) := by
  rw [put_key]
  refine if_congr ?_ rfl rfl
  change strcmp p.1.1 k.1 = 0 ↔ _
  rw [strcmp_eq_zero_iff, Subtype.ext_iff]

lemma puts_eq_some (h : puts m ps (key _ k) = some v) :
    m (key _ k) = some v ∨ (k, v) ∈ ps := by
  induction ps generalizing m with
  | nil => exact .inl h
  | cons p ps ih =>
    rcases ih h with hm | hmem
    · rw [put_key_string] at hm
      split at hm
      · next he =>
        refine .inr (mem_cons.mpr (.inl ?_))
        rw [← he, ← Option.some.inj hm]
      · exact .inl hm
    · exact .inr (mem_cons_of_mem _ hmem)

lemma puts_of_bound (h : m (key _ k) ≠ none) : puts m ps (key _ k) ≠ none := by
  induction ps generalizing m with
  | nil => exact h
  | cons p ps ih =>
    apply ih
    rw [put_key_string]
    split
    · simp
    · exact h

lemma puts_of_mem (h : (k, v) ∈ ps) : puts m ps (key _ k) ≠ none := by
  induction ps generalizing m with
  | nil => cases h
  | cons p ps ih =>
    rcases mem_cons.mp h with rfl | h
    · refine puts_of_bound (m := m.put k (some v)) ?_
      rw [put_key_string m (k, v)]
      simp
    · exact ih h

lemma puts_of_distinct (hps : ps.Pairwise fun p q => p.1 ≠ q.1) (h : (k, v) ∈ ps) :
    puts m ps (key _ k) = some v := by
  induction ps generalizing m with
  | nil => cases h
  | cons p ps ih =>
    obtain ⟨hp, hps⟩ := pairwise_cons.mp hps
    rcases mem_cons.mp h with rfl | h
    · cases hput : puts m ((k, v) :: ps) (key _ k) with
      | none => exact absurd hput (puts_of_mem mem_cons_self)
      | some w =>
        rcases puts_eq_some (show puts _ ps _ = some w from hput) with hm | hmem
        · rw [put_key_string, if_pos rfl] at hm
          exact hm.symm
        · exact absurd rfl (hp (k, w) hmem)
    · exact ih hps h

lemma puts_append (qs : List (CString × Option CString)) :
    puts m (ps ++ qs) = puts (puts m ps) qs := by
  induction ps generalizing m with
  | nil => rfl
  | cons p ps ih => exact ih

lemma Represents.mem_pairs_iff {V : Type} {fn : Callbacks CString V} {hfn : fn.Lawful}
    {t : Zhashx CString V} {m : AbsMap hfn} {v : Option V} (h : Represents t m)
    (hcompare : fn.keyComparator = fun a b => strcmp a.1 b.1) :
    (k, v) ∈ t.pairs ↔ m (key _ k) = some v := by
  have hkey : ∀ e : Item CString V, t.fn.sameKey e k = true ↔ e.key = k := by
    intro e
    rw [t.fn.sameKey_iff, h.fn_eq, hcompare]
    rw [strcmp_eq_zero_iff, Subtype.ext_iff]
  rw [h.bound, pairs_eq_map_entries, mem_map, Option.map_eq_some_iff]
  constructor
  · rintro ⟨e, he, hkv⟩
    obtain ⟨rfl, rfl⟩ := Prod.mk.inj hkv
    have hsome : (t.entryOf e.key).isSome := find?_isSome.mpr ⟨e, he, (hkey e).mpr rfl⟩
    obtain ⟨e', he'⟩ := Option.isSome_iff_exists.mp hsome
    have hmem := mem_of_find?_eq_some he'
    have hsame := (hkey e').mp (find?_some (p := (t.fn.sameKey · e.key)) he')
    refine ⟨e', he', ?_⟩
    by_contra hne
    have hdiff : e' ≠ e := fun heq => hne (by rw [heq])
    have hsymm : Std.Symm (Apart t.fn) := ⟨fun a b hab hba => hab (h.lawful.symm _ _ hba)⟩
    refine h.wf.distinct.forall hmem he hdiff ?_
    rw [hsame]
    exact h.lawful.refl _
  · rintro ⟨e, he, rfl⟩
    have hsame := (hkey e).mp (find?_some (p := (t.fn.sameKey · k)) he)
    exact ⟨e, mem_of_find?_eq_some he, by rw [hsame]⟩

lemma run_updates (h : Represents t m)
    (hfit : StepsMeet mapStep MapFits t (updates ps)) :
    ∃ rs t', run mapStep t (updates ps) = .ok (rs, t') ∧ Represents t' (puts m ps) := by
  induction ps generalizing t m with
  | nil => exact ⟨[], t, rfl, h⟩
  | cons p ps ih =>
    obtain ⟨t1, he, hr⟩ := h.update p.2 hfit.head
    have hstep : t.mapStep (.update p.1 p.2) = .ok (.void, t1) := by rw [mapStep, he]; rfl
    obtain ⟨rs, t', hrun, hr'⟩ := ih hr (hfit.tail hstep)
    refine ⟨.void :: rs, t', ?_, hr'⟩
    rw [updates, map_cons, run_cons_ok hstep]
    change Except.map _ (run mapStep t1 (updates ps)) = _
    rw [hrun]
    rfl

lemma stepsMeet_of_run (h : Represents t m) {rs : List (Result CString)} {t' : Dictionary}
    (hrun : run mapStep t (updates ps) = .ok (rs, t')) :
    StepsMeet mapStep MapFits t (updates ps) := by
  induction ps generalizing t m rs with
  | nil => exact stepsMeet_nil t
  | cons p ps ih =>
    rw [updates, map_cons] at hrun ⊢
    cases hstep : t.mapStep (.update p.1 p.2) with
    | error e => rw [run_cons_error hstep] at hrun; cases hrun
    | ok r =>
      obtain ⟨r, t1⟩ := r
      have hfit := h.wf.toShape.mapFits hstep
      obtain ⟨t2, he, hr⟩ := h.update p.2 hfit
      have hstep' : t.mapStep (.update p.1 p.2) = .ok (.void, t2) := by rw [mapStep, he]; rfl
      obtain ⟨rfl, rfl⟩ := Prod.mk.inj (Except.ok.inj (hstep.symm.trans hstep'))
      rw [run_cons_ok hstep] at hrun
      cases htail : run mapStep t1 (ps.map fun p => .update p.1 p.2) with
      | error e => rw [htail] at hrun; cases hrun
      | ok q =>
        obtain ⟨qs, u⟩ := q
        rw [htail] at hrun
        cases hrun
        refine .cons hfit fun r t3 he' => ?_
        rw [hstep] at he'
        cases he'
        exact ih hr htail

end

/-! ## The lines of a file -/

structure Printable (key value : List UInt8) : Prop where
  ne_nil : key ≠ []
  equals : 61 ∉ key
  newline : 10 ∉ key
  comment : key.head? ≠ some 35
  value : 10 ∉ value

section
variable {k v : CString} (h : Printable k.1 v.1)
include h

lemma binding_pair {buffer : CString} {rest : List UInt8} (hb : buffer.1 = k.1 ++ 61 :: rest)
    (hchomp : (chomp buffer).1 = k.1 ++ 61 :: v.1) : binding buffer = some (k, v) := by
  have hpass : ∀ c ∈ k.1, (c != 61) = true := by
    intro c hc
    rw [bne_iff_ne]
    rintro rfl
    exact h.equals hc
  have hname : buffer.1.takeWhile (· != 61) = k.1 := by
    rw [hb, takeWhile_append_of_pos hpass, takeWhile_cons_of_neg (by decide), append_nil]
  change (nameOf buffer).1 = k.1 at hname
  have hhead : buffer.1.head? = k.1.head? := by
    rw [hb]
    exact head?_append_of_ne_nil _ h.ne_nil
  have hlen : buffer.1.length = k.1.length + (rest.length + 1) := by
    rw [hb, length_append, length_cons]
  have hgo : ¬ (buffer.1.head? = some 35 ∨ (nameOf buffer).1 = [] ∨
      (nameOf buffer).1.length = buffer.1.length) := by
    rw [hname, hhead]
    rintro (hc | hnil | heq)
    · exact h.comment hc
    · exact h.ne_nil hnil
    · omega
  rw [binding, if_neg hgo]
  refine congrArg some (Prod.ext (Subtype.ext hname) (Subtype.ext ?_))
  change (chomp buffer).1.drop ((nameOf buffer).1.length + 1) = v.1
  rw [hname, hchomp, ← drop_drop, drop_left]
  rfl

lemma bindings_line (hlen : k.1.length + v.1.length ≤ 1022) :
    bindings (line k.1 v.1) = [(k, some v)] := by
  have hline : line k.1 v.1 = (k.1 ++ 61 :: v.1) ++ [10] := by
    rw [line, append_assoc k.1]
    rfl
  have hnl : (10 : UInt8) ∉ k.1 ++ 61 :: v.1 := by simp [h.newline, h.value]
  have hzero : (0 : UInt8) ∉ k.1 ++ 61 :: v.1 := by simp [k.2, v.2]
  have hwhole : (k.1 ++ 61 :: v.1).length = k.1.length + v.1.length + 1 := by
    rw [length_append, length_cons]
    omega
  rw [bindings, buffers, Pieces.pieces, hline]
  rcases Nat.lt_or_ge (k.1 ++ 61 :: v.1).length 1023 with hlt | hge
  · -- the newline is in the same piece
    rw [Pieces.cut_line hnl hlt, nil_append]
    have hz : (0 : UInt8) ∉ (k.1 ++ 61 :: v.1) ++ [10] := by
      intro hmem
      rcases mem_append.mp hmem with hmem | hmem
      · exact hzero hmem
      · exact absurd (mem_singleton.mp hmem) (by decide)
    have hbuf : ofBuffer ((k.1 ++ 61 :: v.1) ++ [10] ++ [0]) = ⟨_, hz⟩ :=
      ofBuffer_terminated ⟨_, hz⟩
    have hbind : binding ⟨(k.1 ++ 61 :: v.1) ++ [10], hz⟩ = some (k, v) := by
      have hsplit : k.1 ++ 61 :: v.1 ++ [10] = k.1 ++ 61 :: (v.1 ++ [10]) := by simp
      refine binding_pair h hsplit ?_
      rw [chomp, if_pos getLast?_concat]
      exact dropLast_concat
    rw [map_singleton, hbuf, filterMap_cons_some (by rw [hbind]; rfl), filterMap_nil]
  · -- the newline is a piece of its own
    rw [Pieces.cut_line_full hnl (by simp) (by omega), nil_append]
    have hbuf : ofBuffer ((k.1 ++ 61 :: v.1) ++ [0]) = ⟨_, hzero⟩ :=
      ofBuffer_terminated ⟨_, hzero⟩
    have hbind : binding ⟨k.1 ++ 61 :: v.1, hzero⟩ = some (k, v) := by
      have hsplit : k.1 ++ 61 :: v.1 = k.1 ++ 61 :: v.1 := rfl
      refine binding_pair h hsplit ?_
      rw [chomp, if_neg]
      intro hlast
      exact hnl (mem_of_getLast? hlast)
    rw [map_cons, map_singleton, hbuf,
      filterMap_cons_some (by rw [hbind]; rfl), filterMap_cons_none (by decide),
      filterMap_nil]

end

lemma bindings_append (x y : List UInt8) :
    bindings (x ++ [10] ++ y) = bindings (x ++ [10]) ++ bindings y := by
  rw [append_assoc, singleton_append, bindings, buffers, Pieces.pieces, Pieces.cut_append_stop,
    map_append, filterMap_append]
  rfl

lemma bindings_commentLines_append (comments : Option (List CString)) (y : List UInt8) :
    bindings (commentLines comments ++ y) = bindings (commentLines comments) ++ bindings y := by
  cases comments with
  | none => rfl
  | some cs => exact bindings_append _ y

lemma length_chomp_le (buffer : CString) : (chomp buffer).1.length ≤ buffer.1.length := by
  rw [chomp]
  split
  · exact (dropLast_sublist _).length_le
  · exact le_rfl

lemma length_binding {buffer : CString} {b : CString × CString} (h : binding buffer = some b) :
    b.1.1.length + b.2.1.length < buffer.1.length := by
  have hname : (nameOf buffer).1.length ≤ buffer.1.length :=
    ( takeWhile_prefix (· != 61)).length_le
  have hchomp := length_chomp_le buffer
  rw [binding] at h
  split at h
  · cases h
  · next hgo =>
    obtain ⟨-, hgo⟩ := not_or.mp hgo
    obtain ⟨-, hne⟩ := not_or.mp hgo
    cases h
    dsimp only
    rw [length_drop]
    omega

/-! ## Saved and loaded -/

def body (ps : List (CString × Option CString)) : List UInt8 :=
  ps.flatMap fun p => line p.1.1 (text p.2)

lemma bindings_body {ps : List (CString × Option CString)}
    (hps : ∀ p ∈ ps, p.2.isSome ∧ Printable p.1.1 (text p.2))
    (hlen : ∀ p ∈ ps, p.1.1.length + (text p.2).length ≤ 1022) : bindings (body ps) = ps := by
  induction ps with
  | nil => rfl
  | cons p ps ih =>
    obtain ⟨⟨hsome, hp⟩, hrest⟩ := forall_mem_cons.mp hps
    obtain ⟨hl, hlens⟩ := forall_mem_cons.mp hlen
    obtain ⟨v, hv⟩ := Option.isSome_iff_exists.mp hsome
    obtain ⟨k, w⟩ := p
    subst hv
    have hline := bindings_append (k.1 ++ [61] ++ v.1) (body ps)
    change bindings (line k.1 v.1 ++ body ps) = _
    rw [line, hline, ih hrest hlens]
    change bindings (line k.1 v.1) ++ ps = _
    rw [bindings_line hp hl]
    rfl

section
variable {t : Dictionary} {comments : Option (List CString)}

lemma foldlM_saveItem {items : List (Item CString CString)} (h : ∀ it ∈ items, it.value.isSome)
    (file : List UInt8) : items.foldlM saveItem file =
      .ok (file ++ body (items.map fun it => (it.key, it.value))) := by
  induction items generalizing file with
  | nil => simp [body, pure, Except.pure]
  | cons it items ih =>
    obtain ⟨hit, hitems⟩ := forall_mem_cons.mp h
    obtain ⟨v, hv⟩ := Option.isSome_iff_exists.mp hit
    rw [foldlM_cons, saveItem, hv, ok_bind, ih hitems, map_cons,
      hv, append_assoc]
    rfl

lemma mem_pairs_of_run {ps : List (CString × Option CString)} {rs : List (Result CString)}
    {copy : Dictionary} (hrun : run mapStep (new loadCallbacks) (updates ps) = .ok (rs, copy)) :
    ∀ k v, (k, v) ∈ copy.pairs ↔
      puts (fun _ => none) ps (key loadCallbacks_lawful k) = some v := by
  have hnew := represents_new loadCallbacks_lawful
  obtain ⟨rs', t', hrun', hr⟩ := run_updates hnew (stepsMeet_of_run hnew hrun)
  obtain ⟨-, rfl⟩ := Prod.mk.inj (Except.ok.inj (hrun.symm.trans hrun'))
  exact fun k v => hr.mem_pairs_iff rfl

lemma Wf.nodup_pairs (h : Wf t) (hfn : t.fn.Lawful) : t.pairs.Nodup := by
  refine h.pairwise_pairs.imp fun {p q} hpq he => hpq ?_
  rw [he]
  exact hfn.refl _

lemma lengths_of_survivesFile (h : SurvivesFile comments t) :
    ∀ p ∈ t.pairs, p.1.1.length + (text p.2).length ≤ 1022 := by
  obtain ⟨file, -, copy, hload, hperm⟩ := h
  obtain ⟨rs, hrun⟩ := (loadFile_new _).mp hload
  rintro ⟨k, v⟩ hp
  rcases puts_eq_some ((mem_pairs_of_run hrun k v).mp (hperm.mem_iff.mpr hp)) with hnone | hb
  · cases hnone
  · obtain ⟨buffer, hbuffer, hb⟩ := mem_filterMap.mp hb
    obtain ⟨piece, hpiece, rfl⟩ := mem_map.mp hbuffer
    have hlen := Pieces.length_le_of_mem_cut (by decide) (by decide) (by simp) hpiece
    have hbuf := length_ofBuffer_le piece
    generalize ofBuffer (piece ++ [0]) = buffer at hb hbuf
    cases hbind : binding buffer with
    | none => rw [hbind] at hb; cases hb
    | some p =>
      have hlt := length_binding hbind
      rw [hbind] at hb
      cases hb
      change p.1.1.length + p.2.1.length ≤ 1022
      omega

end

/-- A dictionary survives its file exactly when each line fits the buffer of the loader, the loop
over the buckets ends, no comment is taken for a binding of another name, and the updates of the new
table have room. -/
theorem survivesFile_iff_lines {fn : Callbacks CString CString} (hfn : fn.Lawful)
    {ops : List (TableOp CString CString)} (hops : StepsMeet step Steady (new fn) ops)
    {rs : List (Result CString)} {t : Dictionary}
    (hrun : run step (new fn) ops = .ok (rs, t))
    (hpairs : ∀ p ∈ t.pairs, p.2.isSome ∧ Printable p.1.1 (text p.2))
    (comments : Option (List CString)) :
    SurvivesFile comments t ↔ (∀ p ∈ t.pairs, p.1.1.length + (text p.2).length ≤ 1022) ∧
      t.limit < 2 ^ 32 ∧ (∀ b ∈ bindings (commentLines comments), ∃ p ∈ t.pairs, p.1 = b.1) ∧
      StepsMeet mapStep MapFits (new loadCallbacks)
        (updates (bindings (commentLines comments) ++ t.pairs)) := by
  have hreached := reached_of_run hfn hops hrun
  have hvalues : ∀ p ∈ t.pairs, p.2.isSome := fun p hp => (hpairs p hp).1
  have hsave : t.limit < 2 ^ 32 → save comments t = .ok (commentLines comments ++ body t.pairs) := by
    intro hlim
    rw [save, hreached.wf.toShape.forUint_items hlim]
    exact foldlM_saveItem (fun it hit => hvalues _ (mem_map_of_mem hit)) _
  constructor
  · intro h
    have hlen := lengths_of_survivesFile h
    obtain ⟨file, hfile, copy, hload, hperm⟩ := h
    have hlim := Loop.lt_of_forUint_eq_ok hfile
    rw [hsave hlim] at hfile
    cases hfile
    obtain ⟨rs', hrun'⟩ := (loadFile_new _).mp hload
    rw [bindings_commentLines_append, bindings_body hpairs hlen] at hrun'
    have hmem := mem_pairs_of_run hrun'
    refine ⟨hlen, hlim, ?_, stepsMeet_of_run (represents_new loadCallbacks_lawful) hrun'⟩
    rintro ⟨k, v⟩ hb
    obtain ⟨w, hw⟩ := Option.ne_none_iff_exists'.mp
      (puts_of_mem (mem_append_left t.pairs hb))
    exact ⟨(k, w), hperm.mem_iff.mp ((hmem k w).mpr hw), rfl⟩
  · rintro ⟨hlen, hlim, hcomments, hfit⟩
    obtain ⟨rs', copy, hrun', hr⟩ := run_updates (represents_new loadCallbacks_lawful) hfit
    refine ⟨_, hsave hlim, copy, (loadFile_new _).mpr ⟨rs', ?_⟩, ?_⟩
    · rw [bindings_commentLines_append, bindings_body hpairs hlen]
      exact hrun'
    · have hdistinct : t.pairs.Pairwise fun p q => p.1 ≠ q.1 :=
        hreached.wf.pairwise_pairs.imp fun {p q} hpq he => hpq (by
          rw [he]
          exact hreached.lawful.refl _)
      rw [perm_ext_iff_of_nodup (hr.wf.nodup_pairs hr.lawful)
        (hreached.wf.nodup_pairs hreached.lawful)]
      rintro ⟨k, v⟩
      rw [hr.mem_pairs_iff rfl, puts_append]
      refine ⟨fun hput => ?_, fun hp => puts_of_distinct hdistinct hp⟩
      rcases puts_eq_some hput with hbound | hp
      · -- a comment had bound the name, which a later line has bound again
        rcases puts_eq_some hbound with hnone | hb
        · cases hnone
        · obtain ⟨p, hp, hpk⟩ := hcomments _ hb
          obtain rfl : p.1 = k := hpk
          rw [puts_of_distinct hdistinct hp] at hput
          obtain rfl : p.2 = v := Option.some.inj hput
          exact hp
      · exact hp

theorem survivesFile_one_key : ∃ rs t, run step (new unpackCallbacks) (oneKey 3) = .ok (rs, t) ∧
    SurvivesFile none t := by
  refine ⟨_, _, rfl, ?_⟩
  rw [survivesFile_iff_lines unpackCallbacks_lawful (oneKey_steady 3) rfl ?_ none]
  · exact ⟨by decide, by decide, by decide,
      stepsMeet_of_run (represents_new loadCallbacks_lawful) rfl⟩
  · intro p hp
    obtain rfl : p = (.ofBuffer (replicate 3 97), some (.ofBuffer [98])) :=
      mem_singleton.mp hp
    exact ⟨rfl, by decide, by decide, by decide, by decide, by decide⟩

theorem not_survivesFile_long_value : ∃ rs t, run step (new unpackCallbacks)
    [.map (.insert (.ofBuffer [97]) (some (.ofBuffer (replicate 1023 98))))] = .ok (rs, t) ∧
      ¬ SurvivesFile none t := by
  have hvalue : (ofBuffer (replicate 1023 98)).1.length = 1023 := by decide +kernel
  obtain ⟨t, hins, -, hpairs⟩ := insert_new_pairs (.ofBuffer [97]) (.ofBuffer (replicate 1023 98))
  refine ⟨[.rc 0], t, by rw [run, step, mapStep, hins]; rfl, fun h => ?_⟩
  have hlen := lengths_of_survivesFile h
  rw [hpairs] at hlen
  have hshort := (Nat.le_add_left _ _).trans (hlen _ mem_cons_self)
  exact absurd (hvalue ▸ hshort : 1023 ≤ 1022) (by decide)

end Czmq.Zhashx
