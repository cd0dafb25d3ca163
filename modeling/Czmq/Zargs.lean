import Czmq.Zhash.Lookup
import Czmq.Zsys

/-! Command lines (`zargs.c`). -/

namespace Czmq

open List Bytes CString Zhash

/-- A pointer in the table: `ZARG_PARAM_EMPTY`, or a word of the vector, perhaps empty too. -/
inductive Param where
  | empty
  | word (word : CString)

/-- `zargs_t`, with the arguments in the order of the `zlist_append` calls. -/
structure Zargs where
  progname : CString
  arguments : List CString
  parameters : Zhash Param

namespace Zargs

def startsDash (word : CString) : Bool := word.1.head? == some 45

def dashes : CString := ofBuffer [45, 45, 0]

/-- The variables of the loop of `zargs_new`; `idx` stays in an `int`. -/
structure Scan where
  idx : Nat
  paramsOnly : Bool
  arguments : List CString
  parameters : Zhash Param

/-- One round, up to the `NULL` behind the words. An item inserted at a word gets the addresses
`site idx`. -/
def round (argv : List CString) (site : Nat → Site) (s : Scan) : Except Fault (Scan ⊕ Scan) :=
  match argv[s.idx]? with
  | none => .ok (.inr s)
  | some word =>
    if s.paramsOnly || !startsDash word then
      .ok (.inl { s with arguments := s.arguments ++ [word], idx := s.idx + 1 })
    else if word = dashes then .ok (.inl { s with paramsOnly := true, idx := s.idx + 1 })
    else
      match argv[s.idx + 1]?.filter (!startsDash ·) with
      | some value => do
        let (_, parameters) ← s.parameters.insert word (some (.word value)) (site s.idx)
        pure (.inl { s with parameters := parameters, idx := s.idx + 1 + 1 })
      | none => do
        let (_, parameters) ← s.parameters.insert word (some .empty) (site s.idx)
        pure (.inl { s with parameters := parameters, idx := s.idx + 1 })

def new (argv : List CString) (site : Nat → Site) : Except Fault Zargs :=
  match argv with
  | [] => .error .assertion
  | [progname] => .ok ⟨progname, [], Zhash.new⟩
  | progname :: _ :: _ => do
    let s ← Loop.untilDone .endlessLoop (round argv site) (argv.length + 1) ⟨1, false, [], Zhash.new⟩
    pure ⟨progname, s.arguments, s.parameters⟩

def get (self : Zargs) (name : CString) : Option CString :=
  match (self.parameters.lookup name).1 with
  | some (.word word) => some word
  | some .empty => none
  | none => none

def has (self : Zargs) (name : CString) : Bool := (self.parameters.lookup name).1.isSome

/-! ## The parts of a command line -/

/-- The words before the first `--` that is in the position of an option. -/
def before (words : List CString) : List CString := words.takeWhile (· ≠ dashes)

def after (words : List CString) : List CString := (words.dropWhile (· ≠ dashes)).tail

/-- The words that neither start with a dash nor follow one that does; `prev` comes first. -/
def loose (prev : Option CString) (words : List CString) : List CString :=
  ((words.zip (prev :: words.map some)).filter fun p =>
    !startsDash p.1 && !p.2.any startsDash).map Prod.fst

def positional (words : List CString) : List CString := loose none (before words) ++ after words

def valueOf (name : CString) (words : List CString) : Option CString :=
  words[words.idxOf name + 1]?.filter (!startsDash ·)

def given (name : CString) (words : List CString) : Option Param :=
  if startsDash name && (before words).contains name then
    some ((valueOf name words).elim .empty .word)
  else none

variable {name w v : CString} {words : List CString}

lemma ne_dashes_of_loose (h : startsDash w = false) : w ≠ dashes := by
  rintro rfl
  cases h

lemma before_cons (h : w ≠ dashes) : before (w :: words) = w :: before words :=
  takeWhile_cons_of_pos (decide_eq_true h)

lemma after_cons (h : w ≠ dashes) : after (w :: words) = after words :=
  congrArg tail (dropWhile_cons_of_pos (decide_eq_true h))

lemma loose_cons (prev : Option CString) : loose prev (w :: words) =
    (if !startsDash w && !prev.any startsDash then [w] else []) ++ loose (some w) words := by
  rw [loose, zip_cons_cons, filter_cons]
  split <;> rfl

lemma loose_eq_none (prev : Option CString)
    (h : prev.any startsDash = false ∨ ∀ x ∈ words.head?, startsDash x = true) :
    loose prev words = loose none words := by
  cases words with
  | nil => rfl
  | cons w words =>
    rw [loose_cons, loose_cons]
    rcases h with h | h
    · rw [h]
      rfl
    · rw [h w rfl]
      rfl

lemma positional_nil : positional [] = [] := rfl

lemma positional_loose (h : startsDash w = false) :
    positional (w :: words) = w :: positional words := by
  have hne := ne_dashes_of_loose h
  rw [positional, before_cons hne, after_cons hne, loose_cons, h,
    loose_eq_none (some w) (.inl h)]
  rfl

lemma positional_bare (h : startsDash w = true) (hne : w ≠ dashes)
    (hnext : ∀ x ∈ words.head?, startsDash x = true) :
    positional (w :: words) = positional words := by
  have hhead : ∀ x ∈ (before words).head?, startsDash x = true := by
    cases words with
    | nil => exact hnext
    | cons v words =>
      intro x hx
      rw [before, head?_takeWhile] at hx
      exact hnext x (Option.mem_filter_iff.mp hx).1
  rw [positional, before_cons hne, after_cons hne, loose_cons, h, loose_eq_none _ (.inr hhead)]
  rfl

lemma positional_valued (h : startsDash w = true) (hne : w ≠ dashes) (hv : startsDash v = false) :
    positional (w :: v :: words) = positional words := by
  have hv' := ne_dashes_of_loose hv
  have hw : (some w).any startsDash = true := h
  rw [positional, before_cons hne, after_cons hne, before_cons hv', after_cons hv', loose_cons,
    loose_cons, h, hw, hv, loose_eq_none (some v) (.inl hv)]
  rfl

lemma valueOf_cons_self : valueOf w (w :: words) = words.head?.filter (!startsDash ·) := by
  rw [valueOf, idxOf_cons_self, getElem?_cons_succ, head?_eq_getElem?]

lemma valueOf_cons_ne (h : name ≠ w) : valueOf name (w :: words) = valueOf name words := by
  rw [valueOf, idxOf_cons_ne _ h.symm, getElem?_cons_succ, valueOf]

lemma given_eq : given name words =
    if startsDash name = true ∧ name ∈ before words then
      some ((valueOf name words).elim .empty .word)
    else none := by
  simp only [given, Bool.and_eq_true, contains_iff_mem]

lemma given_nil : given name [] = none := by
  exact if_neg (by simp [before])

lemma given_dashes : given name (dashes :: words) = none := by
  rw [given_eq, before, takeWhile_cons_of_neg (by simp)]
  exact if_neg (by simp)

lemma given_loose (h : startsDash w = false) : given name (w :: words) = given name words := by
  have hiff : startsDash name = true ∧ name ∈ before (w :: words) ↔
      startsDash name = true ∧ name ∈ before words := by
    refine and_congr_right fun hname => ?_
    rw [before_cons (ne_dashes_of_loose h), mem_cons]
    refine or_iff_right ?_
    rintro rfl
    rw [h] at hname
    cases hname
  rw [given_eq, given_eq]
  by_cases hgiven : startsDash name = true ∧ name ∈ before words
  · have hne : name ≠ w := by
      rintro rfl
      rw [h] at hgiven
      cases hgiven.1
    rw [if_pos (hiff.mpr hgiven), if_pos hgiven, valueOf_cons_ne hne]
  · rw [if_neg (mt hiff.mp hgiven), if_neg hgiven]

lemma given_option (h : startsDash w = true) (hne : w ≠ dashes) :
    given name (w :: words) =
      if name = w then some ((words.head?.filter (!startsDash ·)).elim .empty .word)
      else given name words := by
  rw [given_eq, given_eq, before_cons hne]
  by_cases hname : name = w
  · rw [hname, if_pos ⟨h, mem_cons_self⟩, if_pos rfl, valueOf_cons_self]
  · rw [if_neg hname, valueOf_cons_ne hname]
    simp only [mem_cons, hname, false_or]

/-! ## The scan -/

section
variable {argv : List CString} {site : Nat → Site}

def PlacedBy (site : Nat → Site) (idx : Nat) (t : Zhash Param) : Prop :=
  ∀ it ∈ t.all, ∃ i < idx, identity it = ((site i).item, (site i).key)

/-- What has been found and what the words from `idx` on say are what all the words say. -/
structure Scanned (argv : List CString) (site : Nat → Site) (s : Scan) : Prop where
  filed : s.parameters.Filed
  placedBy : PlacedBy site s.idx s.parameters
  size_le : s.parameters.size ≤ s.idx
  autofree : s.parameters.autofree = false
  arguments : s.arguments ++
    (if s.paramsOnly then argv.drop s.idx else positional (argv.drop s.idx)) = positional argv.tail
  bindings : ∀ name, (s.parameters.bindings name).or
    (if s.paramsOnly then none else (given name (argv.drop s.idx)).map some) =
      (given name argv.tail).map some

lemma scanned_init : Scanned argv site ⟨1, false, [], Zhash.new⟩ where
  filed := filed_new
  placedBy it hit := by simp [Zhash.all, Zhash.new] at hit
  size_le := Nat.zero_le _
  autofree := rfl
  arguments := by simp
  bindings name := by simp [bindings_new]

lemma PlacedBy.unused {idx : Nat} {t : Zhash Param} (h : PlacedBy site idx t)
    (hitem : Function.Injective fun i => (site i).item)
    (hkey : Function.Injective fun i => (site i).key) : t.unused (site idx) = true := by
  rw [unused_iff]
  constructor
  · intro it hit he
    obtain ⟨i, hi, hid⟩ := h it hit
    have hsame : i = idx := hitem ((congrArg Prod.fst hid).symm.trans he)
    omega
  · intro it hit he
    obtain ⟨i, hi, hid⟩ := h it hit
    have hsame : i = idx := hkey ((congrArg Prod.snd hid).symm.trans he)
    omega

variable (hitem : Function.Injective fun i => (site i).item)
  (hkey : Function.Injective fun i => (site i).key)

include hitem hkey

lemma Scanned.store {s : Scan} (h : Scanned argv site s) (hidx : s.idx ≤ intMax)
    (hmode : s.paramsOnly = false) (word : CString) (param : Param) {idx' : Nat} (hlt : s.idx < idx')
    (hpositional : positional (argv.drop s.idx) = positional (argv.drop idx'))
    (hgiven : ∀ name, given name (argv.drop s.idx) =
      if name = word then some param else given name (argv.drop idx')) :
    ∃ rc t, s.parameters.insert word (some param) (site s.idx) = .ok (rc, t) ∧
      Scanned argv site ⟨idx', false, s.arguments, t⟩ := by
  have hsize : s.parameters.size < capacity := by
    have hle := h.size_le
    unfold intMax at hidx
    unfold capacity
    omega
  have hunused := h.placedBy.unused hitem hkey
  obtain ⟨⟨rc, t⟩, he⟩ : ∃ r, s.parameters.insert word (some param) (site s.idx) = .ok r :=
    (h.filed.exists_insert_iff hunused fun _ => rfl).mpr hsize
  obtain ⟨hfiled, hbindings, hauto, -, hgrown⟩ := h.filed.insert he
  refine ⟨rc, t, he, hfiled, fun it hit => ?_, ?_, hauto.trans h.autofree, ?_, fun name => ?_⟩
  · rcases h.filed.sound.insert_identity he it hit with hold | hnew
    · obtain ⟨x, hx, hsame⟩ := mem_map.mp hold
      obtain ⟨i, hi, hid⟩ := h.placedBy x hx
      exact ⟨i, hi.trans hlt, hsame.symm.trans hid⟩
    · exact ⟨s.idx, hlt, hnew⟩
  · exact hgrown.trans ((Nat.succ_le_succ h.size_le).trans hlt)
  · rw [← h.arguments, hmode, hpositional]
    rfl
  · show (t.bindings name).or ((given name (argv.drop idx')).map some) = _
    rw [← h.bindings name, hmode, hgiven, hbindings, bindFirst_or]
    split <;> rfl

lemma Scanned.round {s : Scan} (h : Scanned argv site s) (hlen : argv.length ≤ intMax) :
    (argv[s.idx]? = none ∧ round argv site s = .ok (.inr s)) ∨
      ∃ s', round argv site s = .ok (.inl s') ∧ Scanned argv site s' ∧
        argv.length - s'.idx < argv.length - s.idx := by
  unfold Zargs.round
  cases hword : argv[s.idx]? with
  | none => exact .inl ⟨rfl, rfl⟩
  | some word =>
    right
    obtain ⟨hlt, rfl⟩ := List.getElem?_eq_some_iff.mp hword
    have hdrop := drop_eq_getElem_cons hlt
    generalize argv[s.idx] = word at hdrop
    have harguments := h.arguments
    have hbindings := h.bindings
    have hplaced : PlacedBy site (s.idx + 1) s.parameters := fun it hit =>
      (h.placedBy it hit).imp fun i hi => ⟨hi.1.trans (Nat.lt_succ_self _), hi.2⟩
    have hsize := h.size_le.trans (Nat.le_succ s.idx)
    have hless : argv.length - (s.idx + 1) < argv.length - s.idx := by omega
    dsimp only
    cases hmode : s.paramsOnly with
    | true =>
      rw [hdrop, hmode] at harguments hbindings
      refine ⟨_, rfl, ⟨h.filed, hplaced, hsize, h.autofree, ?_, hbindings⟩, hless⟩
      rw [append_assoc, ← harguments]
      rfl
    | false =>
      rw [hdrop, hmode] at harguments hbindings
      by_cases hdash : startsDash word = false
      · -- an argument
        rw [positional_loose hdash] at harguments
        simp only [given_loose hdash] at hbindings
        rw [hdash]
        refine ⟨_, rfl, ⟨h.filed, hplaced, hsize, h.autofree, ?_, hbindings⟩, hless⟩
        rw [append_assoc, ← harguments]
        rfl
      rw [Bool.not_eq_false] at hdash
      rw [hdash]
      by_cases hdashes : word = dashes
      · -- the words behind are arguments
        subst hdashes
        simp only [given_dashes] at hbindings
        exact ⟨_, rfl, ⟨h.filed, hplaced, hsize, h.autofree, harguments, hbindings⟩, hless⟩
      rw [if_neg hdashes,
        show argv[s.idx + 1]? = (argv.drop (s.idx + 1)).head? from head?_drop.symm]
      cases hnext : (argv.drop (s.idx + 1)).head?.filter (!startsDash ·) with
      | some value =>
        -- an option with its value
        obtain ⟨hvalue, hloose⟩ := Option.filter_eq_some_iff.mp hnext
        rw [Bool.not_eq_true'] at hloose
        have hrest := eq_cons_of_mem_head? hvalue
        rw [tail_drop] at hrest
        obtain ⟨rc, t, he, hs'⟩ := h.store hitem hkey (hlt.le.trans hlen) hmode word (.word value)
          ((Nat.lt_succ_self _).trans (Nat.lt_succ_self (s.idx + 1)))
          (by rw [hdrop, hrest, positional_valued hdash hdashes hloose])
          (fun name => by
            rw [hdrop, given_option hdash hdashes, hnext, hrest, given_loose hloose]
            rfl)
        dsimp only
        rw [he]
        refine ⟨_, rfl, hs', ?_⟩
        show argv.length - (s.idx + 1 + 1) < _
        omega
      | none =>
        -- an option without a value
        have hbare : ∀ x ∈ (argv.drop (s.idx + 1)).head?, startsDash x = true := fun x hx => by
          simpa using Option.filter_eq_none_iff.mp hnext x hx
        obtain ⟨rc, t, he, hs'⟩ := h.store hitem hkey (hlt.le.trans hlen) hmode word .empty
          (Nat.lt_succ_self s.idx) (by rw [hdrop, positional_bare hdash hdashes hbare])
          (fun name => by
            rw [hdrop, given_option hdash hdashes, hnext]
            rfl)
        rw [he]
        exact ⟨_, rfl, hs', hless⟩

lemma exists_new (hlen : argv.length ≤ intMax) (hargc : argv ≠ []) :
    ∃ self s, new argv site = .ok self ∧ argv.head? = some self.progname ∧ Scanned argv site s ∧
      argv[s.idx]? = none ∧ self.arguments = s.arguments ∧ self.parameters = s.parameters := by
  rcases argv with _ | ⟨progname, _ | ⟨word, words⟩⟩
  · exact absurd rfl hargc
  · exact ⟨_, _, rfl, rfl, scanned_init, rfl, rfl, rfl⟩
  · obtain ⟨s, hs, hscanned, hend⟩ := Loop.untilDone_rule (Scanned (progname :: word :: words) site)
      (fun s => Scanned _ site s ∧ _[s.idx]? = none) (fun s => (word :: words).length + 1 - s.idx)
      (fun s hs => (hs.round hitem hkey hlen).imp_left fun hend => ⟨s, hend.2, hs, hend.1⟩)
      scanned_init (Nat.lt_succ_of_le (Nat.sub_le _ _))
    exact ⟨_, s, bind_eq_ok.mpr ⟨s, hs, rfl⟩, rfl, hscanned, hend, rfl, rfl⟩

end

/-- The arguments are the words after `--` and those before it that are no options or values. A
parameter is there if its name is an option, with the value behind the first one. -/
theorem new_partitions (argv : List CString) (hargc : argv ≠ []) (hlen : argv.length ≤ intMax)
    (site : Nat → Site) (hitem : Function.Injective fun i => (site i).item)
    (hkey : Function.Injective fun i => (site i).key) :
    ∃ self, new argv site = .ok self ∧ argv.head? = some self.progname ∧
      self.arguments = loose none (before argv.tail) ++ after argv.tail ∧
      (∀ name, self.has name = true ↔ startsDash name = true ∧ name ∈ before argv.tail) ∧
      ∀ name, self.get name =
        if startsDash name = true ∧ name ∈ before argv.tail then valueOf name argv.tail
        else none := by
  obtain ⟨self, s, hnew, hprogname, hs, hend, harguments, hparameters⟩ :=
    exists_new hitem hkey hlen hargc
  have hrest : argv.drop s.idx = [] := drop_eq_nil_of_le (getElem?_eq_none_iff.mp hend)
  have hlookup : ∀ name, (self.parameters.lookup name).1 = given name argv.tail := by
    intro name
    have hname := hs.bindings name
    rw [hrest, given_nil, Option.map_none, ite_self, Option.or_none] at hname
    rw [hparameters, hs.filed.lookup_eq, hname]
    cases given name argv.tail <;> rfl
  refine ⟨self, hnew, hprogname, ?_, fun name => ?_, fun name => ?_⟩
  · have hpositional := hs.arguments
    rw [hrest, positional_nil, ite_self, append_nil] at hpositional
    exact harguments.trans hpositional
  · rw [has, hlookup, given_eq]
    split
    · next h => exact iff_of_true rfl h
    · next h => exact iff_of_false Bool.false_ne_true h
  · rw [get, hlookup, given_eq]
    by_cases h : startsDash name = true ∧ name ∈ before argv.tail
    · rw [if_pos h, if_pos h]
      cases valueOf name argv.tail <;> rfl
    · rw [if_neg h, if_neg h]

def sampleArgv : List CString :=
  [ofBuffer [99, 109, 100, 0], ofBuffer [102, 105, 108, 101, 0],
    ofBuffer [45, 120, 0], ofBuffer [49, 0], ofBuffer [45, 118, 0],
    ofBuffer [45, 120, 0], ofBuffer [50, 0], dashes, ofBuffer [45, 121, 0]]

theorem new_partitions_sample :
    ∃ self, new sampleArgv (fun i => ⟨2 * i, 2 * i + 1⟩) = .ok self ∧
      self.arguments = [ofBuffer [102, 105, 108, 101, 0], ofBuffer [45, 121, 0]] ∧
      self.has (ofBuffer [45, 118, 0]) = true ∧
      self.get (ofBuffer [45, 118, 0]) = none ∧
      self.get (ofBuffer [45, 120, 0]) = some (ofBuffer [49, 0]) := by
  obtain ⟨self, hnew, -, harguments, hhas, hget⟩ := new_partitions sampleArgv (by decide) (by decide)
    (fun i => ⟨2 * i, 2 * i + 1⟩) (fun i j hij => Nat.eq_of_mul_eq_mul_left two_pos hij)
    (fun i j hij => Nat.eq_of_mul_eq_mul_left two_pos (Nat.succ.inj hij))
  refine ⟨self, hnew, harguments.trans ?_, (hhas _).mpr ?_, (hget _).trans ?_, (hget _).trans ?_⟩
  · decide +kernel
  · decide +kernel
  · decide +kernel
  · decide +kernel

end Zargs

end Czmq
