import Czmq.Zcert.Certificate
import Czmq.Zhash.Lookup

/-! The metadata of a certificate, in a `zhash_t` that copies its values. A name that is set again
keeps its text, as `zhash_insert` does not touch an item that is there. -/

namespace Czmq.Metadata

open Function Zhash

open Bytes Machine
open Zconfig (cut zsysVprintf_eq_ok_iff)

def new : Zhash (List UInt8) := { Zhash.new with autofree := true }

def zcertSetMeta (metadata : Zhash (List UInt8)) (name text : CString) (site : Site) :
    Except Fault (Zhash (List UInt8)) := do
  let value ← zsysVprintf text.1
  let (_, metadata) ← metadata.insert name (some value) site
  pure metadata

def zcertUnsetMeta (metadata : Zhash (List UInt8)) (name : CString) :
    Except Fault (Zhash (List UInt8)) := metadata.delete name

def zcertMeta (metadata : Zhash (List UInt8)) (name : CString) : Option (List UInt8) :=
  (metadata.lookup name).1

inductive Op where
  | set (name text : CString) (site : Site)
  | unset (name : CString)

def step (metadata : Zhash (List UInt8)) : Op → Except Fault (Unit × Zhash (List UInt8))
  | .set name text site => do
    let metadata ← zcertSetMeta metadata name text site
    pure ((), metadata)
  | .unset name => do
    let metadata ← zcertUnsetMeta metadata name
    pure ((), metadata)

def Fresh (metadata : Zhash (List UInt8)) : Op → Prop
  | .set _ _ site => metadata.unused site = true
  | .unset _ => True

/-- The length plus one is an `int`, and the table has room. -/
def Storable (metadata : Zhash (List UInt8)) : Op → Prop
  | .set _ text _ => text.1.length ≠ intMax ∧ metadata.size < capacity
  | .unset _ => True

def written (texts : CString → List (List UInt8)) : Op → CString → List (List UInt8)
  | .set name text _ => update texts name (texts name ++ [text.1])
  | .unset name => update texts name []

def since (ops : List Op) : CString → List (List UInt8) := ops.foldl written fun _ => []

def LastWriteWins (ops : List Op) : Prop :=
  ∃ rs metadata, run step new ops = .ok (rs, metadata) ∧
    ∀ name, zcertMeta metadata name = (since ops name).getLast?

structure Keeps (metadata : Zhash (List UInt8)) (texts : CString → List (List UInt8)) : Prop where
  filed : metadata.Filed
  autofree : metadata.autofree = true
  bindings_eq : ∀ name, metadata.bindings name = (texts name).head?.map fun text => some (cut text)

variable {metadata metadata' : Zhash (List UInt8)} {texts : CString → List (List UInt8)}

lemma keeps_new : Keeps new fun _ => [] := by
  refine ⟨filed_new.congr rfl rfl rfl fun _ ha => ha, rfl, fun name => ?_⟩
  rw [show new.bindings = (Zhash.new : Zhash (List UInt8)).bindings from rfl,
    bindings_new]
  rfl

lemma Keeps.zcertMeta_eq (h : Keeps metadata texts) (name : CString) :
    zcertMeta metadata name = (texts name).head?.map cut := by
  show (metadata.lookup name).1 = _
  rw [h.filed.lookup_eq, h.bindings_eq]
  cases (texts name).head? <;> rfl

variable {name : CString}

lemma Keeps.set (h : Keeps metadata texts) {text : CString} {site : Site}
    (he : zcertSetMeta metadata name text site = .ok metadata') :
    Keeps metadata' (written texts (.set name text site)) := by
  obtain ⟨value, hvalue, he⟩ := bind_eq_ok.mp he
  obtain ⟨⟨rc, metadata1⟩, hinsert, hpure⟩ := bind_eq_ok.mp he
  cases hpure
  obtain ⟨-, rfl⟩ := zsysVprintf_eq_ok_iff.mp hvalue
  obtain ⟨hfiled, hbindings, hauto, -⟩ := h.filed.insert hinsert
  refine ⟨hfiled, hauto.trans h.autofree, fun k => ?_⟩
  have hname := h.bindings_eq name
  rw [hbindings, bindFirst, written]
  by_cases hk : k = name
  · subst hk
    rw [update_self]
    cases htexts : texts k with
    | nil =>
      have hnone : metadata.bindings k = none := hname.trans (by rw [htexts]; rfl)
      rw [if_pos hnone, update_self]
      rfl
    | cons first rest =>
      have hsome : metadata.bindings k = some (some (cut first)) := hname.trans (by rw [htexts]; rfl)
      rw [if_neg (hsome ▸ Option.some_ne_none _), hsome]
      rfl
  · rw [update_of_ne hk]
    split
    · rw [update_of_ne hk, h.bindings_eq]
    · exact h.bindings_eq k

def Lists (self : Zcert) (metadata : Zhash (List UInt8)) : Prop :=
  ∀ name : CString, metadata.bindings name = (self.metadata.lookup name.1).map some

lemma lookup_eq_none_iff {l : List (List UInt8 × List UInt8)} {name : List UInt8} :
    l.lookup name = none ↔ l.any (fun entry => entry.1 == name) = false := by
  rw [List.lookup_eq_none_iff, List.any_eq_false]
  refine forall₂_congr fun entry _ => ?_
  rw [bne_iff_ne, beq_iff_eq]
  exact ne_comm

lemma Lists.setMeta {self : Zcert} (h : Lists self metadata) (hfiled : metadata.Filed)
    {text : CString} {site : Site}
    (he : zcertSetMeta metadata name text site = .ok metadata') :
    ∃ self', self.setMeta name.1 text.1 = .ok self' ∧ Lists self' metadata' := by
  obtain ⟨value, hvalue, he⟩ := bind_eq_ok.mp he
  obtain ⟨⟨rc, metadata1⟩, hinsert, hpure⟩ := bind_eq_ok.mp he
  cases hpure
  obtain ⟨-, hbindings, -⟩ := hfiled.insert hinsert
  refine ⟨_, bind_eq_ok.mpr ⟨value, hvalue, rfl⟩, fun k => ?_⟩
  rw [hbindings, bindFirst]
  have hname := h name
  cases hany : self.metadata.any fun entry => entry.1 == name.1 with
  | true =>
    have hbound : metadata.bindings name ≠ none := by
      rw [hname, ne_eq, Option.map_eq_none_iff, lookup_eq_none_iff, hany]
      exact fun hfalse => Bool.noConfusion hfalse
    rw [if_neg hbound]
    exact h k
  | false =>
    have hlookup := lookup_eq_none_iff.mpr hany
    rw [hlookup] at hname
    rw [if_pos (show metadata.bindings name = none from hname), if_neg Bool.false_ne_true,
      List.lookup_append]
    by_cases hk : k = name
    · rw [hk, hlookup]
      simp
    · have hne : (k.1 == name.1) = false := beq_false_of_ne fun hsame => hk (Subtype.ext hsame)
      rw [update_of_ne hk, h k]
      simp [hne]

lemma Keeps.unset (h : Keeps metadata texts) (he : zcertUnsetMeta metadata name = .ok metadata') :
    Keeps metadata' (written texts (.unset name)) := by
  obtain ⟨metadata1, hdelete, hfiled, hbindings, hauto, -⟩ := h.filed.delete name
  obtain rfl := Except.ok.inj (hdelete.symm.trans he)
  refine ⟨hfiled, hauto.trans h.autofree, fun k => ?_⟩
  rw [hbindings, written]
  by_cases hk : k = name
  · rw [hk, update_self, update_self]
    rfl
  · rw [update_of_ne hk, update_of_ne hk]
    exact h.bindings_eq k

lemma Keeps.step (h : Keeps metadata texts) {op : Op} {r : Unit}
    (he : step metadata op = .ok (r, metadata')) : Keeps metadata' (written texts op) := by
  cases op with
  | set name text site =>
    obtain ⟨metadata1, hset, hpure⟩ := bind_eq_ok.mp he
    cases hpure
    exact h.set hset
  | unset name =>
    obtain ⟨metadata1, hunset, hpure⟩ := bind_eq_ok.mp he
    cases hpure
    exact h.unset hunset

lemma Keeps.run (h : Keeps metadata texts) {ops : List Op} {rs : List Unit}
    (hrun : Machine.run Metadata.step metadata ops = .ok (rs, metadata')) :
    Keeps metadata' (ops.foldl written texts) := by
  induction ops generalizing metadata texts rs with
  | nil =>
    cases hrun
    exact h
  | cons op ops ih =>
    obtain ⟨r, metadata1, rs', he, hrest, -⟩ := run_cons_eq_ok hrun
    exact ih (h.step he) hrest

lemma Keeps.exists_step_iff (h : Keeps metadata texts) {op : Op} (hfresh : Fresh metadata op) :
    (∃ r, Metadata.step metadata op = .ok r) ↔ Storable metadata op := by
  cases op with
  | set name text site =>
    have hinsert : ∀ value, (∃ r, metadata.insert name (some value) site = .ok r) ↔
        metadata.size < capacity := fun _ => h.filed.exists_insert_iff hfresh fun _ => rfl
    constructor
    · rintro ⟨r, he⟩
      obtain ⟨metadata1, hset, -⟩ := bind_eq_ok.mp he
      obtain ⟨value, hvalue, hset⟩ := bind_eq_ok.mp hset
      obtain ⟨p, hp, -⟩ := bind_eq_ok.mp hset
      exact ⟨(zsysVprintf_eq_ok_iff.mp hvalue).1, (hinsert value).mp ⟨p, hp⟩⟩
    · rintro ⟨hlength, hsize⟩
      obtain ⟨p, hp⟩ := (hinsert (cut text.1)).mpr hsize
      have hvalue := zsysVprintf_eq_ok_iff.mpr ⟨hlength, rfl⟩
      have hset : zcertSetMeta metadata name text site = .ok p.2 :=
        bind_eq_ok.mpr ⟨_, hvalue, bind_eq_ok.mpr ⟨p, hp, rfl⟩⟩
      exact ⟨_, bind_eq_ok.mpr ⟨_, hset, rfl⟩⟩
  | unset name =>
    obtain ⟨metadata1, hdelete, -⟩ := h.filed.delete name
    exact iff_of_true ⟨_, bind_eq_ok.mpr ⟨_, hdelete, rfl⟩⟩ trivial

lemma Keeps.exists_run_iff (h : Keeps metadata texts) {ops : List Op}
    (hfresh : StepsMeet Metadata.step Fresh metadata ops) :
    (∃ r, Machine.run Metadata.step metadata ops = .ok r) ↔
      StepsMeet Metadata.step Storable metadata ops := by
  induction ops generalizing metadata texts with
  | nil => exact iff_of_true ⟨_, rfl⟩ (stepsMeet_nil _)
  | cons op ops ih =>
    constructor
    · rintro ⟨⟨rs, metadata'⟩, hrun⟩
      obtain ⟨r, metadata1, rs', he, hrest, -⟩ := run_cons_eq_ok hrun
      refine StepsMeet.cons ((h.exists_step_iff hfresh.head).mp ⟨_, he⟩) fun r1 metadata2 he1 => ?_
      obtain ⟨-, rfl⟩ := Prod.mk.inj (Except.ok.inj (he.symm.trans he1))
      exact (ih (h.step he) (hfresh.tail he)).mp ⟨_, hrest⟩
    · intro hmeet
      obtain ⟨⟨r, metadata1⟩, he⟩ := (h.exists_step_iff hfresh.head).mpr hmeet.head
      obtain ⟨p, hrest⟩ := (ih (h.step he) (hfresh.tail he)).mpr (hmeet.tail he)
      refine ⟨(r :: p.1, p.2), ?_⟩
      rw [run_cons_ok he, hrest]
      rfl

/-- The last write wins where the texts of a name, since it was last unset, end as they began: the
first is kept. -/
theorem lastWriteWins_iff {ops : List Op} (hfresh : StepsMeet step Fresh new ops) :
    LastWriteWins ops ↔ StepsMeet step Storable new ops ∧
      ∀ name, ∀ first ∈ (since ops name).head?, (since ops name).getLast? = some (cut first) := by
  -- an empty list of texts has neither a first nor a last
  have hsame : ∀ l : List (List UInt8),
      l.head?.map cut = l.getLast? ↔ ∀ first ∈ l.head?, l.getLast? = some (cut first) := by
    intro l
    cases l with
    | nil => simp
    | cons first rest => simp [eq_comm]
  constructor
  · rintro ⟨rs, metadata, hrun, hmeta⟩
    refine ⟨(keeps_new.exists_run_iff hfresh).mp ⟨_, hrun⟩, fun name => (hsame _).mp ?_⟩
    rw [← hmeta]
    exact ((keeps_new.run hrun).zcertMeta_eq name).symm
  · rintro ⟨hmeet, hlast⟩
    obtain ⟨⟨rs, metadata⟩, hrun⟩ := (keeps_new.exists_run_iff hfresh).mpr hmeet
    refine ⟨rs, metadata, hrun, fun name => ?_⟩
    rw [(keeps_new.run hrun).zcertMeta_eq name]
    exact (hsame _).mpr (hlast name)

instance (op : Op) : Decidable (Fresh metadata op) :=
  match op with
  | .set _ _ site => inferInstanceAs (Decidable (metadata.unused site = true))
  | .unset _ => isTrue trivial

instance (op : Op) : Decidable (Storable metadata op) :=
  match op with
  | .set _ text _ =>
    inferInstanceAs (Decidable (text.1.length ≠ intMax ∧ metadata.size < capacity))
  | .unset _ => isTrue trivial

def sampleName : CString := CString.ofBuffer [110, 0]

def sampleText : CString := CString.ofBuffer [97, 0]

def otherText : CString := CString.ofBuffer [98, 0]

/-- The name is unset before it gets another text. -/
theorem lastWriteWins_unset :
    LastWriteWins [.set sampleName sampleText ⟨1, 2⟩, .unset sampleName,
      .set sampleName otherText ⟨3, 4⟩] := by
  have hsince : since [.set sampleName sampleText ⟨1, 2⟩, .unset sampleName,
      .set sampleName otherText ⟨3, 4⟩] = update (fun _ => []) sampleName [otherText.1] := by
    simp [since, written]
  refine (lastWriteWins_iff (stepsMeet_of_checkSteps (by decide +kernel))).mpr
    ⟨stepsMeet_of_checkSteps (by decide +kernel), fun name => ?_⟩
  rw [hsince]
  by_cases hname : name = sampleName
  · rw [hname]
    decide +kernel
  · rw [update_of_ne hname]
    simp

/-- The second text of a name is dropped. -/
theorem second_write_lost :
    (run step new [.set sampleName sampleText ⟨1, 2⟩, .set sampleName otherText ⟨3, 4⟩]).map
        (fun p => zcertMeta p.2 sampleName) = .ok (some sampleText.1) ∧
      (since [.set sampleName sampleText ⟨1, 2⟩, .set sampleName otherText ⟨3, 4⟩]
        sampleName).getLast? = some otherText.1 ∧
      sampleText.1 ≠ otherText.1 := by
  refine ⟨by decide +kernel, by simp [since, written], by decide⟩

end Czmq.Metadata
