import Czmq.Zconfig.Zpl

/-! The saved text in closed form: the texts of the items in the order of the outline, each as
`zsys_vprintf` gives it. -/

namespace Czmq.Zconfig

open List

def cut (text : List UInt8) : List UInt8 := if text.length < intMax then text else text.take 255

def printed (texts : List (List UInt8)) : List UInt8 := texts.flatMap cut

def commentTexts (a : Property) : List (List UInt8) :=
  match a.comments with
  | some comments => comments.map commentLine ++ [[newline]]
  | none => []

def itemTexts (x : Nat × Property) : List (List UInt8) :=
  commentTexts x.2 ++ [itemBody x.2 (x.1 * 4) ++ [newline]]

def texts (a : Property) (child : Zconfig) : List (List UInt8) :=
  commentTexts a ++ (child.outline 0).flatMap itemTexts

def Sayable (ts : List (List UInt8)) : Prop := ∀ t ∈ ts, t.length ≠ intMax

def ItemSayable (x : Nat × Property) : Prop := x.1 * 4 ≤ intMax ∧ Sayable (itemTexts x)

lemma Chunk.append_append (c : Chunk) (a b : List UInt8) :
    (c.append a).append b = c.append (a ++ b) := by
  simp only [append, append_assoc, length_append, length_take, take_append]
  congr 4
  omega

@[simp] lemma Chunk.append_nil (c : Chunk) : c.append [] = c := by simp [append]

lemma zsysVprintf_eq_ok_iff {text s : List UInt8} :
    zsysVprintf text = .ok s ↔ text.length ≠ intMax ∧ s = cut text := by
  rw [zsysVprintf, cut]
  split
  · next h =>
    rw [Except.ok.injEq, eq_comm]
    exact ⟨fun he => ⟨by omega, he⟩, fun he => he.2⟩
  · split
    · next h => simp [h]
    · next h => simp [h, eq_comm]

lemma printed_append (ts us : List (List UInt8)) : printed (ts ++ us) = printed ts ++ printed us :=
  flatMap_append

lemma addInt_eq_ok_iff {a b n : Nat} : addInt a b = .ok n ↔ a + b ≤ intMax ∧ n = a + b := by
  rw [addInt]
  split
  · next h => simp [h, eq_comm]
  · next h => simp [h]

def after (ts : List (List UInt8)) (s : Nat × Option Chunk) : Nat × Option Chunk :=
  (s.1 + (printed ts).length, s.2.map (·.append (printed ts)))

lemma after_append (ts us : List (List UInt8)) (s : Nat × Option Chunk) :
    after (ts ++ us) s = after us (after ts s) := by
  simp only [after, printed_append, length_append, Nat.add_assoc]
  congr 1
  cases s.2 with
  | none => rfl
  | some c => simp [Chunk.append_append]

@[simp] lemma after_nil (s : Nat × Option Chunk) : after [] s = s := by
  obtain ⟨n, c⟩ := s
  cases c <;> simp [after, printed]

/-- A printing step returns exactly when `P` holds and the size is an `int`, with the texts printed.
-/
def Prints (P : Prop) (ts : List (List UInt8)) (s : Nat × Option Chunk)
    (r : Except Fault (Nat × Option Chunk)) : Prop :=
  ∀ s', r = .ok s' ↔ P ∧ (after ts s).1 ≤ intMax ∧ s' = after ts s

section
variable {P Q : Prop} {ts us : List (List UInt8)} {s : Nat × Option Chunk}
  {r : Except Fault (Nat × Option Chunk)}

lemma prints_nil (hs : s.1 ≤ intMax) : Prints True [] s (.ok s) := by
  intro s'
  rw [after_nil, Except.ok.injEq, eq_comm]
  exact ⟨fun h => ⟨trivial, hs, h⟩, fun h => h.2.2⟩

lemma Prints.congr (h : Prints P ts s r) (hPQ : P ↔ Q) : Prints Q ts s r := fun s' => by
  rw [h s', hPQ]

lemma Prints.bind {k : Nat × Option Chunk → Except Fault (Nat × Option Chunk)}
    (h : Prints P ts s r)
    (hk : (after ts s).1 ≤ intMax → Prints Q us (after ts s) (k (after ts s))) :
    Prints (P ∧ Q) (ts ++ us) s (r >>= k) := by
  intro s'
  rw [bind_eq_ok, after_append]
  constructor
  · rintro ⟨s1, hr, hs'⟩
    obtain ⟨hP, hle, rfl⟩ := (h s1).mp hr
    obtain ⟨hQ, hle', rfl⟩ := (hk hle s').mp hs'
    exact ⟨⟨hP, hQ⟩, hle', rfl⟩
  · rintro ⟨⟨hP, hQ⟩, hle, rfl⟩
    have hle1 : (after ts s).1 ≤ intMax := le_trans (Nat.le_add_right _ _) hle
    exact ⟨after ts s, (h _).mpr ⟨hP, hle1, rfl⟩, (hk hle1 _).mpr ⟨hQ, hle, rfl⟩⟩

lemma Prints.addInt {n : Nat} {arg : Option Chunk} (h : Prints P ts (0, arg) r) :
    Prints P ts (n, arg) (r >>= fun x => do
      let size ← Zconfig.addInt n x.1
      pure (size, x.2)) := by
  intro s'
  have hafter : after ts (n, arg) = (n + (after ts (0, arg)).1, (after ts (0, arg)).2) := by
    simp [after]
  rw [bind_eq_ok, hafter]
  constructor
  · rintro ⟨x, hr, hs'⟩
    obtain ⟨hP, hle, rfl⟩ := (h x).mp hr
    obtain ⟨size, hsize, hs'⟩ := bind_eq_ok.mp hs'
    obtain ⟨hle', rfl⟩ := addInt_eq_ok_iff.mp hsize
    cases hs'
    exact ⟨hP, hle', rfl⟩
  · rintro ⟨hP, hle, rfl⟩
    refine ⟨after ts (0, arg), (h _).mpr ⟨hP, le_trans (Nat.le_add_left _ _) hle, rfl⟩, ?_⟩
    rw [addInt_eq_ok_iff.mpr ⟨hle, rfl⟩]
    rfl

lemma prints_printOne (s : Nat × Option Chunk) (text : List UInt8) :
    Prints (text.length ≠ intMax) [text] s (printOne s text) := by
  have hprint : Prints (text.length ≠ intMax) [text] (0, s.2) (configPrintf s.2 text) := by
    intro s'
    rw [configPrintf, bind_eq_ok]
    constructor
    · rintro ⟨string, hstring, hs'⟩
      obtain ⟨hne, rfl⟩ := zsysVprintf_eq_ok_iff.mp hstring
      cases hs'
      refine ⟨hne, ?_, by simp [after, printed]⟩
      simp only [after, printed, flatMap_singleton, cut]
      split
      · omega
      · rw [length_take, intMax]
        omega
    · rintro ⟨hne, -, rfl⟩
      exact ⟨cut text, zsysVprintf_eq_ok_iff.mpr ⟨hne, rfl⟩, by simp [after, printed]; rfl⟩
  exact hprint.addInt

lemma prints_foldlM (ts : List (List UInt8)) (hs : s.1 ≤ intMax) :
    Prints (Sayable ts) ts s (ts.foldlM printOne s) := by
  induction ts generalizing s with
  | nil => exact (prints_nil hs).congr (by simp [Sayable])
  | cons t ts ih =>
    refine ((prints_printOne s t).bind fun hle => ih hle).congr ?_
    rw [Sayable, Sayable, forall_mem_cons]

end

lemma zero_le_intMax : (0 : Nat) ≤ intMax := Nat.zero_le _

lemma prints_configSave {P : Prop} {us : List (List UInt8)} (a : Property) (arg : Option Chunk)
    (level : Nat) (hline : (after (commentTexts a) (0, arg)).1 ≤ intMax →
      Prints P us (after (commentTexts a) (0, arg)) (if level > 0 then
        if (level - 1) * 4 ≤ intMax then
          printOne (after (commentTexts a) (0, arg)) (itemBody a ((level - 1) * 4) ++ [newline])
        else .error .overflow
      else .ok (after (commentTexts a) (0, arg)))) :
    Prints (Sayable (commentTexts a) ∧ P) (commentTexts a ++ us) (0, arg)
      (configSave a arg level) := by
  rw [configSave]
  rw [commentTexts] at hline ⊢
  cases hc : a.comments with
  | none =>
    rw [hc] at hline
    refine Prints.bind ((prints_nil zero_le_intMax).congr ?_) ?_
    · simp [Sayable]
    · exact hline
  | some comments =>
    rw [hc] at hline
    refine Prints.bind (prints_foldlM _ zero_le_intMax) ?_
    exact hline

lemma prints_item (a : Property) (arg : Option Chunk) (l : Nat) :
    Prints (ItemSayable (l, a)) (itemTexts (l, a)) (0, arg) (configSave a arg (l + 1)) := by
  have hline : ∀ s, Prints (l * 4 ≤ intMax ∧ (itemBody a (l * 4) ++ [newline]).length ≠ intMax)
      [itemBody a (l * 4) ++ [newline]] s (if l + 1 > 0 then
        if (l + 1 - 1) * 4 ≤ intMax then printOne s (itemBody a ((l + 1 - 1) * 4) ++ [newline])
        else .error .overflow
      else .ok s) := by
    intro s
    rw [Nat.add_sub_cancel]
    by_cases hwidth : l * 4 ≤ intMax
    · rw [if_pos hwidth]
      exact (prints_printOne s _).congr (by simp [hwidth])
    ·
      intro s'
      simp [hwidth]
  refine (prints_configSave a arg (l + 1) fun _ => hline _).congr ?_
  rw [ItemSayable, itemTexts, Sayable, Sayable, forall_mem_append, forall_mem_singleton]
  tauto

lemma prints_execute (l : Nat) (f : Zconfig) {s : Nat × Option Chunk} (hs : s.1 ≤ intMax) :
    Prints (∀ x ∈ f.outline l, ItemSayable x) ((f.outline l).flatMap itemTexts) s
      (configExecute configSave (l + 1) f s) := by
  induction f generalizing l s with
  | nil => exact (prints_nil hs).congr (by simp [Forest.outline])
  | node a child next ihc ihn =>
    obtain ⟨n, arg⟩ := s
    have hown := ((prints_item a arg l).bind fun hle => ihc (l + 1) hle).addInt (n := n)
    have hall := hown.bind fun hle => ihn l hle
    rw [Forest.outline, flatMap_cons, flatMap_append, ← append_assoc]
    simp only [bind_assoc] at hall
    refine Prints.congr hall ?_
    rw [forall_mem_cons, forall_mem_append, and_assoc]

lemma prints_executeRoot (a : Property) (child : Zconfig) (arg : Option Chunk) :
    Prints (Sayable (commentTexts a) ∧ ∀ x ∈ child.outline 0, ItemSayable x) (texts a child) (0, arg)
      (configExecuteRoot a child arg) := by
  have h := prints_configSave a arg 0 fun hle => prints_nil hle
  rw [append_nil] at h
  exact (h.congr (and_iff_left trivial)).bind fun hle => prints_execute 0 child hle

lemma Chunk.append_empty (data : List UInt8) :
    (Chunk.append ⟨[], data.length + 1⟩ data) = ⟨data, data.length + 1⟩ := by
  rw [append, nil_append, length_nil, Nat.sub_zero, take_of_length_le (Nat.le_succ _)]

lemma chunkSave_eq_ok_iff {a : Property} {child next : Zconfig} {chunk : Chunk} :
    chunkSave (.node a child next) = .ok chunk ↔
      (Sayable (commentTexts a) ∧ ∀ x ∈ child.outline 0, ItemSayable x) ∧
        (printed (texts a child)).length + 1 ≤ intMax ∧
        chunk = ⟨printed (texts a child), (printed (texts a child)).length + 1⟩ := by
  rw [chunkSave]
  constructor
  · intro h
    obtain ⟨⟨size, arg⟩, hsize, hrest⟩ := bind_eq_ok.mp h
    obtain ⟨hP, -, hs⟩ := (prints_executeRoot a child none _).mp hsize
    obtain ⟨maxSize, hmax, hdata⟩ := bind_eq_ok.mp hrest
    obtain ⟨hle, rfl⟩ := addInt_eq_ok_iff.mp hmax
    obtain ⟨s, hs', hchunk⟩ := bind_eq_ok.mp hdata
    obtain ⟨-, -, rfl⟩ := (prints_executeRoot a child _ s).mp hs'
    simp only [after, Nat.zero_add] at hs hchunk
    obtain ⟨rfl, -⟩ := hs
    cases hchunk
    exact ⟨hP, hle, Chunk.append_empty _⟩
  · rintro ⟨hP, hle, rfl⟩
    have hexec : ∀ arg, configExecuteRoot a child arg = .ok (after (texts a child) (0, arg)) :=
      fun arg => (prints_executeRoot a child arg _).mpr
        ⟨hP, by simp only [after]; omega, rfl⟩
    have hsize : addInt (after (texts a child) (0, none)).1 1 =
        .ok ((printed (texts a child)).length + 1) := by
      rw [addInt_eq_ok_iff]
      simp only [after, Nat.zero_add, and_true]
      exact hle
    simp only [hexec, hsize, bind, Except.bind]
    rw [after, Option.map_some, Chunk.append_empty]

lemma save_eq_ok {a : Property} {child next : Zconfig} {data : List UInt8}
    (h : save (.node a child next) = .ok data) :
    data = printed (texts a child) ∧ data.length ≤ intMax := by
  obtain ⟨s, hs, h⟩ := bind_eq_ok.mp h
  obtain ⟨-, hle, rfl⟩ := (prints_executeRoot a child _ s).mp hs
  simp only [after, Nat.zero_add] at hle h
  cases h
  have hdata : (Chunk.append ⟨[], intMax⟩ (printed (texts a child))).data =
      printed (texts a child) := by
    rw [Chunk.append, nil_append, length_nil, Nat.sub_zero, take_of_length_le hle]
  rw [hdata]
  exact ⟨rfl, hle⟩

end Czmq.Zconfig
