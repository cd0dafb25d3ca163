import Czmq.Zlistx.Ring
import Mathlib.Data.List.DropRight

/-! What the list of `zlistx.c` is for: a sequence of items under handles, and a cursor on one of
them or none. -/

namespace Czmq

open List Zlistx Prod

variable {I : Type}

inductive ListOp (I : Type) where
  | addStart (node : Nat) (item : Option I)
  | addEnd (node : Nat) (item : Option I)
  | first
  | next
  | prev
  | last
  | head
  | tail
  | find (item : Option I)
  | detach (handle : Option Nat)
  | delete (handle : Option Nat)
  | moveStart (handle : Nat)
  | moveEnd (handle : Nat)
  | insert (node : Nat) (item : Option I) (lowValue : Bool)
  | reorder (handle : Nat) (lowValue : Bool)
  | purge

inductive ListResult (I : Type) where
  | ptr (item : Option I)
  | handle (handle : Option Nat)
  | rc (rc : Int)
  | void
  deriving DecidableEq

def ListCallbacks.dup (fn : ListCallbacks I) (item : Option I) : Option I :=
  match fn.duplicator with
  | none => item
  | some duplicator => duplicator item

def ListCallbacks.CanDup (fn : ListCallbacks I) (item : Option I) : Prop :=
  fn.duplicator.isSome → (fn.dup item).isSome

structure CursorList (I : Type) where
  entries : List (Nat × Option I)
  cursor : Option Nat
  destroyed : List (Option I)

namespace CursorList

def empty : CursorList I := ⟨[], none, []⟩

def before (a : CursorList I) (h : Nat) : List (Nat × Option I) := a.entries.takeWhile (·.1 != h)

def after (a : CursorList I) (h : Nat) : List (Nat × Option I) :=
  (a.entries.dropWhile (·.1 != h)).tail

def itemAt (a : CursorList I) (h : Nat) : Option I := (a.entries.find? (·.1 == h)).bind snd

def goTo (a : CursorList I) (e : Option (Nat × Option I)) : ListResult I × CursorList I :=
  (.ptr (e.bind snd), { a with cursor := e.map fst })

def detachAt (a : CursorList I) (h : Nat) : CursorList I :=
  { a with
    entries := a.before h ++ a.after h
    cursor := if a.cursor = some h then (a.before h).getLast?.map fst else a.cursor }

def target (a : CursorList I) (handle : Option Nat) : Option Nat :=
  handle.or (a.entries.head?.map fst)

def detach (a : CursorList I) (handle : Option Nat) : Option I × CursorList I :=
  match a.target handle with
  | none => (none, a)
  | some h => (a.itemAt h, a.detachAt h)

def place (fn : ListCallbacks I) (entries : List (Nat × Option I)) (e : Nat × Option I)
    (lowValue : Bool) : List (Nat × Option I) :=
  if lowValue then
    entries.takeWhile (fun x => 0 < fn.comparator e.2 x.2) ++
      e :: entries.dropWhile (fun x => 0 < fn.comparator e.2 x.2)
  else
    entries.rdropWhile (fun x => 0 < fn.comparator x.2 e.2) ++
      e :: entries.rtakeWhile (fun x => 0 < fn.comparator x.2 e.2)

def step (fn : ListCallbacks I) (a : CursorList I) : ListOp I → ListResult I × CursorList I
  | .addStart node item =>
    (.handle node, { a with entries := (node, fn.dup item) :: a.entries, cursor := none })
  | .addEnd node item =>
    (.handle node, { a with entries := a.entries ++ [(node, fn.dup item)], cursor := none })
  | .first => a.goTo a.entries.head?
  | .next =>
    match a.cursor with
    | none => a.goTo a.entries.head?
    | some h => a.goTo (a.after h).head?
  | .prev =>
    match a.cursor with
    | none => a.goTo a.entries.getLast?
    | some h => a.goTo (a.before h).getLast?
  | .last => a.goTo a.entries.getLast?
  | .head => (.ptr (a.entries.head?.bind snd), a)
  | .tail => (.ptr (a.entries.getLast?.bind snd), a)
  | .find item =>
    match a.entries.find? fun e => fn.comparator e.2 item == 0 with
    | none => (.handle none, a)
    | some e => (.handle (some e.1), { a with cursor := some e.1 })
  | .detach handle =>
    let (item, a) := a.detach handle
    (.ptr item, a)
  | .delete handle =>
    let (item, a) := a.detach handle
    if item.isSome then
      (.rc 0, if fn.destructor then { a with destroyed := item :: a.destroyed } else a)
    else (.rc (-1), a)
  | .moveStart h =>
    (.void, { a with entries := (h, a.itemAt h) :: (a.before h ++ a.after h) })
  | .moveEnd h =>
    (.void, { a with entries := a.before h ++ a.after h ++ [(h, a.itemAt h)] })
  | .insert node item lowValue =>
    (.handle node,
      { a with entries := place fn a.entries (node, fn.dup item) lowValue, cursor := none })
  | .reorder h lowValue =>
    (.void, { a with entries := place fn (a.before h ++ a.after h) (h, a.itemAt h) lowValue })
  | .purge =>
    let items := a.entries.map snd
    (.void,
      { entries := []
        cursor := none
        destroyed :=
          if fn.destructor then (items.filter Option.isSome).reverse ++ a.destroyed
          else a.destroyed })

section
variable {a : CursorList I} {h : Nat} {x : Option I} {es fs : List (Nat × Option I)}

lemma ne_of_not_mem_handles (hn : h ∉ handles es) : ∀ e ∈ es, (e.1 != h) = true := by
  intro e he
  rw [bne_iff_ne]
  rintro rfl
  exact hn (mem_handles he)

lemma before_eq (hsplit : a.entries = es ++ (h, x) :: fs) (hn : h ∉ handles es) :
    a.before h = es := by
  rw [before, hsplit, takeWhile_append_of_pos (ne_of_not_mem_handles hn),
    takeWhile_cons_of_neg (by simp), append_nil]

lemma after_eq (hsplit : a.entries = es ++ (h, x) :: fs) (hn : h ∉ handles es) :
    a.after h = fs := by
  rw [after, hsplit, dropWhile_append_of_pos (ne_of_not_mem_handles hn),
    dropWhile_cons_of_neg (by simp), tail_cons]

lemma itemAt_eq (hsplit : a.entries = es ++ (h, x) :: fs) (hn : h ∉ handles es) :
    a.itemAt h = x := by
  have hnone : es.find? (·.1 == h) = none := by
    rw [find?_eq_none]
    intro e he hh
    exact absurd (ne_of_not_mem_handles hn e he) (by simp [beq_iff_eq.mp hh])
  rw [itemAt, hsplit, find?_append, hnone, find?_cons_of_pos (by simp)]
  rfl

lemma detachAt_eq (hsplit : a.entries = es ++ (h, x) :: fs) (hn : h ∉ handles es) :
    a.detachAt h = { a with
      entries := es ++ fs
      cursor := if a.cursor = some h then es.getLast?.map fst else a.cursor } := by
  rw [detachAt, before_eq hsplit hn, after_eq hsplit hn]

lemma step_delete (fn : ListCallbacks I) (a : CursorList I) (handle : Option Nat) :
    (a.step fn (.delete handle)).2.entries = (a.detach handle).2.entries ∧
      (a.step fn (.delete handle)).2.cursor = (a.detach handle).2.cursor := by
  unfold step
  dsimp only
  obtain ⟨item, b⟩ := a.detach handle
  cases item with
  | none => exact ⟨rfl, rfl⟩
  | some item => cases hd : fn.destructor <;> exact ⟨rfl, rfl⟩

lemma step_next_eq_goTo (fn : ListCallbacks I) (hsplit : a.entries = es ++ fs)
    (hn : (handles es).Nodup) (hc : a.cursor = es.getLast?.map fst) :
    a.step fn .next = a.goTo fs.head? := by
  unfold step
  rcases eq_nil_or_concat' es with rfl | ⟨es, e, rfl⟩
  · rw [hc, hsplit]
    rfl
  · rw [getLast?_concat] at hc
    rw [handles_append, nodup_append] at hn
    have hsplit' : a.entries = es ++ (e.1, e.2) :: fs := by rw [hsplit]; simp
    rw [hc]
    dsimp only [Option.map_some]
    rw [after_eq hsplit' fun he => hn.2.2 _ he _ (mem_cons_self ..) rfl]

end

def touched (a : CursorList I) : ListOp I → List Nat
  | .addStart node _ | .addEnd node _ | .insert node _ _ => [node]
  | .moveStart h | .moveEnd h | .reorder h _ => [h]
  | .detach handle | .delete handle => (a.target handle).toList
  | .purge => handles a.entries
  | _ => []

def others (hs : List Nat) (entries : List (Nat × Option I)) : List (Nat × Option I) :=
  entries.filter fun e => e.1 ∉ hs

lemma others_append (hs : List Nat) (es fs : List (Nat × Option I)) :
    others hs (es ++ fs) = others hs es ++ others hs fs := filter_append ..

lemma others_cons_self (h : Nat) (x : Option I) (es : List (Nat × Option I)) :
    others [h] ((h, x) :: es) = others [h] es := filter_cons_of_neg (by simp)

lemma others_middle (h : Nat) (x : Option I) (es fs : List (Nat × Option I)) :
    others [h] (es ++ (h, x) :: fs) = others [h] (es ++ fs) := by
  rw [others_append, others_cons_self, others_append]

lemma others_place (fn : ListCallbacks I) (entries : List (Nat × Option I)) (h : Nat)
    (x : Option I) (lowValue : Bool) :
    others [h] (place fn entries (h, x) lowValue) = others [h] entries := by
  rw [place]
  split
  · rw [others_middle, takeWhile_append_dropWhile]
  · rw [others_middle, rdropWhile_append_rtakeWhile]

lemma others_before_after (a : CursorList I) (h : Nat) :
    others [h] (a.before h ++ a.after h) = others [h] a.entries := by
  have hjoin : a.before h ++ a.entries.dropWhile (·.1 != h) = a.entries :=
    takeWhile_append_dropWhile
  rw [← hjoin, others_append, others_append, after]
  congr 1
  cases hdrop : a.entries.dropWhile (·.1 != h) with
  | nil => rfl
  | cons e es =>
    have hhead := head?_dropWhile_not (·.1 != h) a.entries
    rw [hdrop] at hhead
    obtain ⟨e1, x⟩ := e
    have he : e1 = h := by simpa using hhead
    rw [tail_cons, he, others_cons_self]

lemma others_detach (a : CursorList I) (handle : Option Nat) :
    others (a.target handle).toList (a.detach handle).2.entries =
      others (a.target handle).toList a.entries := by
  rw [detach]
  cases a.target handle with
  | none => rfl
  | some h => exact others_before_after a h

lemma step_others (fn : ListCallbacks I) (a : CursorList I) (op : ListOp I) :
    others (a.touched op) (a.step fn op).2.entries = others (a.touched op) a.entries := by
  cases op with
  | addStart node item => exact others_cons_self ..
  | addEnd node item =>
    change others [node] (a.entries ++ [(node, fn.dup item)]) = _
    rw [others_middle, append_nil]
    rfl
  | first | last | head | tail => rfl
  | next | prev =>
    unfold step
    cases a.cursor <;> rfl
  | find item =>
    unfold step
    dsimp only
    split <;> rfl
  | detach handle => exact others_detach a handle
  | delete handle =>
    rw [(step_delete fn a handle).1]
    exact others_detach a handle
  | moveStart h => exact (others_cons_self ..).trans (others_before_after a h)
  | moveEnd h =>
    refine Eq.trans ?_ (others_before_after a h)
    change others [h] (a.before h ++ a.after h ++ [(h, a.itemAt h)]) = _
    rw [others_middle, append_nil]
  | insert node item lowValue => exact others_place ..
  | reorder h lowValue => exact (others_place ..).trans (others_before_after a h)
  | purge =>
    symm
    refine filter_eq_nil_iff.mpr fun e he hn => ?_
    exact of_decide_eq_true hn (mem_handles he)

end CursorList

end Czmq
