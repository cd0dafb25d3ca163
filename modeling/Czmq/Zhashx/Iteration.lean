import Czmq.Zhashx.Growth

/-! Iteration. Between two calls the iterator has a bucket and a pointer into its chain, which stand
for the items still to come. -/

namespace Czmq

open List

variable {K V : Type}

namespace Zhashx

structure Ahead (t : Zhashx K V) (rest : List (Item K V)) : Prop where
  index_lt : t.cursorIndex < t.limit
  split : ∃ pre suf, t.items.getD t.cursorIndex [] = pre ++ suf ∧
    t.cursorItem = suf.head?.map (·.addr) ∧ rest = suf ++ (t.items.drop (t.cursorIndex + 1)).flatten

section
variable {t : Zhashx K V} {rest : List (Item K V)}

lemma ahead_bucket (h : Shape t) {i : Nat} (hi : i < t.limit) :
    Ahead { t with cursorIndex := i, cursorItem := t.firstOf i } (t.items.drop i).flatten where
  index_lt := hi
  split := by
    refine ⟨[], t.items.getD i [], rfl, rfl, ?_⟩
    rw [← h.length_eq] at hi
    rw [drop_eq_getElem_cons hi, flatten_cons, getD_eq_getElem?_getD, getElem?_eq_getElem hi,
      Option.getD_some]

def SamePlace (t t' : Zhashx K V) : Prop :=
  t' = { t with cursorIndex := t'.cursorIndex, cursorItem := t'.cursorItem }

lemma SamePlace.shape {t' : Zhashx K V} (hsame : SamePlace t t') (h : Shape t) : Shape t' := by
  rw [hsame]
  exact h.congr rfl rfl rfl rfl

lemma skip_loop (h : Shape t) (ha : Ahead t rest) :
    ∃ t' flag, Loop.whileLoop (fun s => s.1.cursorItem.isNone && !s.2) skipBucket (t.limit + 1)
        (t, false) = some (t', flag) ∧ SamePlace t t' ∧ Ahead t' rest ∧
      (flag = true → rest = []) ∧ (flag = false → t'.cursorItem.isSome) := by
  let inv : Zhashx K V × Bool → Prop := fun s =>
    SamePlace t s.1 ∧ Ahead s.1 rest ∧ (s.2 = true → rest = [])
  let measure : Zhashx K V × Bool → Nat := fun s => if s.2 then 0 else s.1.limit - s.1.cursorIndex
  have hbody : ∀ s, inv s → (s.1.cursorItem.isNone && !s.2) = true →
      inv (skipBucket s) ∧ measure (skipBucket s) < measure s := by
    rintro ⟨u, flag⟩ ⟨hsame, hahead, -⟩ hguard
    obtain ⟨hnone, hflag⟩ := Bool.and_eq_true_iff.mp hguard
    have hu : Shape u := hsame.shape h
    have hlt : u.cursorIndex < u.limit := hahead.index_lt
    have hrest : rest = (u.items.drop (u.cursorIndex + 1)).flatten := by
      obtain ⟨pre, suf, -, hitem, hrest⟩ := hahead.split
      rw [Option.isNone_iff_eq_none.mp hnone, eq_comm, Option.map_eq_none_iff,
        head?_eq_none_iff] at hitem
      rw [hrest, hitem, nil_append]
    obtain rfl : flag = false := by simpa using hflag
    rw [skipBucket]
    split
    · have hnext : u.cursorIndex + 1 < u.limit := by omega
      refine ⟨⟨?_, ?_, fun hf => by cases hf⟩, ?_⟩
      · exact congrArg (fun x : Zhashx K V => { x with
          cursorIndex := u.cursorIndex + 1, cursorItem := u.firstOf (u.cursorIndex + 1) }) hsame
      · rw [hrest]
        exact ahead_bucket hu hnext
      · change u.limit - (u.cursorIndex + 1) < u.limit - u.cursorIndex
        omega
    · refine ⟨⟨hsame, hahead, fun _ => ?_⟩, ?_⟩
      · rw [hrest, drop_of_length_le (by rw [hu.length_eq]; omega), flatten_nil]
      · change 0 < u.limit - u.cursorIndex
        omega
  obtain ⟨⟨t', flag⟩, hrun, ⟨hsame, hahead, hflag⟩, hend⟩ := Loop.whileLoop_rule inv measure hbody
    (t.limit + 1) (t, false) ⟨rfl, ha, fun hf => by cases hf⟩ (by
      change t.limit - t.cursorIndex ≤ t.limit + 1
      omega)
  refine ⟨t', flag, hrun, hsame, hahead, hflag, fun hf => ?_⟩
  subst hf
  simpa using hend

lemma Shape.nextOf_eq (h : Shape t) {i : Nat} {pre suf : List (Item K V)} {it : Item K V}
    (hchain : t.items.getD i [] = pre ++ it :: suf) :
    t.nextOf it.addr = some (suf.head?.map (·.addr)) := by
  have hi : i < t.items.length := by
    by_contra hge
    rw [getD_eq_getElem?_getD, getElem?_eq_none (by omega)] at hchain
    simp at hchain
  have hget : t.items[i] = pre ++ it :: suf := by
    rwa [getD_eq_getElem?_getD, getElem?_eq_getElem hi] at hchain
  have hitems : t.items = t.items.take i ++ (pre ++ it :: suf) :: t.items.drop (i + 1) := by
    rw [← hget, getElem_cons_drop, take_append_drop]
  -- The address is in no earlier chain, and in its own chain not before the item.
  have hnodup := h.addr_nodup
  rw [all, hitems, flatten_append, flatten_cons, map_append, map_append,
    map_append] at hnodup
  have hearlier : ∀ x ∈ (t.items.take i).flatten, x.addr ≠ it.addr := by
    intro x hx he
    exact (nodup_append.mp hnodup).2.2 _ (mem_map_of_mem hx) it.addr (by simp) he
  have hpre : ∀ x ∈ pre, x.addr ≠ it.addr := by
    intro x hx he
    have hchain := (nodup_append.mp (nodup_append.mp hnodup).2.1).1
    exact (nodup_append.mp hchain).2.2 _ (mem_map_of_mem hx) it.addr (by simp) he
  have hdrop : (pre ++ it :: suf).dropWhile (·.addr != it.addr) = it :: suf := by
    rw [dropWhile_append_of_pos (by simpa using hpre), dropWhile_cons_of_neg (by simp)]
  have hempty : ∀ chain ∈ t.items.take i, chain.dropWhile (·.addr != it.addr) = [] := by
    intro chain hc
    rw [dropWhile_eq_nil_iff]
    intro x hx
    simpa using hearlier x (mem_flatten_of_mem hc hx)
  rw [nextOf, hitems, findSome?_append, findSome?_cons, hdrop,
    findSome?_eq_none_iff.mpr]
  · rfl
  · intro chain hc
    rw [hempty chain hc]

lemma next_of_ahead (h : Shape t) {it : Item K V} (ha : Ahead t (it :: rest)) :
    ∃ t', t.next = .ok (it.value, t') ∧ t'.cursor = some it.key ∧ Shape t' ∧ Ahead t' rest := by
  obtain ⟨u, flag, hrun, hsame, hahead, hflag, hitem⟩ := skip_loop h ha
  have hu := hsame.shape h
  obtain rfl : flag = false := by
    cases flag with
    | false => rfl
    | true => cases hflag rfl
  obtain ⟨pre, suf, hchain, hcursor, hrest⟩ := hahead.split
  obtain ⟨c, suf, rfl⟩ : ∃ c suf', suf = c :: suf' := by
    cases suf with
    | nil => simp [hcursor] at hitem
    | cons c suf => exact ⟨c, suf, rfl⟩
  obtain ⟨rfl, rfl⟩ := cons.inj hrest
  have hmem : it ∈ u.all := Buckets.mem_flatten_of_mem_getD (by
    rw [hchain]
    exact mem_append_right _ (mem_cons_self ..))
  refine ⟨{ u with cursorKey := some it.key, cursorItem := suf.head?.map (·.addr) }, ?_, rfl,
    hu.congr rfl rfl rfl rfl, ⟨hahead.index_lt, pre ++ [it], suf, ?_, rfl, rfl⟩⟩
  · rw [next, hrun]
    dsimp only
    rw [hcursor]
    dsimp only [head?_cons, Option.map_some]
    rw [hu.itemAt_eq_some.mpr ⟨hmem, rfl⟩, hu.nextOf_eq hchain]
  ·
    rw [hchain, append_assoc, singleton_append]

lemma next_at_end (h : Shape t) (ha : Ahead t []) : ∃ t', t.next = .ok (none, t') := by
  obtain ⟨u, flag, hrun, hsame, hahead, hflag, hitem⟩ := skip_loop h ha
  cases flag with
  | true => exact ⟨u, by rw [next, hrun]⟩
  | false =>
    -- An item in the cursor would be one that is still to come.
    obtain ⟨pre, suf, hchain, hcursor, hrest⟩ := hahead.split
    obtain ⟨rfl, -⟩ := append_eq_nil_iff.mp hrest.symm
    simp [hcursor] at hitem

/-- The caller's loop from an answer on: values and keys until `NULL`, in `n` rounds. -/
def visitFrom : Nat → Option V × Zhashx K V → Except Fault (List (Option V × Option K))
  | _, (none, _) => .ok []
  | 0, (some _, _) => .error .endlessLoop
  | n + 1, (some v, t) => do
    let r ← t.next
    let visited ← visitFrom n r
    .ok ((some v, t.cursor) :: visited)

/-- `for (v = zhashx_first (t); v; v = zhashx_next (t))`, with `zhashx_cursor` in each round. -/
def visit (t : Zhashx K V) : Except Fault (List (Option V × Option K)) := do
  let r ← t.first
  visitFrom t.size r

lemma visitFrom_of_ahead {n : Nat} (hn : rest.length ≤ n) (h : Shape t) (ha : Ahead t rest)
    (hvalues : ∀ it ∈ rest, it.value.isSome) :
    t.next >>= visitFrom n = .ok (rest.map fun it => (it.value, some it.key)) := by
  induction rest generalizing n t with
  | nil =>
    obtain ⟨t', hnext⟩ := next_at_end h ha
    rw [hnext, ok_bind, visitFrom, map_nil]
  | cons it rest ih =>
    obtain ⟨t', hnext, hcursor, hs, ha'⟩ := next_of_ahead h ha
    rw [forall_mem_cons] at hvalues
    obtain ⟨v, hv⟩ := Option.isSome_iff_exists.mp hvalues.1
    rw [length_cons] at hn
    obtain ⟨n, rfl⟩ : ∃ m, n = m + 1 := ⟨n - 1, by omega⟩
    have hvisited := ih (n := n) (by omega) hs ha' hvalues.2
    rw [hnext, ok_bind, hv, visitFrom, ← bind_assoc, hvisited, ok_bind, hcursor, map_cons, hv]

end

end Zhashx

end Czmq
