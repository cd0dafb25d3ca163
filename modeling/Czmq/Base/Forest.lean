import Mathlib.Tactic.Common

/-! Ordered trees as C keeps them: a node points to its first child and its next sibling. Two views
are developed: the outline, with the depths of the nodes, and the nodes along a path of names. -/

inductive Forest (α : Type) where
  | nil
  | node (label : α) (child next : Forest α)
  deriving DecidableEq

namespace Forest

open List Option

variable {α : Type}

def append : Forest α → Forest α → Forest α
  | nil, g => g
  | node a child next, g => node a child (append next g)

@[simp] lemma append_nil (f : Forest α) : f.append nil = f := by
  induction f with
  | nil => rfl
  | node a child next _ ih => rw [append, ih]

lemma append_assoc (f g h : Forest α) : (f.append g).append h = f.append (g.append h) := by
  induction f with
  | nil => rfl
  | node a child next _ ih => rw [append, append, ih, append]

def All (p : α → Prop) : Forest α → Prop
  | nil => True
  | node a child next => p a ∧ child.All p ∧ next.All p

lemma All.imp {p q : α → Prop} {f : Forest α} (h : f.All p) (hpq : ∀ a, p a → q a) : f.All q := by
  induction f with
  | nil => trivial
  | node a child next ihc ihn => exact ⟨hpq a h.1, ihc h.2.1, ihn h.2.2⟩

def outline : Nat → Forest α → List (Nat × α)
  | _, nil => []
  | l, node a child next => (l, a) :: (outline (l + 1) child ++ outline l next)

lemma outline_append (l : Nat) (f g : Forest α) :
    (f.append g).outline l = f.outline l ++ g.outline l := by
  induction f with
  | nil => rfl
  | node a child next _ ih => simp [append, outline, ih]

lemma forall_mem_outline {p : α → Prop} {l : Nat} {f : Forest α} :
    (∀ x ∈ f.outline l, p x.2) ↔ f.All p := by
  induction f generalizing l with
  | nil => simp [outline, All]
  | node a child next ihc ihn =>
    rw [outline, forall_mem_cons, forall_mem_append, ihc, ihn, All]

def map {β : Type} (g : α → β) : Forest α → Forest β
  | nil => nil
  | node a child next => node (g a) (child.map g) (next.map g)

lemma outline_map {β : Type} (g : α → β) (l : Nat) (f : Forest α) :
    (f.map g).outline l = (f.outline l).map (Prod.map id g) := by
  induction f generalizing l with
  | nil => rfl
  | node a child next ihc ihn => simp [map, outline, ihc, ihn]

lemma map_id_of_all {g : α → α} {f : Forest α} (h : f.All fun a => g a = a) : f.map g = f := by
  induction f with
  | nil => rfl
  | node a child next ihc ihn => rw [map, h.1, ihc h.2.1, ihn h.2.2]

/-! ## Growth at the right edge -/

def isNil : Forest α → Bool
  | nil => true
  | node .. => false

/-- A change `l` steps down along the last siblings. -/
def atEdge (change : Forest α → Forest α) : Nat → Forest α → Option (Forest α)
  | 0, nil => some (change nil)
  | 0, node a child next => some (change (node a child next))
  | _ + 1, nil => none
  | l + 1, node a child next =>
    if next.isNil then (atEdge change l child).map fun c => node a c nil
    else (atEdge change (l + 1) next).map fun n => node a child n
termination_by structural _ f => f

def grow (l : Nat) (a : α) (f : Forest α) : Option (Forest α) :=
  atEdge (fun g => g.append (node a nil nil)) l f

def growAll (xs : List (Nat × α)) (f : Forest α) : Option (Forest α) :=
  xs.foldlM (fun f x => grow x.1 x.2 f) f

lemma growAll_append (xs ys : List (Nat × α)) (f : Forest α) :
    growAll (xs ++ ys) f = (growAll xs f).bind (growAll ys) := foldlM_append

section
variable {change : Forest α → Forest α} {l : Nat} {f g : Forest α}

lemma atEdge_zero : atEdge change 0 f = some (change f) := by cases f <;> rfl

lemma atEdge_succ_last (a : α) (child : Forest α) :
    atEdge change (l + 1) (node a child nil) =
      (atEdge change l child).map fun c => node a c nil := rfl

lemma atEdge_succ_next (a : α) (child : Forest α) {next : Forest α} (h : next.isNil = false) :
    atEdge change (l + 1) (node a child next) =
      (atEdge change (l + 1) next).map fun n => node a child n := by
  rw [atEdge, if_neg (by simp [h])]

lemma eq_nil_of_isNil (h : f.isNil = true) : f = nil := by
  cases f with
  | nil => rfl
  | node a child next => cases h

lemma isNil_of_atEdge (h : atEdge change (l + 1) f = some g) : g.isNil = false := by
  cases f with
  | nil => cases h
  | node a child next =>
    rw [atEdge] at h
    split at h
    · obtain ⟨c, -, rfl⟩ := map_eq_some_iff.mp h
      rfl
    · obtain ⟨n, -, rfl⟩ := map_eq_some_iff.mp h
      rfl

lemma atEdge_bind {change change' change'' : Forest α → Forest α} {k : Nat}
    (h : ∀ f, atEdge change' k (change f) = some (change'' f)) :
    (atEdge change l f).bind (atEdge change' (l + k)) = atEdge change'' l f := by
  induction f generalizing l with
  | nil =>
    cases l with
    | zero => rw [atEdge_zero, atEdge_zero, bind_some, Nat.zero_add, h]
    | succ l => rfl
  | node a child next ihc ihn =>
    cases l with
    | zero => rw [atEdge_zero, atEdge_zero, bind_some, Nat.zero_add, h]
    | succ l =>
      rw [Nat.add_right_comm l 1 k]
      cases hnext : next.isNil with
      | true =>
        obtain rfl := eq_nil_of_isNil hnext
        rw [atEdge_succ_last, atEdge_succ_last, ← ihc]
        cases atEdge change l child with
        | none => rfl
        | some c => exact atEdge_succ_last a c
      | false =>
        rw [atEdge_succ_next a child hnext, atEdge_succ_next a child hnext, ← ihn,
          Nat.add_right_comm l 1 k]
        cases hn : atEdge change (l + 1) next with
        | none => rfl
        | some n => exact atEdge_succ_next a child (isNil_of_atEdge hn)

lemma atEdge_one_append (change : Forest α → Forest α) (a : α) (child : Forest α) (f : Forest α) :
    atEdge change 1 (f.append (node a child nil)) = some (f.append (node a (change child) nil)) := by
  induction f with
  | nil => rw [append, atEdge_succ_last, atEdge_zero]; rfl
  | node b c next _ ih =>
    rw [append, atEdge_succ_next b c (by cases next <;> rfl), ih]
    rfl

lemma exists_grow_one (a : α) (h : f.isNil = false) : ∃ g, grow 1 a f = some g := by
  induction f with
  | nil => cases h
  | node b child next _ ihn =>
    cases hnext : next.isNil with
    | true =>
      obtain rfl := eq_nil_of_isNil hnext
      rw [grow, atEdge_succ_last, atEdge_zero]
      exact ⟨_, rfl⟩
    | false =>
      obtain ⟨n, hn⟩ := ihn hnext
      rw [grow] at hn
      rw [grow, atEdge_succ_next b child hnext, hn]
      exact ⟨_, rfl⟩

lemma atEdge_bind_growAll (change : Forest α → Forest α) (g : Forest α) :
    (atEdge change l f).bind (growAll (g.outline l)) = atEdge (fun h => (change h).append g) l f := by
  induction g generalizing l f change with
  | nil =>
    simp only [append_nil]
    cases atEdge change l f <;> rfl
  | node a child next ihc ihn =>
    -- First the node, then what is below it, then its siblings.
    have hnode : (atEdge change l f).bind (grow l a) =
        atEdge (fun h => (change h).append (node a nil nil)) l f :=
      atEdge_bind fun h => atEdge_zero
    have hedge : (atEdge (fun h => (change h).append (node a nil nil)) l f).bind
        (atEdge id (l + 1)) = atEdge (fun h => (change h).append (node a nil nil)) l f :=
      atEdge_bind fun h => atEdge_one_append id a nil (change h)
    have hchild : (atEdge (fun h => (change h).append (node a nil nil)) l f).bind
        (growAll (child.outline (l + 1))) =
        atEdge (fun h => (change h).append (node a child nil)) l f := by
      rw [← hedge, bind_assoc]
      simp only [ihc]
      exact atEdge_bind fun h => atEdge_one_append _ a nil (change h)
    have hgrow : growAll ((node a child next).outline l) =
        fun f => ((grow l a f).bind (growAll (child.outline (l + 1)))).bind
          (growAll (next.outline l)) := by
      funext f
      exact (congrArg (bind (grow l a f)) (funext fun f => growAll_append _ _ f)).trans
        (bind_assoc ..).symm
    rw [hgrow, ← bind_assoc, ← bind_assoc, hnode, hchild, ihn]
    simp only [append_assoc, append]

lemma outline_grow {a : α} {m : Nat} (h : grow l a f = some g) :
    g.outline m = f.outline m ++ [(m + l, a)] := by
  induction f generalizing l m g with
  | nil =>
    cases l with
    | zero => cases h; rfl
    | succ l => cases h
  | node b child next ihc ihn =>
    cases l with
    | zero =>
      cases h
      rw [outline_append]
      rfl
    | succ l =>
      cases hnext : next.isNil with
      | true =>
        obtain rfl := eq_nil_of_isNil hnext
        obtain ⟨c, hc, rfl⟩ := map_eq_some_iff.mp h
        rw [outline, ihc hc]
        simp [outline]
        omega
      | false =>
        rw [grow, atEdge_succ_next b child hnext] at h
        obtain ⟨n, hn, rfl⟩ := map_eq_some_iff.mp h
        rw [outline, outline, ihn hn]
        simp

lemma outline_growAll {xs : List (Nat × α)} (h : growAll xs f = some g) :
    g.outline 0 = f.outline 0 ++ xs := by
  induction xs generalizing f with
  | nil =>
    cases h
    rw [List.append_nil]
  | cons x xs ih =>
    obtain ⟨f1, hf1, h⟩ := bind_eq_some_iff.mp h
    rw [ih h, outline_grow hf1, Nat.zero_add, List.append_assoc]
    rfl

lemma growAll_eq_some_iff {xs : List (Nat × α)} : growAll xs nil = some f ↔ f.outline 0 = xs := by
  constructor
  · exact outline_growAll
  · rintro rfl
    exact atEdge_bind_growAll (l := 0) (f := nil) id f

end

/-! ## Paths of names -/

section
variable {κ : Type} [DecidableEq κ] (name : α → κ)

def find : List κ → Forest α → Option α
  | [], _ => none
  | _ :: _, nil => none
  | k :: ks, node a child next =>
    if name a = k then (if ks.isEmpty then some a else find ks child) else find (k :: ks) next
termination_by structural _ f => f

def spine (make : κ → α) (change : α → α) : List κ → Forest α
  | [] => nil
  | [k] => node (change (make k)) nil nil
  | k :: ks => node (make k) (spine make change ks) nil

/-- Change the label at a path; what is missing is made, behind all siblings. -/
def put (make : κ → α) (change : α → α) : List κ → Forest α → Forest α
  | [], f => f
  | k :: ks, nil => spine make change (k :: ks)
  | k :: ks, node a child next =>
    if name a = k then
      (if ks.isEmpty then node (change a) child next else node a (put make change ks child) next)
    else node a child (put make change (k :: ks) next)
termination_by structural _ f => f

variable {name} {make : κ → α} {change : α → α} {ks qs : List κ} {f : Forest α}

lemma find_node_eq {a : α} {child next : Forest α} (q : κ) (h : name a = q) :
    find name (q :: qs) (node a child next) =
      if qs.isEmpty then some a else find name qs child := by rw [find, if_pos h]

lemma find_node_ne {a : α} {child next : Forest α} {q : κ} (h : name a ≠ q) :
    find name (q :: qs) (node a child next) = find name (q :: qs) next := by rw [find, if_neg h]

@[simp] lemma find_nil_left (f : Forest α) : find name [] f = none := by cases f <;> rfl

@[simp] lemma find_nil_right (ks : List κ) : find name ks nil = none := by cases ks <;> rfl

lemma find_grow {l : Nat} {a : α} {g : Forest α} (h : grow l a f = some g) :
    find name ks g = find name ks f ∨ find name ks f = none ∧ find name ks g = some a := by
  induction f generalizing l g ks with
  | nil =>
    cases l with
    | zero =>
      cases h
      cases ks with
      | nil => exact .inl rfl
      | cons k ks =>
        change find name (k :: ks) (node a nil nil) = none ∨
          none = none ∧ find name (k :: ks) (node a nil nil) = some a
        rw [find, find_nil_right]
        split
        · split
          · exact .inr ⟨rfl, rfl⟩
          · exact .inl rfl
        · exact .inl rfl
    | succ l => cases h
  | node b child next ihc ihn =>
    cases ks with
    | nil => exact .inl ((find_nil_left _).trans (find_nil_left _).symm)
    | cons k ks =>
      -- the new node is below the first sibling, or behind it
      have hcases : (∃ c, grow (l - 1) a child = some c ∧ g = node b c next) ∨
          ∃ n m, grow m a next = some n ∧ g = node b child n := by
        cases l with
        | zero =>
          cases h
          exact .inr ⟨_, 0, atEdge_zero, rfl⟩
        | succ l =>
          cases hnext : next.isNil with
          | true =>
            obtain rfl := eq_nil_of_isNil hnext
            obtain ⟨c, hc, rfl⟩ := map_eq_some_iff.mp h
            exact .inl ⟨c, hc, rfl⟩
          | false =>
            rw [grow, atEdge_succ_next b child hnext] at h
            obtain ⟨n, hn, rfl⟩ := map_eq_some_iff.mp h
            exact .inr ⟨n, l + 1, hn, rfl⟩
      by_cases hk : name b = k
      · rcases hcases with ⟨c, hc, rfl⟩ | ⟨n, m, -, rfl⟩
        · rw [find_node_eq k hk, find_node_eq k hk]
          split
          · exact .inl rfl
          · exact ihc hc
        · rw [find_node_eq k hk, find_node_eq k hk]
          exact .inl rfl
      · rcases hcases with ⟨c, -, rfl⟩ | ⟨n, m, hn, rfl⟩
        · rw [find_node_ne hk, find_node_ne hk]
          exact .inl rfl
        · rw [find_node_ne hk, find_node_ne hk]
          exact ihn hn

omit [DecidableEq κ] in
lemma all_spine {p : α → Prop} (hmake : ∀ k ∈ ks, p (make k)) (hchange : ∀ a, p a → p (change a)) :
    (spine make change ks).All p := by
  induction ks with
  | nil => trivial
  | cons k ks ih =>
    rw [forall_mem_cons] at hmake
    cases ks with
    | nil => exact ⟨hchange _ hmake.1, trivial, trivial⟩
    | cons k' ks => exact ⟨hmake.1, ih hmake.2, trivial⟩

lemma all_put {p : α → Prop} (hmake : ∀ k ∈ ks, p (make k)) (hchange : ∀ a, p a → p (change a))
    (hf : f.All p) : (put name make change ks f).All p := by
  induction f generalizing ks with
  | nil =>
    cases ks with
    | nil => trivial
    | cons k ks => exact all_spine hmake hchange
  | node a child next ihc ihn =>
    obtain ⟨ha, hchild, hnext⟩ := hf
    cases ks with
    | nil => exact ⟨ha, hchild, hnext⟩
    | cons k ks =>
      rw [put]
      split
      · split
        · exact ⟨hchange a ha, hchild, hnext⟩
        · exact ⟨ha, ihc (forall_mem_cons.mp hmake).2 hchild, hnext⟩
      · exact ⟨ha, hchild, ihn hmake hnext⟩

/-- The labels, depth first, each under the names on the way to it. -/
def listing (name : α → κ) (above : List κ) : Forest α → List (List κ × α)
  | nil => []
  | node a child next =>
    (above ++ [name a], a) :: (listing name (above ++ [name a]) child ++ listing name above next)

/-- What a change at a path may do to the listing: change the label there, or put in missing labels
along the path. -/
def Touched (name : α → κ) (change : α → α) (above ks : List κ) (f : Forest α)
    (old new : List (List κ × α)) : Prop :=
  (∃ a, find name ks f = some a ∧ old = [(above ++ ks, a)] ∧ new = [(above ++ ks, change a)]) ∨
    old = [] ∧ ∀ e ∈ new, ∃ qs, qs ≠ [] ∧ qs <+: ks ∧ e.1 = above ++ qs ∧ find name qs f = none

def Patched (name : α → κ) (change : α → α) (above ks : List κ) (f g : Forest α) : Prop :=
  ∃ before old new after, Touched name change above ks f old new ∧
    listing name above f = before ++ (old ++ after) ∧
    listing name above g = before ++ (new ++ after)

variable (hmake : ∀ k, name (make k) = k) (hchange : ∀ a, name (change a) = name a)
include hmake hchange

lemma find_spine (hks : ks ≠ []) : ∃ a, find name ks (spine make change ks) = some (change a) := by
  induction ks with
  | nil => exact absurd rfl hks
  | cons k ks ih =>
    cases ks with
    | nil => exact ⟨make k, find_node_eq k ((hchange _).trans (hmake k))⟩
    | cons k' ks =>
      rw [spine, find_node_eq k (hmake k)]
      · exact ih (cons_ne_nil _ _)
      · exact cons_ne_nil _ _

lemma find_spine_of_not_prefix (hpre : ¬ qs <+: ks) : find name qs (spine make change ks) = none := by
  induction ks generalizing qs with
  | nil => exact find_nil_right qs
  | cons k ks ih =>
    cases qs with
    | nil => exact find_nil_left _
    | cons q qs =>
      rw [cons_prefix_cons] at hpre
      have hqs : q = k → qs.isEmpty = false := by
        intro hq
        cases qs with
        | nil => exact absurd ⟨hq, nil_prefix⟩ hpre
        | cons q' qs => rfl
      cases ks with
      | nil =>
        rw [spine, find, hchange, hmake]
        split
        · next hk => rw [hqs hk.symm, find_nil_right]; rfl
        · exact find_nil_right _
      | cons k' ks =>
        rw [spine, find, hmake]
        · split
          · next hk =>
            rw [hqs hk.symm]
            exact ih fun h => hpre ⟨hk.symm, h⟩
          · exact find_nil_right _
        · exact cons_ne_nil _ _

lemma find_put_self (hks : ks ≠ []) :
    ∃ a, find name ks (put name make change ks f) = some (change a) := by
  induction f generalizing ks with
  | nil =>
    cases ks with
    | nil => exact absurd rfl hks
    | cons k ks => exact find_spine hmake hchange hks
  | node a child next ihc ihn =>
    cases ks with
    | nil => exact absurd rfl hks
    | cons k ks =>
      rw [put]
      by_cases hk : name a = k
      · rw [if_pos hk]
        cases ks with
        | nil => exact ⟨a, find_node_eq k ((hchange a).trans hk)⟩
        | cons k' ks =>
          rw [if_neg (by simp), find_node_eq k hk]
          exact ihc (cons_ne_nil _ _)
      · rw [if_neg hk, find_node_ne hk]
        exact ihn (cons_ne_nil _ _)

lemma find_put_of_not_prefix (hpre : ¬ qs <+: ks) :
    find name qs (put name make change ks f) = find name qs f := by
  induction f generalizing ks qs with
  | nil =>
    rw [find_nil_right]
    cases ks with
    | nil => exact find_nil_right qs
    | cons k ks => exact find_spine_of_not_prefix hmake hchange hpre
  | node a child next ihc ihn =>
    cases ks with
    | nil => rfl
    | cons k ks =>
      cases qs with
      | nil => rw [find_nil_left, find_nil_left]
      | cons q qs =>
        rw [cons_prefix_cons] at hpre
        rw [put]
        split
        · next hk =>
          split
          · next hks =>
            rw [find, hchange, find]
            split
            · next hq =>
              cases qs with
              | nil => exact absurd ⟨hq.symm.trans hk, nil_prefix⟩ hpre
              | cons q' qs => rfl
            · rfl
          · rw [find, find]
            split
            · next hq => rw [ihc fun h => hpre ⟨hq.symm.trans hk, h⟩]
            · rfl
        · rw [find, find]
          split
          · rfl
          · exact ihn fun h => hpre (cons_prefix_cons.mp h)

omit [DecidableEq κ] in
lemma listing_spine (above : List κ) :
    ∀ e ∈ listing name above (spine make change ks), ∃ qs, qs ≠ [] ∧ qs <+: ks ∧ e.1 = above ++ qs := by
  induction ks generalizing above with
  | nil => exact fun e he => nomatch he
  | cons k ks ih =>
    cases ks with
    | nil =>
      intro e he
      rw [spine, listing, hchange, hmake] at he
      obtain rfl := mem_singleton.mp he
      exact ⟨[k], cons_ne_nil _ _, prefix_rfl, rfl⟩
    | cons k' ks =>
      intro e he
      change e ∈ listing name above (node (make k) (spine make change (k' :: ks)) nil) at he
      rw [listing, hmake, listing, List.append_nil] at he
      rcases mem_cons.mp he with rfl | he
      · exact ⟨[k], cons_ne_nil _ _, by simp, rfl⟩
      · obtain ⟨qs, -, hqs, hpath⟩ := ih _ e he
        exact ⟨k :: qs, cons_ne_nil _ _, cons_prefix_cons.mpr ⟨rfl, hqs⟩, by simp [hpath]⟩

lemma patched_put (above : List κ) (hks : ks ≠ []) :
    Patched name change above ks f (put name make change ks f) := by
  induction f generalizing ks above with
  | nil =>
    cases ks with
    | nil => exact absurd rfl hks
    | cons k ks =>
      refine ⟨[], [], _, [], .inr ⟨rfl, fun e he => ?_⟩, rfl, (List.append_nil _).symm⟩
      obtain ⟨qs, hne, hqs, hpath⟩ := listing_spine hmake hchange above e he
      exact ⟨qs, hne, hqs, hpath, find_nil_right qs⟩
  | node a child next ihc ihn =>
    cases ks with
    | nil => exact absurd rfl hks
    | cons k ks =>
      rw [put]
      split
      · next hk =>
        split
        · next hnil =>
          obtain rfl := isEmpty_iff.mp hnil
          refine ⟨[], _, _, listing name (above ++ [k]) child ++ listing name above next,
            .inl ⟨a, find_node_eq k hk, rfl, rfl⟩, ?_, ?_⟩
          · rw [listing, hk]
            rfl
          · rw [listing, hchange, hk]
            rfl
        · next hne =>
          have hne' : ks ≠ [] := by simpa using hne
          obtain ⟨before, old, new, after, htouched, hf, hg⟩ := ihc (above ++ [name a]) hne'
          refine ⟨(above ++ [name a], a) :: before, old, new, after ++ listing name above next, ?_,
            by simp [listing, hf], by simp [listing, hg]⟩
          rcases htouched with ⟨b, hb, rfl, rfl⟩ | ⟨rfl, hnew⟩
          · refine .inl ⟨b, ?_, by simp [hk], by simp [hk]⟩
            rw [find_node_eq k hk, if_neg hne, hb]
          · refine .inr ⟨rfl, fun e he => ?_⟩
            obtain ⟨qs, hqs, hpre, hpath, hfind⟩ := hnew e he
            refine ⟨k :: qs, cons_ne_nil _ _, cons_prefix_cons.mpr ⟨rfl, hpre⟩,
              by simp [hpath, hk], ?_⟩
            rw [find_node_eq k hk, if_neg (by simpa using hqs), hfind]
      · next hk =>
        obtain ⟨before, old, new, after, htouched, hf, hg⟩ := ihn above hks
        refine ⟨(above ++ [name a], a) :: (listing name (above ++ [name a]) child ++ before), old, new,
          after, ?_, by simp [listing, hf], by simp [listing, hg]⟩
        rcases htouched with ⟨b, hb, rfl, rfl⟩ | ⟨rfl, hnew⟩
        · exact .inl ⟨b, by rw [find_node_ne hk, hb], rfl, rfl⟩
        · refine .inr ⟨rfl, fun e he => ?_⟩
          obtain ⟨qs, hqs, hpre, hpath, hfind⟩ := hnew e he
          refine ⟨qs, hqs, hpre, hpath, ?_⟩
          cases qs with
          | nil => exact absurd rfl hqs
          | cons q qs =>
            obtain ⟨rfl, -⟩ := cons_prefix_cons.mp hpre
            rw [find_node_ne hk, hfind]

end

end Forest
