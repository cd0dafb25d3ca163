import Czmq.Zhttp.Request

/-! When a match decides the language of its pattern, in which `%%` should stand for a percent sign.
-/

namespace Czmq.Zhttp

open List Option

variable {ps : List Piece} {path rest : List UInt8}

variable {runs : List (List UInt8)} {escapes : List UInt8}

lemma fit_percent {x : UInt8} :
    fit (.percent :: ps) (x :: rest) = some (runs, escapes) ↔
      x ≠ slash ∧ ∃ es, fit ps rest = some (runs, es) ∧ escapes = x :: es := by
  rw [fit]
  by_cases hx : x = slash
  · simp [hx]
  · rw [if_neg hx, map_eq_some_iff]
    constructor
    · rintro ⟨⟨rs, es⟩, hfit, heq⟩
      cases heq
      exact ⟨hx, es, hfit, rfl⟩
    · rintro ⟨-, es, hfit, rfl⟩
      exact ⟨(runs, es), hfit, rfl⟩

lemma fit_wildcard {x : UInt8} :
    fit (.wildcard :: ps) (x :: rest) = some (runs, escapes) ↔
      x ≠ slash ∧ ∃ rs, fit ps ((x :: rest).dropWhile (· ≠ slash)) = some (rs, escapes) ∧
        runs = (x :: rest).takeWhile (· ≠ slash) :: rs := by
  rw [fit]
  by_cases hx : x = slash
  · simp [hx]
  · rw [if_neg hx, map_eq_some_iff]
    constructor
    · rintro ⟨⟨rs, es⟩, hfit, heq⟩
      cases heq
      exact ⟨hx, rs, hfit, rfl⟩
    · rintro ⟨-, rs, hfit, rfl⟩
      exact ⟨(rs, escapes), hfit, rfl⟩

lemma takeWhile_run {run : List UInt8} (hrun : slash ∉ run) (hrest : rest = [] ∨ rest.head? = some slash) :
    (run ++ rest).takeWhile (· ≠ slash) = run ∧ (run ++ rest).dropWhile (· ≠ slash) = rest := by
  have hall : ∀ x ∈ run, decide (x ≠ slash) = true := fun x hx =>
    decide_eq_true fun h => hrun (h ▸ hx)
  rw [takeWhile_append_of_pos hall, dropWhile_append_of_pos hall]
  rcases hrest with rfl | hhead
  · simp
  · cases rest with
    | nil => cases hhead
    | cons x rest =>
      obtain rfl := some.inj hhead
      simp

lemma head?_dropWhile_slash (path : List UInt8) :
    path.dropWhile (· ≠ slash) = [] ∨ (path.dropWhile (· ≠ slash)).head? = some slash := by
  cases hdrop : path.dropWhile (· ≠ slash) with
  | nil => exact .inl rfl
  | cons y rest =>
    have hy := head?_dropWhile_not (fun c => decide (c ≠ slash)) path
    rw [hdrop] at hy
    exact .inr (by simpa using hy)

lemma reads_wildcard_iff (hpath : question ∉ path) :
    Reads (.wildcard :: ps) path runs ↔
      ∃ rs, runs = path.takeWhile (· ≠ slash) :: rs ∧ path.takeWhile (· ≠ slash) ≠ [] ∧
        Reads ps (path.dropWhile (· ≠ slash)) rs := by
  constructor
  · rintro ⟨run, rest, rs, rfl, rfl, hne, hrun, hnext, hreads⟩
    obtain ⟨htake, hdrop⟩ := takeWhile_run (fun h => (hrun slash h).1 rfl) hnext
    rw [htake, hdrop]
    exact ⟨rs, rfl, hne, hreads⟩
  · rintro ⟨rs, rfl, hne, hreads⟩
    refine ⟨_, _, rs, (takeWhile_append_dropWhile ..).symm, rfl, hne, fun c hc => ⟨?_, ?_⟩,
      head?_dropWhile_slash path, hreads⟩
    · simpa using mem_takeWhile_imp hc
    · rintro rfl
      exact hpath ((takeWhile_sublist _).mem hc)

lemma reads_iff (hpath : question ∉ path) :
    Reads ps path runs ↔
      ∃ escapes, fit ps path = some (runs, escapes) ∧ ∀ c ∈ escapes, c = percentSign := by
  induction ps generalizing path runs with
  | nil =>
    cases path with
    | nil => simp [Reads, fit]
    | cons x rest => simp [Reads, fit]
  | cons p ps ih =>
    cases path with
    | nil => cases p <;> simp [Reads, fit]
    | cons x rest =>
      cases p with
      | literal c =>
        rw [mem_cons, not_or] at hpath
        by_cases hx : x = c.1
        · simp [Reads, fit, hx, ih hpath.2]
        · simp [Reads, fit, hx]
      | percent =>
        rw [mem_cons, not_or] at hpath
        simp only [fit_percent]
        constructor
        · rintro ⟨rest', heq, hreads⟩
          obtain ⟨rfl, rfl⟩ := cons.inj heq
          obtain ⟨escapes, hfit, hall⟩ := (ih hpath.2).mp hreads
          exact ⟨percentSign :: escapes, ⟨by decide, escapes, hfit, rfl⟩, forall_mem_cons.mpr ⟨rfl, hall⟩⟩
        · rintro ⟨_, ⟨-, escapes, hfit, rfl⟩, hall⟩
          obtain ⟨rfl, hescapes⟩ := forall_mem_cons.mp hall
          exact ⟨rest, rfl, (ih hpath.2).mpr ⟨escapes, hfit, hescapes⟩⟩
      | wildcard =>
        have hdrop : question ∉ (x :: rest).dropWhile (· ≠ slash) :=
          fun h => hpath ((dropWhile_sublist _).mem h)
        have htake : (x :: rest).takeWhile (· ≠ slash) ≠ [] ↔ x ≠ slash := by
          by_cases hx : x = slash <;> simp [hx]
        rw [reads_wildcard_iff hpath]
        simp only [fit_wildcard, ih hdrop, htake]
        constructor
        · rintro ⟨rs, rfl, hx, escapes, hfit, hall⟩
          exact ⟨escapes, ⟨hx, rs, hfit, rfl⟩, hall⟩
        · rintro ⟨escapes, ⟨hx, rs, hfit, rfl⟩, hall⟩
          exact ⟨rs, rfl, hx, escapes, hfit, hall⟩

/-! ## The first pass -/

def Query (rest : List UInt8) : Prop := rest = [] ∨ rest.head? = some question

lemma dropWhile_inRun (hpath : question ∉ path ∧ 0 ∉ path) (hrest : Query rest) :
    (path ++ rest).dropWhile inRun = path.dropWhile (· ≠ slash) ++ rest ∧
      (path ++ rest).takeWhile inRun = path.takeWhile (· ≠ slash) := by
  induction path with
  | nil =>
    rcases hrest with rfl | hhead
    · exact ⟨rfl, rfl⟩
    · cases rest with
      | nil => cases hhead
      | cons y rest =>
        obtain rfl := some.inj hhead
        exact ⟨rfl, rfl⟩
  | cons x path ih =>
    simp only [mem_cons, not_or] at hpath
    have hrun : inRun x = decide (x ≠ slash) := by
      simp [inRun, Ne.symm hpath.1.1, Ne.symm hpath.2.1]
    rw [cons_append, dropWhile_cons, dropWhile_cons, takeWhile_cons,
      takeWhile_cons, hrun]
    by_cases hx : x = slash
    · simp [hx]
    · obtain ⟨hdrop, htake⟩ := ih ⟨hpath.1.2, hpath.2.2⟩
      simp only [ne_eq, hx]
      exact ⟨hdrop, by rw [htake]⟩

lemma render_cons (p : Piece) (ps : List Piece) : render (p :: ps) = p.text ++ render ps :=
  flatMap_cons

section
variable {r : UInt8} (hr : r ≠ question) (ms rs : List UInt8)
include hr

lemma firstPass_literal {m : UInt8} (hm : m ≠ percentSign) :
    firstPass (m :: ms) (r :: rs) = if r = m then firstPass ms rs else .ok false := by
  rw [firstPass.eq_def]
  simp only [if_neg hr, if_neg hm]
  by_cases heq : r = m
  · rw [if_neg fun h => h.2 (heq ▸ h.1), if_neg (not_not.mpr heq.symm), if_pos heq]
  · rw [if_pos (Ne.symm heq), if_neg heq, ite_self]

lemma firstPass_percent :
    firstPass (percentSign :: percentSign :: ms) (r :: rs) =
      if r = slash ∨ r = percentSign then .ok false else firstPass ms rs := by
  rw [firstPass, if_neg hr]
  by_cases hslash : r = slash
  · rw [if_pos ⟨hslash, by decide⟩, if_pos (.inl hslash)]
  · simp only [hslash, false_and, false_or, if_true, if_false, @eq_comm _ percentSign r]

lemma firstPass_wildcard :
    firstPass (percentSign :: letterS :: ms) (r :: rs) =
      if r = slash then .ok false else firstPass ms ((r :: rs).dropWhile inRun) := by
  have hne : letterS ≠ percentSign := by decide
  rw [firstPass, if_neg hr]
  by_cases hslash : r = slash
  · rw [if_pos ⟨hslash, by decide⟩, if_pos hslash]
  · simp only [hslash, hne, false_and, if_true, if_false]

end

lemma firstPass_of_query (hrest : Query rest) (m : UInt8) (ms : List UInt8) :
    firstPass (m :: ms) rest = .ok false := by
  rcases hrest with rfl | hhead
  · rfl
  · cases rest with
    | nil => cases hhead
    | cons y rest =>
      obtain rfl := some.inj hhead
      rw [firstPass.eq_def]
      exact if_pos rfl

lemma firstPass_render (ps : List Piece) (hpath : question ∉ path ∧ 0 ∉ path) (hrest : Query rest) :
    firstPass (render ps) (path ++ rest) =
      .ok ((fit ps path).any fun r => r.2.all (· ≠ percentSign)) := by
  induction ps generalizing path with
  | nil =>
    cases path with
    | nil =>
      rcases hrest with rfl | hhead
      · rfl
      · cases rest with
        | nil => cases hhead
        | cons y rest =>
          obtain rfl := some.inj hhead
          rfl
    | cons x path =>
      simp only [mem_cons, not_or] at hpath
      have hx : x ≠ question := Ne.symm hpath.1.1
      simp [render, firstPass, atEnd, fit, hx]
  | cons p ps ih =>
    cases path with
    | nil =>
      -- the path is at its end before the pattern
      cases p <;> exact firstPass_of_query hrest _ _
    | cons x path =>
      have hdrop : question ∉ (x :: path).dropWhile (· ≠ slash) ∧ 0 ∉ (x :: path).dropWhile (· ≠ slash) :=
        ⟨fun h => hpath.1 ((dropWhile_sublist _).mem h),
          fun h => hpath.2 ((dropWhile_sublist _).mem h)⟩
      have hrun := (dropWhile_inRun hpath hrest).1
      simp only [mem_cons, not_or] at hpath
      have hx : x ≠ question := Ne.symm hpath.1.1
      have hpath' : question ∉ path ∧ 0 ∉ path := ⟨hpath.1.2, hpath.2.2⟩
      rw [render_cons, cons_append]
      cases p with
      | literal c =>
        rw [Piece.text, cons_append, firstPass_literal hx _ _ c.2.1, fit]
        split
        · exact ih hpath'
        · rfl
      | percent =>
        rw [Piece.text, cons_append, cons_append, nil_append, firstPass_percent hx, fit]
        by_cases hslash : x = slash
        · rw [if_pos (.inl hslash), if_pos hslash]
          rfl
        · by_cases hpercent : x = percentSign
          · rw [if_neg hslash, hpercent]
            cases fit ps path <;> simp
          · rw [if_neg (not_or.mpr ⟨hslash, hpercent⟩), if_neg hslash, ih hpath']
            cases fit ps path <;> simp [hpercent]
      | wildcard =>
        rw [Piece.text, cons_append, cons_append, nil_append, firstPass_wildcard hx, fit]
        split
        · rfl
        · rw [← cons_append, hrun, ih hdrop]
          cases fit ps ((x :: path).dropWhile (· ≠ slash)) <;> rfl

/-! ## The second pass -/

def Cut (u w : List UInt8) : Prop :=
  u = w ∨ ∃ c q, w = c :: q ∧ (c = slash ∨ c = question) ∧ u = 0 :: q

lemma stringAt_append (done run u : List UInt8) (hrun : 0 ∉ run) (hu : u = [] ∨ u.head? = some 0) :
    stringAt (done ++ (run ++ u)) done.length = run := by
  have hall : ∀ x ∈ run, decide (x ≠ 0) = true := fun x hx => decide_eq_true fun h => hrun (h ▸ hx)
  rw [stringAt, drop_left, takeWhile_append_of_pos hall]
  rcases hu with rfl | hhead
  · simp
  · cases u with
    | nil => cases hhead
    | cons x u =>
      obtain rfl := some.inj hhead
      simp

lemma secondPass_literal {m : UInt8} (hm : m ≠ percentSign) (ms : List UInt8) (args : List Bool)
    (url : List UInt8) (pos : Nat) :
    secondPass (m :: ms) args url pos = secondPass ms args url (pos + 1) := by
  cases ms with
  | nil => rfl
  | cons c ms => rw [secondPass, if_neg fun h => hm h.1, if_neg fun h => hm h.1]

lemma Cut.eq {x : UInt8} {q u : List UInt8} (h : Cut u (x :: q)) (hslash : x ≠ slash)
    (hquestion : x ≠ question) : u = x :: q := by
  rcases h with h | ⟨c, q', heq, hc, -⟩
  · exact h
  · obtain ⟨rfl, rfl⟩ := cons.inj heq
    exact absurd hc (not_or.mpr ⟨hslash, hquestion⟩)

lemma Cut.exists {x : UInt8} {q u : List UInt8} (h : Cut u (x :: q)) : ∃ y, u = y :: q := by
  rcases h with h | ⟨c, q', heq, -, hu⟩
  · exact ⟨x, h⟩
  · obtain ⟨rfl, rfl⟩ := cons.inj heq
    exact ⟨0, hu⟩

lemma cut_set (path : List UInt8) (hrest : Query rest) :
    Cut ((path.dropWhile (· ≠ slash) ++ rest).set 0 0) (path.dropWhile (· ≠ slash) ++ rest) := by
  cases hw : path.dropWhile (· ≠ slash) ++ rest with
  | nil => exact .inl rfl
  | cons c q =>
    refine .inr ⟨c, q, rfl, ?_, rfl⟩
    rcases head?_dropWhile_slash path with hnil | hhead
    · rw [hnil] at hw
      subst hw
      rcases hrest with hnil | hhead
      · cases hnil
      · exact .inr (some.inj hhead)
    · cases hdrop : path.dropWhile (· ≠ slash) with
      | nil =>
        rw [hdrop] at hhead
        cases hhead
      | cons d q' =>
        rw [hdrop] at hhead hw
        obtain ⟨rfl, -⟩ := cons.inj hw
        exact .inl (some.inj hhead)

lemma head?_set_zero (u : List UInt8) : u.set 0 0 = [] ∨ (u.set 0 0).head? = some 0 := by
  cases u with
  | nil => exact .inl rfl
  | cons x u => exact .inr rfl

lemma secondPass_render (hpath : question ∉ path ∧ 0 ∉ path) (hrest : Query rest)
    (hfit : fit ps path = some (runs, escapes))
    {args : List Bool} (hargs : ∀ a ∈ args, a = true) (hlen : runs.length ≤ args.length)
    {u : List UInt8} (hu : Cut u (path ++ rest)) (done : List UInt8) :
    ∃ u' outputs, secondPass (render ps) args (done ++ u) done.length = .ok (done ++ u', outputs) ∧
      (u = [] ∨ u.head? = some 0 → u' = [] ∨ u'.head? = some 0) ∧
      outputs.map (Option.map (stringAt (done ++ u'))) = runs.map some := by
  induction ps generalizing path runs escapes args u done with
  | nil =>
    cases path with
    | cons x path => cases hfit
    | nil =>
      cases hfit
      exact ⟨u, [], rfl, id, rfl⟩
  | cons p ps ih =>
    cases path with
    | nil => cases p <;> cases hfit
    | cons x path =>
      rw [render_cons]
      have hmem := hpath
      simp only [mem_cons, not_or] at hmem
      have hpath' : question ∉ path ∧ 0 ∉ path := ⟨hmem.1.2, hmem.2.2⟩
      -- a character of the pattern for one of the url
      have hskip : ∀ {escapes' : List UInt8} (y : UInt8), fit ps path = some (runs, escapes') →
          ∃ u' outputs, secondPass (render ps) args (done ++ y :: (path ++ rest)) (done.length + 1) =
              .ok (done ++ y :: u', outputs) ∧
            outputs.map (Option.map (stringAt (done ++ y :: u'))) = runs.map some := by
        intro escapes' y hfit'
        obtain ⟨u', outputs, hsecond, -, houtputs⟩ :=
          ih hpath' hfit' hargs hlen (.inl rfl) (done ++ [y])
        rw [append_assoc, append_assoc, length_append] at hsecond
        rw [append_assoc] at houtputs
        exact ⟨u', outputs, hsecond, houtputs⟩
      cases p with
      | literal c =>
        rw [fit] at hfit
        split at hfit
        · obtain ⟨y, rfl⟩ := hu.exists
          obtain ⟨u', outputs, hsecond, houtputs⟩ := hskip y hfit
          refine ⟨y :: u', outputs, ?_, ?_, houtputs⟩
          · exact (secondPass_literal c.2.1 ..).trans hsecond
          · rintro (hnil | hhead)
            · cases hnil
            · exact .inr hhead
        · cases hfit
      | percent =>
        obtain ⟨hslash, es, hfit', rfl⟩ := fit_percent.mp hfit
        obtain rfl := hu.eq hslash (Ne.symm hmem.1.1)
        obtain ⟨u', outputs, hsecond, houtputs⟩ := hskip x hfit'
        refine ⟨x :: u', outputs, (if_pos ⟨rfl, rfl⟩).trans hsecond, ?_, houtputs⟩
        rintro (hnil | hhead)
        · cases hnil
        · exact .inr hhead
      | wildcard =>
        obtain ⟨hslash, rs, hfit', rfl⟩ := fit_wildcard.mp hfit
        obtain rfl := hu.eq hslash (Ne.symm hmem.1.1)
        cases args with
        | nil => cases hlen
        | cons a args =>
          obtain ⟨rfl, hargs'⟩ := forall_mem_cons.mp hargs
          have htake := (dropWhile_inRun hpath hrest).2
          have hpath'' : question ∉ (x :: path).dropWhile (· ≠ slash) ∧
              0 ∉ (x :: path).dropWhile (· ≠ slash) :=
            ⟨fun h => hpath.1 ((dropWhile_sublist _).mem h),
              fun h => hpath.2 ((dropWhile_sublist _).mem h)⟩
          obtain ⟨run, hrun⟩ : ∃ run, (x :: path).takeWhile (· ≠ slash) = run := ⟨_, rfl⟩
          have hzero : 0 ∉ run := fun h => hpath.2 ((takeWhile_sublist _).mem (hrun ▸ h))
          have hsplit : x :: path ++ rest = run ++ ((x :: path).dropWhile (· ≠ slash) ++ rest) := by
            rw [← append_assoc, ← hrun, takeWhile_append_dropWhile]
          obtain ⟨u', outputs, hsecond, hcleared, houtputs⟩ :=
            ih hpath'' hfit' hargs' (Nat.le_of_succ_le_succ hlen) (cut_set _ hrest) (done ++ run)
          refine ⟨run ++ u', some done.length :: outputs, ?_, ?_, ?_⟩
          · rw [Piece.text, cons_append, cons_append, secondPass,
              if_neg fun h => absurd h.2 (by decide), if_pos ⟨rfl, rfl⟩, drop_left]
            change (secondPass (render ps) args
              ((done ++ (x :: path ++ rest)).set (done.length + ((x :: path ++ rest).takeWhile inRun).length) 0)
              (done.length + ((x :: path ++ rest).takeWhile inRun).length) >>= _) = _
            rw [htake, hrun, hsplit, ← append_assoc, set_append_right _ _ (by simp),
              length_append, Nat.sub_self, ← length_append, hsecond, append_assoc]
            rfl
          · rintro (hnil | hhead)
            · cases hnil
            · exact absurd (some.inj hhead).symm hmem.2.1
          · have hstring : stringAt (done ++ (run ++ u')) done.length = run :=
              stringAt_append done run u' hzero (hcleared (head?_set_zero _))
            rw [map_cons, map_cons, map_some, hstring, hrun, ← append_assoc, houtputs]

/-! ## The match -/

lemma length_of_fit
    (h : fit ps path = some (runs, escapes)) : runs.length = ps.count .wildcard := by
  induction ps generalizing path runs escapes with
  | nil =>
    cases path with
    | nil =>
      cases h
      rfl
    | cons x path => cases h
  | cons p ps ih =>
    cases path with
    | nil => cases p <;> cases h
    | cons x path =>
      cases p with
      | literal c =>
        rw [fit] at h
        split at h
        · rw [ih h, count_cons_of_ne (show Piece.literal c ≠ .wildcard from nofun)]
        · cases h
      | percent =>
        obtain ⟨-, es, hfit, -⟩ := fit_percent.mp h
        rw [ih hfit, count_cons_of_ne (show Piece.percent ≠ .wildcard from nofun)]
      | wildcard =>
        obtain ⟨-, rs, hfit, rfl⟩ := fit_wildcard.mp h
        rw [length_cons, ih hfit, count_cons_self]

/-- A match says whether the request is in the language, and then gives the runs. -/
def Decides (self : Request) (method : List UInt8) (pieces : List Piece) (args : List Bool) : Prop :=
  ∃ found self' outputs, requestMatch self method (render pieces) args = .ok (found, self', outputs) ∧
    (found = true ↔ method = self.method ∧ ∃ runs, Reads pieces (Zhttp.path self.url) runs) ∧
    (found = true → ∃ runs, Reads pieces (Zhttp.path self.url) runs ∧
      outputs.map (Option.map (stringAt self'.url)) = runs.map some)

lemma url_split (url : List UInt8) : ∃ rest, url = Zhttp.path url ++ rest ∧ Query rest := by
  refine ⟨url.dropWhile (· ≠ question), (takeWhile_append_dropWhile ..).symm, ?_⟩
  cases hdrop : url.dropWhile (· ≠ question) with
  | nil => exact .inl rfl
  | cons y rest =>
    have hy := head?_dropWhile_not (fun c => decide (c ≠ question)) url
    rw [hdrop] at hy
    exact .inr (by simpa using hy)

lemma not_mem_path {url : List UInt8} (hurl : 0 ∉ url) :
    question ∉ Zhttp.path url ∧ 0 ∉ Zhttp.path url := by
  refine ⟨fun h => ?_, fun h => hurl ((takeWhile_sublist _).mem h)⟩
  simpa using mem_takeWhile_imp h

lemma requestMatch_of_fit {self : Request} (hurl : 0 ∉ self.url) {pieces : List Piece} {args : List Bool}
    (hargs : ∀ a ∈ args, a = true) (hlen : pieces.count .wildcard ≤ args.length)
    (hfit : fit pieces (Zhttp.path self.url) = some (runs, escapes)) :
    if percentSign ∈ escapes then requestMatch self self.method (render pieces) args = .ok (false, self, [])
    else ∃ self' outputs, requestMatch self self.method (render pieces) args = .ok (true, self', outputs) ∧
      outputs.map (Option.map (stringAt self'.url)) = runs.map some := by
  obtain ⟨rest, hsplit, hrest⟩ := url_split self.url
  have hfirst := firstPass_render pieces (not_mem_path hurl) hrest
  rw [← hsplit, hfit, any_some] at hfirst
  split
  · next hmem =>
    have hall : escapes.all (· ≠ percentSign) = false := all_eq_false.mpr ⟨_, hmem, by simp⟩
    rw [requestMatch, if_neg (not_not.mpr rfl), hfirst, hall]
    rfl
  · next hmem =>
    have hall : escapes.all (· ≠ percentSign) = true :=
      all_eq_true.mpr fun c hc => decide_eq_true fun h => hmem (h ▸ hc)
    have hcut : Cut self.url (Zhttp.path self.url ++ rest) := .inl hsplit
    obtain ⟨u', outputs, hsecond, -, houtputs⟩ := secondPass_render (not_mem_path hurl) hrest hfit hargs
      ((length_of_fit hfit).trans_le hlen) hcut []
    refine ⟨{ self with url := u' }, outputs, ?_, houtputs⟩
    rw [requestMatch, if_neg (not_not.mpr rfl), hfirst, hall]
    rw [nil_append, length_nil] at hsecond
    rw [hsecond]
    rfl

/-- A match decides its language unless the url has the shape of the pattern with percent signs for
all the `%%`, or for none. -/
theorem requestMatch_decides_iff (self : Request) (method : List UInt8) (pieces : List Piece)
    (args : List Bool) (hurl : 0 ∉ self.url) (hargs : ∀ a ∈ args, a = true)
    (hlen : pieces.count .wildcard ≤ args.length) :
    Decides self method pieces args ↔
      (method = self.method → ∀ runs escapes, fit pieces (Zhttp.path self.url) = some (runs, escapes) →
        escapes = [] ∨ percentSign ∈ escapes ∧ ∃ c ∈ escapes, c ≠ percentSign) := by
  by_cases hmethod : method = self.method
  · subst hmethod
    have hreads : ∀ {runs}, Reads pieces (Zhttp.path self.url) runs ↔ ∃ escapes,
        fit pieces (Zhttp.path self.url) = some (runs, escapes) ∧ ∀ c ∈ escapes, c = percentSign :=
      reads_iff (not_mem_path hurl).1
    cases hfit : fit pieces (Zhttp.path self.url) with
    | none =>
      obtain ⟨rest, hsplit, hrest⟩ := url_split self.url
      have hfirst := firstPass_render pieces (not_mem_path hurl) hrest
      rw [← hsplit, hfit] at hfirst
      refine iff_of_true ⟨false, self, [], ?_, iff_of_false nofun ?_, nofun⟩ nofun
      · rw [requestMatch, if_neg (not_not.mpr rfl), hfirst]
        rfl
      rintro ⟨-, runs, h⟩
      obtain ⟨escapes, hsome, -⟩ := hreads.mp h
      rw [hfit] at hsome
      cases hsome
    | some x =>
      obtain ⟨runs, escapes⟩ := x
      have hmatch := requestMatch_of_fit hurl hargs hlen hfit
      have hspec : (∃ runs, Reads pieces (Zhttp.path self.url) runs) ↔ ∀ c ∈ escapes, c = percentSign := by
        constructor
        · rintro ⟨runs', h⟩
          obtain ⟨escapes', hsome, hall⟩ := hreads.mp h
          rw [hfit] at hsome
          cases hsome
          exact hall
        · exact fun hall => ⟨runs, hreads.mpr ⟨escapes, hfit, hall⟩⟩
      by_cases hmem : percentSign ∈ escapes
      · -- the code says no
        rw [if_pos hmem] at hmatch
        constructor
        · rintro ⟨found, self', outputs, hrun, hiff, -⟩ - runs' escapes' heq
          cases hrun.symm.trans hmatch
          cases heq
          by_contra hcond
          have hall : ∀ c ∈ escapes, c = percentSign := fun c hc =>
            not_not.mp fun hne => hcond (.inr ⟨hmem, c, hc, hne⟩)
          cases hiff.mpr ⟨rfl, hspec.mpr hall⟩
        · intro hcond
          refine ⟨false, self, [], hmatch, iff_of_false nofun ?_, nofun⟩
          rintro ⟨-, hruns⟩
          rcases hcond rfl runs escapes rfl with rfl | ⟨-, c, hc, hne⟩
          · cases hmem
          · exact hne (hspec.mp hruns c hc)
      · -- the code says yes
        rw [if_neg hmem] at hmatch
        obtain ⟨self', outputs, hrun, houtputs⟩ := hmatch
        by_cases hnil : escapes = []
        · subst hnil
          have hruns : Reads pieces (Zhttp.path self.url) runs := hreads.mpr ⟨[], hfit, nofun⟩
          refine iff_of_true ⟨true, self', outputs, hrun, iff_of_true rfl ⟨rfl, runs, hruns⟩, fun _ => ?_⟩ ?_
          · exact ⟨runs, hruns, houtputs⟩
          · rintro - runs' escapes' heq
            cases heq
            exact .inl rfl
        · obtain ⟨c, hc⟩ := exists_mem_of_ne_nil _ hnil
          refine iff_of_false ?_ fun hcond => ?_
          · rintro ⟨found, self'', outputs', hrun', hiff, -⟩
            cases hrun.symm.trans hrun'
            exact hmem (hspec.mp (hiff.mp rfl).2 c hc ▸ hc)
          · rcases hcond rfl runs escapes rfl with h | ⟨h, -⟩
            · exact hnil h
            · exact hmem h
  · refine iff_of_true ⟨false, self, [], if_pos hmethod, ?_, nofun⟩ fun h => absurd h hmethod
    exact iff_of_false nofun fun h => hmethod h.1

/-- The pattern `/%s` and the url `/ab?c`. -/
theorem requestMatch_decides_iff_wildcard :
    Decides ⟨[71], [47, 97, 98, 63, 99]⟩ [71] [.literal ⟨slash, by decide⟩, .wildcard] [true] :=
  (requestMatch_decides_iff _ _ _ _ (by decide) (by decide) (by decide)).mpr fun _ runs escapes hfit => by
    cases hfit
    exact .inl rfl

/-- The pattern `%%` and the url `%`. -/
theorem not_decides_percent : ¬Decides ⟨[71], [37]⟩ [71] [.percent] [] := by
  rintro ⟨found, self', outputs, hrun, hiff, -⟩
  have hfound : requestMatch ⟨[71], [37]⟩ [71] (render [.percent]) [] = .ok (false, ⟨[71], [37]⟩, []) := by
    decide
  cases hrun.symm.trans hfound
  cases hiff.mpr ⟨rfl, [], [], rfl, rfl, rfl⟩

end Czmq.Zhttp
