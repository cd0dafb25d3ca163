import Czmq.Zgossip.Mesh

/-! Nodes that are connected hold the same tuples when no message is under way. -/

namespace Czmq

open Machine List Function

namespace Zgossip

open Mirror

variable {Node Endpoint Key Value : Type} [DecidableEq Key]

def Phase.Holds (x y : Key → Option Value) : Phase Key Value → Prop
  | absent => True
  | pending up => ∀ k, (valuesOf k up).getLast? = x k
  | opened up down => ∀ k, Mirrored (x k) (valuesOf k up) (y k) (valuesOf k down)

namespace Phase

variable {x y : Key → Option Value} {p : Phase Key Value} {up down : List (Key × Value)} {k : Key} {v : Value}

lemma Holds.sendUp (h : p.Holds x y) (k : Key) (v : Value) :
    (p.sendUp (k, v)).Holds (update x k (some v)) y := by
  cases p with
  | absent => trivial
  | pending up =>
    intro j
    rw [valuesOf_concat, update_apply]
    split_ifs
    · exact getLast?_concat
    · exact h j
  | opened up down =>
    intro j
    rw [valuesOf_concat, update_apply]
    split_ifs
    · exact (h j).write v
    · exact h j

lemma Holds.sendDown (h : p.Holds x y) (k : Key) (v : Value) :
    (p.sendDown (k, v)).Holds x (update y k (some v)) := by
  cases p with
  | absent => trivial
  | pending up => exact h
  | opened up down =>
    intro j
    rw [valuesOf_concat, update_apply]
    split_ifs
    · exact ((h j).symm.write v).symm
    · exact h j

lemma Holds.toServer_same (h : (opened ((k, v) :: up) down).Holds x y) (hy : y k = some v) :
    (opened up down).Holds x y := by
  intro j
  have hj := h j
  rw [valuesOf_cons] at hj
  split_ifs at hj with heq
  · rw [heq, hy] at hj ⊢
    refine ⟨fun v' hv' => hj.left v' (getLast?_cons_of_mem hv'), hj.right, ?_⟩
    intro hnone _
    exact hj.left v (by rw [hnone]; rfl)
  · exact hj

lemma Holds.toServer (h : (opened ((k, v) :: up) down).Holds x y) :
    ((opened up down).sendDown (k, v)).Holds x (update y k (some v)) := by
  intro j
  have hj := h j
  rw [valuesOf_cons] at hj
  rw [valuesOf_concat, update_apply]
  split_ifs at hj ⊢
  · refine ⟨fun v' hv' => hj.left v' (getLast?_cons_of_mem hv'), fun v' hv' => ?_,
      fun _ hnil => absurd hnil (concat_ne_nil _ _)⟩
    rw [getLast?_concat] at hv'
    exact hv'
  · exact hj

lemma Holds.swap (h : (opened up down).Holds x y) : (opened down up).Holds y x := fun k => (h k).symm

end Phase

/-! ## The mesh -/

variable [DecidableEq Node] {owner : Endpoint → Option Node} {m m' : Mesh Node Endpoint Key Value}

def Agreeing (owner : Endpoint → Option Node) (m : Mesh Node Endpoint Key Value) : Prop :=
  ∀ a e b, owner e = some b → (m.phase a e).Holds (m.tuples a) (m.tuples b)

def stored (t : Node → Key → Option Value) (n : Node) (x : Key × Value) : Node → Key → Option Value :=
  update t n (update (t n) x.1 (some x.2))

section
variable {t : Node → Key → Option Value} {n a b : Node} {e : Endpoint} {x : Key × Value}
  {p : Phase Key Value} {up down : List (Key × Value)}

lemma holds_sendUp {y : Key → Option Value} (h : p.Holds (t a) y) :
    (if a = n then p.sendUp x else p).Holds (stored t n x a) y := by
  rw [stored]
  split
  · next ha =>
    subst ha
    rw [update_self]
    exact h.sendUp ..
  · next ha =>
    rw [update_of_ne ha]
    exact h

lemma holds_sendDown (hb : owner e = some b) {z : Key → Option Value} (h : p.Holds z (t b)) :
    (if owner e = some n then p.sendDown x else p).Holds z (stored t n x b) := by
  rw [stored]
  split
  · next hn =>
    cases hb.symm.trans hn
    rw [update_self]
    exact h.sendDown ..
  · next hn =>
    rw [update_of_ne fun hbn : b = n => hn (hbn ▸ hb)]
    exact h

lemma holds_sent (hb : owner e = some b) (h : p.Holds (t a) (t b)) :
    (Mesh.sent owner n x a e p).Holds (stored t n x a) (stored t n x b) :=
  holds_sendUp (holds_sendDown hb h)

lemma holds_sent_toRemote (hb : owner e = some b) (h : (Phase.opened up (x :: down)).Holds (t a) (t b)) :
    (Mesh.sent owner a x a e (.opened up down)).Holds (stored t a x a) (stored t a x b) := by
  have hsent : Mesh.sent owner a x a e (.opened up down) =
      if owner e = some a then ((Phase.opened up down).sendUp x).sendDown x
      else (Phase.opened up down).sendUp x := by
    rw [Mesh.sent]
    simp only [if_true]
    split
    · rfl
    · rfl
  rw [hsent]
  refine holds_sendDown hb ?_
  rw [stored, update_self]
  exact h.swap.toServer.swap

end

variable [DecidableEq Value]

variable {x : Key × Value}

lemma accept_of_new {m : Mesh Node Endpoint Key Value} {n : Node}
    (hnew : m.tuples n x.1 ≠ some x.2) :
    m.accept owner n x =
      { tuples := stored m.tuples n x, phase := fun a e => Mesh.sent owner n x a e (m.phase a e) } :=
  if_neg hnew

lemma accept_of_same {m : Mesh Node Endpoint Key Value} {n : Node}
    (hsame : m.tuples n x.1 = some x.2) : m.accept owner n x = m := if_pos hsame

variable [DecidableEq Endpoint]

omit [DecidableEq Value] in
lemma Agreeing.setPhase (h : Agreeing owner m) {n : Node} {e : Endpoint} {p : Phase Key Value}
    (hp : ∀ b, owner e = some b → p.Holds (m.tuples n) (m.tuples b)) : Agreeing owner (m.setPhase n e p) := by
  intro a f b hb
  rw [Mesh.setPhase_phase]
  split
  · next heq =>
    obtain ⟨rfl, rfl⟩ := heq
    exact hp b hb
  · exact h a f b hb

lemma Agreeing.receive (h : Agreeing owner m) {n r : Node} {e : Endpoint} {p : Phase Key Value}
    (hsame : m.tuples r x.1 = some x.2 → ∀ b, owner e = some b → p.Holds (m.tuples n) (m.tuples b))
    (hnew : ∀ b, owner e = some b →
      (Mesh.sent owner r x n e p).Holds (stored m.tuples r x n) (stored m.tuples r x b)) :
    Agreeing owner ((m.setPhase n e p).accept owner r x) := by
  by_cases hr : m.tuples r x.1 = some x.2
  · rw [accept_of_same (m := m.setPhase n e p) hr]
    exact h.setPhase (hsame hr)
  · rw [accept_of_new (m := m.setPhase n e p) hr]
    intro a f b hb
    change (Mesh.sent owner r x a f ((m.setPhase n e p).phase a f)).Holds (stored m.tuples r x a) _
    rw [Mesh.setPhase_phase]
    split
    · next heq =>
      obtain ⟨rfl, rfl⟩ := heq
      exact hnew b hb
    · exact holds_sent hb (h a f b hb)

def Action.keeps : Action Node Endpoint Key Value → Bool
  | .unpublish _ _ => false
  | _ => true

lemma Agreeing.step (h : Agreeing owner m) {action : Action Node Endpoint Key Value}
    (hkeep : action.keeps) (hstep : m.Step owner action m') : Agreeing owner m' := by
  cases hstep with
  | publish n key value =>
    by_cases hsame : m.tuples n key = some value
    · rw [accept_of_same hsame]
      exact h
    · rw [accept_of_new hsame]
      exact fun a e b hb => holds_sent hb (h a e b hb)
  | unpublish n key => cases hkeep
  | badEndpoint n e walk howner => exact h
  | connect n e walk up hphase hup => exact h.setPhase fun b hb k => hup.getLast? k
  | greeted n e walk server up down hphase howner hdown =>
    refine h.setPhase fun b hb k => ?_
    cases howner.symm.trans hb
    have hup := h n e server howner
    rw [hphase] at hup
    exact Mirrored.of_sent (hup k) (hdown.getLast? k)
  | toServer n e walk server x up down hphase howner =>
    have hopen := h n e server howner
    rw [hphase] at hopen
    refine h.receive (fun hsame b hb => ?_) fun b hb => ?_
    · cases howner.symm.trans hb
      exact hopen.toServer_same hsame
    · cases howner.symm.trans hb
      rw [Mesh.sent]
      simp only [if_pos howner]
      refine holds_sendUp ?_
      rw [stored, update_self]
      exact hopen.toServer
  | toRemote n e x up down hphase =>
    have hopen : ∀ b, owner e = some b →
        (Phase.opened up (x :: down)).Holds (m.tuples n) (m.tuples b) := by
      intro b hb
      rw [← hphase]
      exact h n e b hb
    exact h.receive (fun hsame b hb => ((hopen b hb).swap.toServer_same hsame).swap)
      fun b hb => holds_sent_toRemote hb (hopen b hb)

def Orderly (s : Network Node Endpoint Key Value) (action : Action Node Endpoint Key Value) : Prop :=
  action.keeps ∧ Tidy s action

instance (s : Network Node Endpoint Key Value) (action : Action Node Endpoint Key Value) :
    Decidable (Orderly s action) := inferInstanceAs (Decidable (_ ∧ _))

def Network.AtRest (s : Network Node Endpoint Key Value) : Prop :=
  ∀ n e, (s.connection n e).up = [] ∧ (s.connection n e).down = []

/-- In a network at rest, a node and its server have the same tuples. -/
theorem agreement_at_rest (owner : Endpoint → Option Node)
    {actions : List (Action Node Endpoint Key Value)} {rs : List (Network.Delivered Node Key Value)}
    {s : Network Node Endpoint Key Value}
    (hrun : run (Network.step owner) Network.initial actions = .ok (rs, s))
    (hsteps : StepsMeet (Network.step owner) Orderly Network.initial actions)
    (hrest : s.AtRest) {n server : Node} {e : Endpoint} (he : e ∈ s.activeRemotes n)
    (hserver : owner e = some server) (x : Σ _ : Key, Value) :
    x ∈ (s.tuples n).entries ↔ x ∈ (s.tuples server).entries := by
  obtain ⟨m, hrefines, hagree⟩ : ∃ m, Refines s m ∧ Agreeing owner m := by
    refine hsteps.run_invariant (fun s => ∃ m, Refines s m ∧ Agreeing owner m) ?_
      ⟨Mesh.initial, refines_initial, fun _ _ _ _ => trivial⟩ hrun
    rintro s action r s' ⟨m, hrefines, hagree⟩ ⟨hkeep, htidy⟩ hstep
    obtain ⟨m', hstep', hrefines'⟩ := hrefines.step htidy hstep
    exact ⟨m', hrefines', hagree.step hkeep hstep'⟩
  have hconnection := hrest n e
  have hactive := (hrefines.active n e).mp he
  have hholds := hagree n e server hserver
  rw [hrefines.connection] at hconnection
  -- a greeting under way would be a message
  have hlookup : ∀ k, m.tuples n k = m.tuples server k := by
    cases hphase : m.phase n e with
    | absent => exact absurd hphase hactive
    | pending up =>
      rw [hphase] at hconnection
      cases hconnection.1
    | opened up down =>
      rw [hphase] at hconnection hholds
      obtain ⟨hup, hdown⟩ := hconnection
      intro k
      refine (hholds k).rest ?_ ?_
      · rw [map_eq_nil_iff.mp hup]
        rfl
      · rw [map_eq_nil_iff.mp hdown]
        rfl
  obtain ⟨k, v⟩ := x
  rw [← AList.mem_lookup_iff, ← AList.mem_lookup_iff, hrefines.tuples, hrefines.tuples, hlookup]

/-! ## Two nodes -/

def sameOrder {α : Type} : Walk α := ⟨id, fun _ => .refl _⟩

def toSecond (_ : Unit) : Option Bool := some true

structure TwoNodes where
  first : Connection Nat Nat
  second : Connection Nat Nat
  activeRemotes : List Unit × List Unit
  tuples : List (Σ _ : Nat, Nat) × List (Σ _ : Nat, Nat)
  deriving DecidableEq

def Network.twoNodes (s : Network Bool Unit Nat Nat) : TwoNodes where
  first := s.connection false ()
  second := s.connection true ()
  activeRemotes := (s.activeRemotes false, s.activeRemotes true)
  tuples := ((s.tuples false).entries, (s.tuples true).entries)

lemma atRest_of_twoNodes {s : Network Bool Unit Nat Nat}
    (hfirst : s.twoNodes.first = ⟨[], [], some .connected⟩) (hsecond : s.twoNodes.second = ⟨[], [], none⟩) :
    s.AtRest := by
  rintro (_ | _) ⟨⟩
  · exact ⟨congrArg Connection.up hfirst, congrArg Connection.down hfirst⟩
  · exact ⟨congrArg Connection.up hsecond, congrArg Connection.down hsecond⟩

def bothPublish : List (Action Bool Unit Nat Nat) :=
  [.publish false 1 10, .publish true 2 20, .connect false () sameOrder,
    .handleProtocol false () sameOrder, .handleProtocol false () sameOrder, .remoteHandler false (),
    .remoteHandler false (), .handleProtocol false () sameOrder]

theorem agreement_at_rest_bothPublish :
    ∃ rs s, run (Network.step toSecond) Network.initial bothPublish = .ok (rs, s) ∧ s.AtRest ∧
      ∀ x, x ∈ (s.tuples false).entries ↔ x ∈ (s.tuples true).entries := by
  have hview : (run (Network.step toSecond) Network.initial bothPublish).map
      (fun x => x.2.twoNodes) = .ok ⟨⟨[], [], some .connected⟩, ⟨[], [], none⟩, ([()], []),
        ([⟨2, 20⟩, ⟨1, 10⟩], [⟨1, 10⟩, ⟨2, 20⟩])⟩ := by decide +kernel
  obtain ⟨⟨rs, s⟩, hrun, hs⟩ := exists_of_map_eq_ok hview
  have hsteps : StepsMeet (Network.step toSecond) Orderly Network.initial bothPublish :=
    stepsMeet_of_checkSteps (by decide +kernel)
  have hrest : s.AtRest := atRest_of_twoNodes (congrArg TwoNodes.first hs) (congrArg TwoNodes.second hs)
  have hactive : () ∈ s.activeRemotes false := by
    rw [show s.activeRemotes false = [()] from congrArg (fun x => x.activeRemotes.1) hs]
    exact mem_singleton_self ()
  exact ⟨rs, s, hrun, hrest, agreement_at_rest toSecond hrun hsteps hrest hactive rfl⟩

/-- The first node connects twice. At the second HELLO the server forgets it, and refuses its next
tuple. -/
def connectsTwice : List (Action Bool Unit Nat Nat) :=
  [.connect false () sameOrder, .connect false () sameOrder, .publish false 1 10,
    .handleProtocol false () sameOrder, .handleProtocol false () sameOrder,
    .handleProtocol false () sameOrder, .remoteHandler false (), .remoteHandler false (),
    .handleProtocol false () sameOrder, .handleProtocol false () sameOrder, .remoteHandler false (),
    .handleProtocol false () sameOrder]

theorem disagreement_at_rest :
    (∀ action ∈ connectsTwice, action.keeps ∧ ∀ n e, action ≠ .expire n e) ∧
    ∃ rs s, run (Network.step toSecond) Network.initial connectsTwice = .ok (rs, s) ∧ s.AtRest ∧
      () ∈ s.activeRemotes false ∧ (s.connection false ()).client = some .connected ∧
      ¬∀ x, x ∈ (s.tuples false).entries ↔ x ∈ (s.tuples true).entries := by
  refine ⟨?_, ?_⟩
  · intro action haction
    simp only [connectsTwice, mem_cons, not_mem_nil, or_false] at haction
    rcases haction with rfl | rfl | rfl | rfl | rfl | rfl | rfl | rfl | rfl | rfl | rfl | rfl <;>
      exact ⟨rfl, nofun⟩
  · have hview : (run (Network.step toSecond) Network.initial connectsTwice).map
        (fun x => x.2.twoNodes) = .ok ⟨⟨[], [], some .connected⟩, ⟨[], [], none⟩, ([()], []),
          ([⟨1, 10⟩], [])⟩ := by decide +kernel
    obtain ⟨⟨rs, s⟩, hrun, hs⟩ := exists_of_map_eq_ok hview
    have hfirst : s.twoNodes.first = ⟨[], [], some .connected⟩ := congrArg TwoNodes.first hs
    refine ⟨rs, s, hrun, atRest_of_twoNodes hfirst (congrArg TwoNodes.second hs), ?_,
      congrArg Connection.client hfirst, fun hsame => ?_⟩
    · rw [show s.activeRemotes false = [()] from congrArg (fun x => x.activeRemotes.1) hs]
      exact mem_singleton_self ()
    · have hone := hsame ⟨1, 10⟩
      rw [show (s.tuples false).entries = [⟨1, 10⟩] from congrArg (fun x => x.tuples.1) hs,
        show (s.tuples true).entries = [] from congrArg (fun x => x.tuples.2) hs] at hone
      exact not_mem_nil (hone.mp (mem_singleton_self _))

end Zgossip

end Czmq
