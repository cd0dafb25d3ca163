import Mathlib.Data.Prod.Lex
import Czmq.Zgossip.Agreement

/-! When traffic dies out: while the messages under way carry one value for each key, every delivery
brings a node to that value or leaves less to deliver. -/

namespace Czmq

open Machine List Function

namespace Zgossip

open Mirror

variable {Node Endpoint Key Value : Type}

/-! ## Progress -/

section
variable {w : Key → Option Value}

/-- From tables and ranks of connections to later ones: tables keep the values that they should
have, and one gets such a value, or they stay and some rank falls. -/
structure Progress (w : Key → Option Value)
    (x y : (Node → Key → Option Value) × (Node → Endpoint → ℕ ×ₗ ℕ)) : Prop where
  kept : ∀ n k v, w k = some v → x.1 n k = some v → y.1 n k = some v
  moved : (∃ n k v, w k = some v ∧ x.1 n k ≠ some v ∧ y.1 n k = some v) ∨
    (y.1 = x.1 ∧ (∀ n e, y.2 n e ≤ x.2 n e) ∧ ∃ n e, y.2 n e < x.2 n e)

lemma Progress.trans (x y z : (Node → Key → Option Value) × (Node → Endpoint → ℕ ×ₗ ℕ))
    (h : Progress w x y) (h' : Progress w y z) : Progress w x z := by
  refine ⟨fun n k v hw hx => h'.kept n k v hw (h.kept n k v hw hx), ?_⟩
  rcases h.moved with ⟨n, k, v, hw, hx, hy⟩ | ⟨hsame, hle, n, e, hlt⟩
  · exact .inl ⟨n, k, v, hw, hx, h'.kept n k v hw hy⟩
  · rcases h'.moved with ⟨n, k, v, hw, hy, hz⟩ | ⟨hsame', hle', -⟩
    · exact .inl ⟨n, k, v, hw, hsame ▸ hy, hz⟩
    · exact .inr ⟨hsame'.trans hsame, fun n e => (hle' n e).trans (hle n e), n, e,
        (hle' n e).trans_lt hlt⟩

end

def Phase.carried : Phase Key Value → List (Key × Value)
  | absent => []
  | pending up => up
  | opened up down => up ++ down

namespace Mesh

variable {m : Mesh Node Endpoint Key Value} {w : Key → Option Value}

/-- What is under way carries the values of `w`, and so do tables with a greeting to answer. -/
structure Guided (w : Key → Option Value) (m : Mesh Node Endpoint Key Value) : Prop where
  carried : ∀ n e, ∀ x ∈ (m.phase n e).carried, w x.1 = some x.2
  tables : (∀ n e up, m.phase n e ≠ .pending up) ∨ ∀ n k v, m.tuples n k = some v → w k = some v

variable [DecidableEq Node] {owner : Endpoint → Option Node}

lemma mem_carried_sent {n a : Node} {e : Endpoint} {x y : Key × Value} {p : Phase Key Value}
    (h : y ∈ (sent owner n x a e p).carried) : y ∈ p.carried ∨ y = x := by
  rw [sent] at h
  cases p with
  | absent =>
    simp only [Phase.sendDown, ite_self] at h
    split at h <;> exact .inl h
  | pending up =>
    simp only [Phase.sendDown, ite_self] at h
    split at h
    · simpa [Phase.sendUp, Phase.carried] using h
    · exact .inl h
  | opened up down =>
    simp only [Phase.sendDown] at h
    split at h <;> split at h <;> simp [Phase.sendUp, Phase.carried] at h ⊢ <;> tauto

lemma pending_of_sent {n a : Node} {e : Endpoint} {x : Key × Value} {p : Phase Key Value}
    {up : List (Key × Value)} (h : sent owner n x a e p = .pending up) : ∃ up', p = .pending up' := by
  rw [sent] at h
  cases p with
  | absent =>
    simp only [Phase.sendDown, ite_self] at h
    split at h <;> cases h
  | pending up' => exact ⟨up', rfl⟩
  | opened up down =>
    split at h <;> split at h <;> cases h

variable [DecidableEq Endpoint]

lemma Guided.setPhase (h : Guided w m) {n : Node} {e : Endpoint} {up down : List (Key × Value)}
    (hp : ∀ x ∈ up ++ down, w x.1 = some x.2) : Guided w (m.setPhase n e (.opened up down)) := by
  refine ⟨fun a f x hx => ?_, h.tables.imp_left fun hnone a f up' => ?_⟩
  · rw [setPhase_phase] at hx
    split at hx
    · exact hp x hx
    · exact h.carried a f x hx
  · rw [setPhase_phase]
    split
    · nofun
    · exact hnone a f up'

end Mesh

variable [DecidableEq Key] [DecidableEq Value]

def Connection.rank (c : Connection Key Value) : ℕ ×ₗ ℕ :=
  toLex (c.up.count .hello, c.up.length + c.down.length)

namespace Phase

lemma count_hello (xs : List (Key × Value)) : (xs.map announce).count .hello = 0 := by
  refine count_eq_zero.mpr fun hmem => ?_
  obtain ⟨x, -, hx⟩ := mem_map.mp hmem
  cases hx

lemma rank_pending (up : List (Key × Value)) :
    (pending up).connection.rank = toLex (1, up.length + 1) := by
  rw [Connection.rank, connection]
  simp [count_hello]

lemma rank_opened (up down : List (Key × Value)) :
    (opened up down).connection.rank = toLex (0, up.length + down.length) := by
  rw [Connection.rank, connection]
  simp [count_hello]

end Phase

namespace Mesh

variable {m : Mesh Node Endpoint Key Value} {w : Key → Option Value}

def view (m : Mesh Node Endpoint Key Value) : (Node → Key → Option Value) × (Node → Endpoint → ℕ ×ₗ ℕ) :=
  (m.tuples, fun n e => (m.phase n e).connection.rank)

variable [DecidableEq Node] {owner : Endpoint → Option Node}

lemma Guided.accept (h : Guided w m) (n : Node) {x : Key × Value} (hx : w x.1 = some x.2) :
    Guided w (m.accept owner n x) := by
  by_cases hsame : m.tuples n x.1 = some x.2
  · rw [accept_of_same hsame]
    exact h
  · rw [accept_of_new hsame]
    refine ⟨fun a e y hy => ?_, ?_⟩
    · rcases mem_carried_sent hy with hold | rfl
      · exact h.carried a e y hold
      · exact hx
    · refine h.tables.imp (fun hnone a e up hup => ?_) fun htables a k v hv => ?_
      · obtain ⟨up', hup'⟩ := pending_of_sent hup
        exact hnone a e up' hup'
      · change stored m.tuples n x a k = some v at hv
        rw [stored, update_update_apply] at hv
        split at hv
        · next heq => exact heq.2 ▸ hx.trans hv
        · exact htables a k v hv

/-! ## Deliveries -/

variable [DecidableEq Endpoint]

lemma progress_setPhase {n : Node} {e : Endpoint} {p : Phase Key Value}
    (hlt : p.connection.rank < (m.phase n e).connection.rank) :
    Progress w m.view (m.setPhase n e p).view := by
  refine ⟨fun _ _ _ _ hx => hx, .inr ⟨rfl, fun a f => ?_, n, e, ?_⟩⟩
  · change ((m.setPhase n e p).phase a f).connection.rank ≤ (m.phase a f).connection.rank
    rw [setPhase_phase]
    split
    · next heq =>
      obtain ⟨rfl, rfl⟩ := heq
      exact hlt.le
    · exact le_rfl
  · change ((m.setPhase n e p).phase n e).connection.rank < (m.phase n e).connection.rank
    rwa [setPhase_phase, if_pos ⟨rfl, rfl⟩]

lemma progress_receive {n r : Node} {e : Endpoint} {p : Phase Key Value} {x : Key × Value}
    (hx : w x.1 = some x.2) (hlt : p.connection.rank < (m.phase n e).connection.rank) :
    Progress w m.view ((m.setPhase n e p).accept owner r x).view := by
  by_cases hsame : m.tuples r x.1 = some x.2
  · rw [accept_of_same (m := m.setPhase n e p) hsame]
    exact progress_setPhase hlt
  · rw [accept_of_new (m := m.setPhase n e p) hsame]
    refine ⟨fun a k v hw hv => ?_, .inl ⟨r, x.1, x.2, hx, hsame, ?_⟩⟩
    · change stored m.tuples r x a k = some v
      rw [stored, update_update_apply]
      split
      · next heq => exact hx.symm.trans (heq.2 ▸ hw)
      · exact hv
    · change stored m.tuples r x r x.1 = some x.2
      rw [stored, update_self, update_self]

end Mesh

def Action.delivers : Action Node Endpoint Key Value → Bool
  | .handleProtocol .. | .remoteHandler .. => true
  | _ => false

section
variable [DecidableEq Node] [DecidableEq Endpoint] {owner : Endpoint → Option Node}
  {m m' : Mesh Node Endpoint Key Value} {w : Key → Option Value}

lemma Mesh.Guided.deliver (h : m.Guided w) {action : Action Node Endpoint Key Value}
    (hdelivers : action.delivers) (hstep : m.Step owner action m') :
    m'.Guided w ∧ Progress w m.view m'.view := by
  cases hstep with
  | publish | unpublish | badEndpoint | connect => cases hdelivers
  | greeted n e walk server up down hphase howner hdown =>
    have hup := h.carried n e
    rw [hphase] at hup
    refine ⟨h.setPhase fun x hx => ?_, Mesh.progress_setPhase ?_⟩
    · rcases mem_append.mp hx with hx | hx
      · exact hup x hx
      · rcases h.tables with hnone | htables
        · exact absurd hphase (hnone n e up)
        · exact htables server x.1 x.2 (hdown.mem_iff.mp hx)
    · rw [hphase, Phase.rank_opened, Phase.rank_pending]
      exact Prod.Lex.toLex_lt_toLex.mpr (.inl Nat.zero_lt_one)
  | toServer n e walk server x up down hphase howner =>
    have hcarried := h.carried n e
    rw [hphase] at hcarried
    have hx := hcarried x mem_cons_self
    refine ⟨(h.setPhase fun y hy => hcarried y (mem_cons_of_mem _ hy)).accept server hx,
      Mesh.progress_receive hx ?_⟩
    rw [hphase, Phase.rank_opened, Phase.rank_opened]
    exact Prod.Lex.toLex_lt_toLex.mpr (.inr ⟨rfl, by simp⟩)
  | toRemote n e x up down hphase =>
    have hcarried := h.carried n e
    rw [hphase] at hcarried
    have hx := hcarried x (mem_append_right up mem_cons_self)
    refine ⟨(h.setPhase fun y hy => hcarried y ?_).accept n hx, Mesh.progress_receive hx ?_⟩
    · rcases mem_append.mp hy with hy | hy
      · exact mem_append_left _ hy
      · exact mem_append_right up (mem_cons_of_mem _ hy)
    · rw [hphase, Phase.rank_opened, Phase.rank_opened]
      exact Prod.Lex.toLex_lt_toLex.mpr (.inr ⟨rfl, by simp⟩)

end

/-! ## The network -/

namespace Network

def InFlight (s : Network Node Endpoint Key Value) (k : Key) (v : Value) : Prop :=
  ∃ n e, .publish k v ∈ (s.connection n e).up ∨ .publish k v ∈ (s.connection n e).down

def Stored (s : Network Node Endpoint Key Value) (k : Key) (v : Value) : Prop :=
  ∃ n, (s.tuples n).lookup k = some v

def Greeting (s : Network Node Endpoint Key Value) : Prop := ∃ n e, .hello ∈ (s.connection n e).up

def Consistent (s : Network Node Endpoint Key Value) : Prop :=
  ∀ k v v', s.InFlight k v ∨ s.Stored k v → s.InFlight k v' ∨ s.Stored k v' → v = v'

end Network

/-- Values change and connections are made only when nothing contradicts: a tuple is published while
no other value of its key is under way, nor stored unless all greetings are answered, and
connections are made, once each, in a consistent network. No client expires. -/
def Careful (s : Network Node Endpoint Key Value) : Action Node Endpoint Key Value → Prop
  | .publish _ k v => (∀ v', s.InFlight k v' → v' = v) ∧ ((∀ v', s.Stored k v' → v' = v) ∨ ¬s.Greeting)
  | .connect n e _ => e ∉ s.activeRemotes n ∧ s.Consistent
  | .expire _ _ => False
  | _ => True

section
variable {s : Network Node Endpoint Key Value} {m m' : Mesh Node Endpoint Key Value}

omit [DecidableEq Value] in
lemma Careful.tidy {action : Action Node Endpoint Key Value} (h : Careful s action) : Tidy s action := by
  cases action with
  | connect n e walk => exact h.1
  | expire n e => exact h
  | _ => trivial

omit [DecidableEq Value] in
lemma Refines.inFlight_iff (h : Refines s m) {k : Key} {v : Value} :
    s.InFlight k v ↔ ∃ n e, (k, v) ∈ (m.phase n e).carried := by
  refine exists_congr fun n => exists_congr fun e => ?_
  rw [h.connection]
  cases m.phase n e <;> simp [Phase.connection, Phase.carried, announce]

omit [DecidableEq Value] in
lemma Refines.stored_iff (h : Refines s m) {k : Key} {v : Value} :
    s.Stored k v ↔ ∃ n, m.tuples n k = some v :=
  exists_congr fun n => by rw [h.tuples]

omit [DecidableEq Value] in
lemma exists_guide (hrefines : Refines s m) (h : s.Consistent) :
    ∃ w : Key → Option Value, (∀ n e, ∀ x ∈ (m.phase n e).carried, w x.1 = some x.2) ∧
      ∀ n k v, m.tuples n k = some v → w k = some v := by
  classical
  have hocc : ∀ k v, s.InFlight k v ∨ s.Stored k v →
      (if h : ∃ v, s.InFlight k v ∨ s.Stored k v then some h.choose else none) = some v := by
    intro k v hv
    have hex : ∃ v, s.InFlight k v ∨ s.Stored k v := ⟨v, hv⟩
    rw [dif_pos hex]
    exact congrArg some (h k _ v hex.choose_spec hv)
  refine ⟨fun k => if h : ∃ v, s.InFlight k v ∨ s.Stored k v then some h.choose else none, ?_, ?_⟩
  · exact fun n e x hx => hocc x.1 x.2 (.inl (hrefines.inFlight_iff.mpr ⟨n, e, hx⟩))
  · exact fun n k v hv => hocc k v (.inr (hrefines.stored_iff.mpr ⟨n, hv⟩))

variable [DecidableEq Node] {owner : Endpoint → Option Node}

lemma Mesh.Guided.publish {w : Key → Option Value} (h : m.Guided w) (hrefines : Refines s m) {n : Node}
    {k : Key} {v : Value} (hcareful : Careful s (.publish n k v)) :
    (m.accept owner n (k, v)).Guided (update w k (some v)) := by
  obtain ⟨hflight, hstored⟩ := hcareful
  have hguided : m.Guided (update w k (some v)) := by
    refine ⟨fun a e x hx => ?_, ?_⟩
    · rw [update_apply]
      split
      · next hk => rw [hflight x.2 (hrefines.inFlight_iff.mpr ⟨a, e, hk ▸ hx⟩)]
      · exact h.carried a e x hx
    · rcases hstored with hstored | hnone
      · refine h.tables.imp_right fun htables a j v' hv' => ?_
        rw [update_apply]
        split
        · next hk => rw [hstored v' (hrefines.stored_iff.mpr ⟨a, hk ▸ hv'⟩)]
        · exact htables a j v' hv'
      · exact .inl fun a e up hup => hnone ⟨a, e, by rw [hrefines.connection, hup]; exact mem_cons_self⟩
  exact hguided.accept n (update_self ..)

variable [DecidableEq Endpoint]

lemma Mesh.Guided.step {w : Key → Option Value} (h : m.Guided w) (hrefines : Refines s m)
    {action : Action Node Endpoint Key Value} (hcareful : Careful s action)
    (hstep : m.Step owner action m') : ∃ w, m'.Guided w := by
  cases hdelivers : action.delivers with
  | true => exact ⟨w, (h.deliver hdelivers hstep).1⟩
  | false =>
    cases hstep with
    | publish n key value => exact ⟨_, h.publish hrefines hcareful⟩
    | unpublish n key =>
      refine ⟨w, h.carried, h.tables.imp_right fun htables a k v hv => ?_⟩
      change update m.tuples n (update (m.tuples n) key none) a k = some v at hv
      rw [update_update_apply] at hv
      split at hv
      · cases hv
      · exact htables a k v hv
    | badEndpoint n e walk howner => exact ⟨w, h⟩
    | connect n e walk up hphase hup =>
      obtain ⟨w', hcarried, htables⟩ := exists_guide hrefines hcareful.2
      refine ⟨w', fun a f x hx => ?_, .inr htables⟩
      rw [Mesh.setPhase_phase] at hx
      split at hx
      · exact htables n x.1 x.2 (hup.mem_iff.mp hx)
      · exact hcarried a f x hx
    | greeted | toServer | toRemote => cases hdelivers

end

def Network.view (s : Network Node Endpoint Key Value) :
    (Node → Key → Option Value) × (Node → Endpoint → ℕ ×ₗ ℕ) :=
  (fun n k => (s.tuples n).lookup k, fun n e => (s.connection n e).rank)

lemma Refines.view_eq {s : Network Node Endpoint Key Value} {m : Mesh Node Endpoint Key Value}
    (h : Refines s m) : s.view = m.view := by
  refine Prod.ext (funext fun n => funext fun k => h.tuples n k) (funext fun n => funext fun e => ?_)
  exact congrArg Connection.rank (h.connection n e)

structure Network.Same (s s' : Network Node Endpoint Key Value) : Prop where
  tuples : ∀ n x, x ∈ (s'.tuples n).entries ↔ x ∈ (s.tuples n).entries
  up : ∀ n e, (s'.connection n e).up = (s.connection n e).up
  down : ∀ n e, (s'.connection n e).down = (s.connection n e).down

lemma Network.Same.view_eq {s s' : Network Node Endpoint Key Value} (h : s.Same s') :
    s'.view = s.view := by
  refine Prod.ext (funext fun n => funext fun k => ?_) (funext fun n => funext fun e => ?_)
  · refine Option.ext fun v => ?_
    exact AList.mem_lookup_iff.trans ((h.tuples n ⟨k, v⟩).trans AList.mem_lookup_iff.symm)
  · change (s'.connection n e).rank = (s.connection n e).rank
    rw [Connection.rank, Connection.rank, h.up, h.down]

/-- After careful steps, deliveries alone never lead back to the same tuples and messages. -/
theorem no_circulation [DecidableEq Node] [DecidableEq Endpoint] (owner : Endpoint → Option Node)
    {actions deliveries : List (Action Node Endpoint Key Value)}
    {rs rs' : List (Network.Delivered Node Key Value)} {s s' : Network Node Endpoint Key Value}
    (hrun : run (Network.step owner) Network.initial actions = .ok (rs, s))
    (hsteps : StepsMeet (Network.step owner) Careful Network.initial actions)
    (hsome : deliveries ≠ []) (hdelivers : ∀ action ∈ deliveries, action.delivers)
    (hrun' : run (Network.step owner) s deliveries = .ok (rs', s')) : ¬s.Same s' := by
  obtain ⟨m, w, hrefines, hguided⟩ : ∃ m w, Refines s m ∧ m.Guided w := by
    refine hsteps.run_invariant (fun s => ∃ m w, Refines s m ∧ m.Guided w) ?_
      ⟨Mesh.initial, fun _ => none, refines_initial, fun _ _ _ => nofun, .inl fun _ _ _ => nofun⟩ hrun
    rintro s action r s' ⟨m, w, hrefines, hguided⟩ hcareful hstep
    obtain ⟨m', hstep', hrefines'⟩ := hrefines.step hcareful.tidy hstep
    obtain ⟨w', hguided'⟩ := hguided.step hrefines hcareful hstep'
    exact ⟨m', w', hrefines', hguided'⟩
  have hprogress : Progress w s.view s'.view := by
    refine run_trans (fun s => ∃ m, Refines s m ∧ m.Guided w)
      (fun s s' : Network Node Endpoint Key Value => Progress w s.view s'.view)
      (fun a b c => Progress.trans a.view b.view c.view) ?_ ⟨m, hrefines, hguided⟩ hsome hrun'
    rintro s action r s' haction ⟨m, hrefines, hguided⟩ hstep
    have hdelivers := hdelivers action haction
    have htidy : Tidy s action := by
      cases action with
      | connect | expire => cases hdelivers
      | _ => trivial
    obtain ⟨m', hstep', hrefines'⟩ := hrefines.step htidy hstep
    obtain ⟨hguided', hprogress⟩ := hguided.deliver hdelivers hstep'
    refine ⟨⟨m', hrefines', hguided'⟩, ?_⟩
    rw [hrefines.view_eq, hrefines'.view_eq]
    exact hprogress
  intro hsame
  rw [hsame.view_eq] at hprogress
  rcases hprogress.moved with ⟨n, k, v, -, hx, hy⟩ | ⟨-, -, n, e, hlt⟩
  · exact hx hy
  · exact lt_irrefl _ hlt

def publishesOnce : List (Action Bool Unit Nat Nat) :=
  [.connect false () sameOrder, .publish false 1 10]

lemma careful_publishesOnce :
    StepsMeet (Network.step toSecond) Careful Network.initial publishesOnce := by
  refine .cons ⟨not_mem_nil, ?_⟩ fun r s hstep => ?_
  · rintro k v v' (⟨n, e, hup | hdown⟩ | ⟨n, hn⟩)
    · cases hup
    · cases hdown
    · cases hn
  · cases hstep
    refine .cons ⟨?_, .inl ?_⟩ fun _ _ _ => stepsMeet_nil _
    · rintro v ⟨n, e, hmem⟩
      cases n <;> simp [Network.serverConnect, toSecond, Network.greet, Network.setConnection,
        Network.initial, publishes, sameOrder] at hmem
    · rintro v ⟨n, hn⟩
      cases hn

theorem no_circulation_publishesOnce :
    ∃ rs s rs' s', run (Network.step toSecond) Network.initial publishesOnce = .ok (rs, s) ∧
      run (Network.step toSecond) s
        [.handleProtocol false () sameOrder, .handleProtocol false () sameOrder, .remoteHandler false ()] =
        .ok (rs', s') ∧ ¬s.Same s' := by
  have hview : ((run (Network.step toSecond) Network.initial publishesOnce).bind fun x =>
      (run (Network.step toSecond) x.2
        [.handleProtocol false () sameOrder, .handleProtocol false () sameOrder,
          .remoteHandler false ()]).map fun _ => ()) = .ok () := by decide +kernel
  cases hrun : run (Network.step toSecond) Network.initial publishesOnce with
  | error e =>
    rw [hrun] at hview
    cases hview
  | ok x =>
    rw [hrun] at hview
    obtain ⟨⟨rs', s'⟩, hrun', -⟩ := exists_of_map_eq_ok hview
    exact ⟨x.1, x.2, rs', s', rfl, hrun',
      no_circulation toSecond hrun careful_publishesOnce (cons_ne_nil _ _) (by decide) hrun'⟩

lemma eq_of_twoNodes {s s' : Network Bool Unit Nat Nat} (h : s.twoNodes = s'.twoNodes) : s = s' := by
  simp only [Network.twoNodes, TwoNodes.mk.injEq, Prod.mk.injEq] at h
  obtain ⟨hfirst, hsecond, ⟨hactive, hactive'⟩, htuples, htuples'⟩ := h
  cases s
  cases s'
  congr 1
  · funext n
    cases n
    · exact AList.ext htuples
    · exact AList.ext htuples'
  · funext n
    cases n
    · exact hactive
    · exact hactive'
  · funext n e
    cases n
    · exact hfirst
    · exact hsecond

def publishesTwice : List (Action Bool Unit Nat Nat) :=
  [.connect false () sameOrder, .handleProtocol false () sameOrder, .publish false 1 10,
    .publish false 1 20, .handleProtocol false () sameOrder, .handleProtocol false () sameOrder]

def bothReturn : Network Bool Unit Nat Nat where
  tuples := fun _ => AList.singleton 1 20
  activeRemotes := fun n => if n then [] else [()]
  connection := fun n _ =>
    if n then ⟨[], [], none⟩ else ⟨[], [.publish 1 10, .publish 1 20], some .connected⟩

/-- The two values go to the second node and back for ever. -/
theorem circulation :
    ∃ rs s rs', run (Network.step toSecond) Network.initial publishesTwice = .ok (rs, s) ∧
      run (Network.step toSecond) s
        [.remoteHandler false (), .remoteHandler false (), .handleProtocol false () sameOrder,
          .handleProtocol false () sameOrder] = .ok (rs', s) := by
  have hview : (run (Network.step toSecond) Network.initial publishesTwice).map
      (fun x => x.2.twoNodes) = .ok bothReturn.twoNodes := by decide +kernel
  have hview' : (run (Network.step toSecond) bothReturn
      [.remoteHandler false (), .remoteHandler false (), .handleProtocol false () sameOrder,
        .handleProtocol false () sameOrder]).map (fun x => x.2.twoNodes) =
      .ok bothReturn.twoNodes := by decide +kernel
  obtain ⟨⟨rs, s⟩, hrun, hs⟩ := exists_of_map_eq_ok hview
  obtain ⟨⟨rs', s'⟩, hrun', hs'⟩ := exists_of_map_eq_ok hview'
  obtain rfl : s = bothReturn := eq_of_twoNodes hs
  obtain rfl : s' = bothReturn := eq_of_twoNodes hs'
  exact ⟨rs, bothReturn, rs', hrun, hrun'⟩

end Zgossip

end Czmq
