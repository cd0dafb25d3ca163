import Czmq.Base.Mirror
import Czmq.Zgossip.Network

/-! The network while no client expires and no node greets an endpoint twice: no message is refused,
and a connection waits for its greeting or carries tuples only. -/

namespace Czmq

open List Function

namespace Zgossip

open Mirror

section
variable (Key Value : Type)

/-- A connection: not there, with its HELLO and tuples under way to the server, or open. -/
inductive Phase where
  | absent
  | pending (up : List (Key × Value))
  | opened (up down : List (Key × Value))

end

structure Mesh (Node Endpoint Key Value : Type) where
  tuples : Node → Key → Option Value
  phase : Node → Endpoint → Phase Key Value

variable {Node Endpoint Key Value : Type}

def announce (x : Key × Value) : Message Key Value := .publish x.1 x.2

/-- One value of a function of two arguments changes. -/
lemma update_update_apply {α β γ : Type} [DecidableEq α] [DecidableEq β] (f : α → β → γ) (a a' : α)
    (b b' : β) (c : γ) :
    update f a (update (f a) b c) a' b' = if a' = a ∧ b' = b then c else f a' b' := by
  by_cases ha : a' = a
  · subst ha
    rw [update_self, update_apply]
    simp
  · rw [update_of_ne ha, if_neg fun h => ha h.1]

namespace Phase

def connection : Phase Key Value → Connection Key Value
  | absent => ⟨[], [], none⟩
  | pending up => ⟨.hello :: up.map announce, [], none⟩
  | opened up down => ⟨up.map announce, down.map announce, some .connected⟩

def sendUp (x : Key × Value) : Phase Key Value → Phase Key Value
  | absent => absent
  | pending up => pending (up ++ [x])
  | opened up down => opened (up ++ [x]) down

def sendDown (x : Key × Value) : Phase Key Value → Phase Key Value
  | opened up down => opened up (down ++ [x])
  | p => p

variable {p : Phase Key Value}

lemma sendDown_eq_absent {x : Key × Value} :
    p.sendDown x = absent ↔ p = absent := by
  cases p <;> simp [sendDown]

lemma forward_connection (p : Phase Key Value) (x : Key × Value) :
    p.connection.forward x.1 x.2 = (p.sendDown x).connection := by
  cases p with
  | absent | pending up => rfl
  | opened up down =>
    simp only [connection, sendDown, map_append]
    rfl

lemma connection_sendUp (hp : p ≠ absent) (x : Key × Value) :
    (p.sendUp x).connection = { p.connection with up := p.connection.up ++ [.publish x.1 x.2] } := by
  cases p with
  | absent => exact absurd rfl hp
  | pending up | opened up down =>
    simp only [connection, sendUp, map_append]
    rfl

end Phase

namespace Mesh

variable [DecidableEq Node] (owner : Endpoint → Option Node)

def sent (n : Node) (x : Key × Value) (a : Node) (e : Endpoint) (p : Phase Key Value) : Phase Key Value :=
  let p := if owner e = some n then p.sendDown x else p
  if a = n then p.sendUp x else p

lemma sent_eq_absent {n a : Node} {e : Endpoint} {x : Key × Value} {p : Phase Key Value} :
    sent owner n x a e p = .absent ↔ p = .absent := by
  rw [sent]
  split <;> split <;> cases p <;> simp [Phase.sendUp, Phase.sendDown]

variable [DecidableEq Endpoint]

def setPhase (m : Mesh Node Endpoint Key Value) (n : Node) (e : Endpoint) (p : Phase Key Value) :
    Mesh Node Endpoint Key Value :=
  { m with phase := update m.phase n (update (m.phase n) e p) }

lemma setPhase_phase (m : Mesh Node Endpoint Key Value) (n a : Node) (e f : Endpoint)
    (p : Phase Key Value) :
    (m.setPhase n e p).phase a f = if a = n ∧ f = e then p else m.phase a f := update_update_apply ..

variable [DecidableEq Key] [DecidableEq Value]

def accept (m : Mesh Node Endpoint Key Value) (n : Node) (x : Key × Value) :
    Mesh Node Endpoint Key Value :=
  if m.tuples n x.1 = some x.2 then m
  else
    { tuples := update m.tuples n (update (m.tuples n) x.1 (some x.2))
      phase := fun a e => sent owner n x a e (m.phase a e) }

inductive Step (m : Mesh Node Endpoint Key Value) :
    Action Node Endpoint Key Value → Mesh Node Endpoint Key Value → Prop
  | publish (n : Node) (key : Key) (value : Value) :
      Step m (.publish n key value) (m.accept owner n (key, value))
  | unpublish (n : Node) (key : Key) :
      Step m (.unpublish n key)
        { m with tuples := update m.tuples n (update (m.tuples n) key none) }
  | badEndpoint (n : Node) (e : Endpoint) (walk : Walk (Σ _ : Key, Value)) (howner : owner e = none) :
      Step m (.connect n e walk) m
  | connect (n : Node) (e : Endpoint) (walk : Walk (Σ _ : Key, Value)) (up : List (Key × Value))
      (hphase : m.phase n e = .absent) (hup : Lists up (m.tuples n)) :
      Step m (.connect n e walk) (m.setPhase n e (.pending up))
  | greeted (n : Node) (e : Endpoint) (walk : Walk (Σ _ : Key, Value)) (server : Node)
      (up down : List (Key × Value)) (hphase : m.phase n e = .pending up)
      (howner : owner e = some server) (hdown : Lists down (m.tuples server)) :
      Step m (.handleProtocol n e walk) (m.setPhase n e (.opened up down))
  | toServer (n : Node) (e : Endpoint) (walk : Walk (Σ _ : Key, Value)) (server : Node) (x : Key × Value)
      (up down : List (Key × Value)) (hphase : m.phase n e = .opened (x :: up) down)
      (howner : owner e = some server) :
      Step m (.handleProtocol n e walk) ((m.setPhase n e (.opened up down)).accept owner server x)
  | toRemote (n : Node) (e : Endpoint) (x : Key × Value) (up down : List (Key × Value))
      (hphase : m.phase n e = .opened up (x :: down)) :
      Step m (.remoteHandler n e) ((m.setPhase n e (.opened up down)).accept owner n x)

def initial : Mesh Node Endpoint Key Value where
  tuples := fun _ _ => none
  phase := fun _ _ => .absent

end Mesh

/-! ## The network refines the mesh -/

section
variable [DecidableEq Key]

lemma valuesOf_of_nodupKeys {l : List (Σ _ : Key, Value)} (hl : l.NodupKeys) (k : Key) :
    valuesOf k (l.map fun x => (x.1, x.2)) = (l.dlookup k).toList := by
  induction l with
  | nil => rfl
  | cons x l ih =>
    obtain ⟨hnot, hrest⟩ := nodupKeys_cons.mp hl
    rw [map_cons, valuesOf_cons, ih hrest]
    split
    · next hx =>
      subst hx
      rw [dlookup_eq_none.mpr hnot, dlookup_cons_eq]
      rfl
    · next hx => rw [dlookup_cons_ne _ _ hx]

lemma exists_publishes (walk : Walk (Σ _ : Key, Value)) (tuples : Tuples Key Value) :
    ∃ xs, publishes walk tuples = xs.map announce ∧ Lists xs fun k => tuples.lookup k := by
  have hperm := walk.perm tuples.entries
  have hnodup : (walk.order tuples.entries).NodupKeys := (perm_nodupKeys hperm).mpr tuples.nodupKeys
  refine ⟨(walk.order tuples.entries).map fun x => (x.1, x.2), ?_, fun k => ?_⟩
  · rw [map_map]
    rfl
  · rw [valuesOf_of_nodupKeys hnodup, perm_dlookup k hnodup hperm]
    rfl

end

structure Refines (s : Network Node Endpoint Key Value) (m : Mesh Node Endpoint Key Value)
    [DecidableEq Key] : Prop where
  tuples : ∀ n k, (s.tuples n).lookup k = m.tuples n k
  connection : ∀ n e, s.connection n e = (m.phase n e).connection
  active : ∀ n e, e ∈ s.activeRemotes n ↔ m.phase n e ≠ .absent

section
variable [DecidableEq Key] {owner : Endpoint → Option Node} {s s' : Network Node Endpoint Key Value}
  {m : Mesh Node Endpoint Key Value}

lemma refines_initial :
    Refines (Network.initial : Network Node Endpoint Key Value) Mesh.initial :=
  ⟨fun _ _ => rfl, fun _ _ => rfl, fun _ _ => by simp [Network.initial, Mesh.initial]⟩

variable {n : Node}

lemma Refines.lists (h : Refines s m) {xs : List (Key × Value)}
    (hxs : Lists xs fun k => (s.tuples n).lookup k) : Lists xs (m.tuples n) := by
  rw [← funext (h.tuples n)]
  exact hxs

variable [DecidableEq Node] [DecidableEq Endpoint]

variable {e : Endpoint}

lemma Refines.setConnection (h : Refines s m) {p : Phase Key Value}
    {c : Connection Key Value} (hc : c = p.connection) (hactive : m.phase n e ≠ .absent) (hp : p ≠ .absent) :
    Refines (s.setConnection n e c) (m.setPhase n e p) := by
  refine ⟨h.tuples, fun a f => ?_, fun a f => ?_⟩
  · change update s.connection n (update (s.connection n) e c) a f = _
    rw [update_update_apply, Mesh.setPhase_phase, hc, h.connection]
    split <;> rfl
  · rw [Mesh.setPhase_phase]
    split
    · next heq =>
      obtain ⟨rfl, rfl⟩ := heq
      exact iff_of_true ((h.active a f).mpr hactive) hp
    · exact h.active a f

variable [DecidableEq Value]

lemma Refines.serverAccept (h : Refines s m) (n : Node) (x : Key × Value) :
    Refines (s.serverAccept owner n x.1 x.2).2 (m.accept owner n x) := by
  rw [Network.serverAccept, Mesh.accept, ← h.tuples]
  split
  · exact h
  · refine ⟨fun a k => ?_, fun a e => ?_, fun a e => ?_⟩
    · change (update s.tuples n ((s.tuples n).insert x.1 x.2) a).lookup k =
        update m.tuples n (update (m.tuples n) x.1 (some x.2)) a k
      rw [update_update_apply, ← h.tuples]
      by_cases ha : a = n
      · subst ha
        by_cases hk : k = x.1
        · subst hk
          simp
        · simp [hk]
      · simp [ha]
    · have hforward : (if owner e = some n then (s.connection a e).forward x.1 x.2 else s.connection a e) =
          (if owner e = some n then (m.phase a e).sendDown x else m.phase a e).connection := by
        rw [h.connection]
        split
        · exact Phase.forward_connection ..
        · rfl
      have habsent : (if owner e = some n then (m.phase a e).sendDown x else m.phase a e) = .absent ↔
          m.phase a e = .absent := by
        split
        · exact Phase.sendDown_eq_absent
        · rfl
      change (if a = n ∧ e ∈ s.activeRemotes n then _ else _) = (Mesh.sent owner n x a e (m.phase a e)).connection
      rw [Mesh.sent]
      simp only [hforward]
      by_cases ha : a = n
      · subst ha
        rw [if_pos rfl]
        by_cases he : e ∈ s.activeRemotes a
        · rw [if_pos ⟨rfl, he⟩, Phase.connection_sendUp]
          exact fun hnone => (h.active a e).mp he (habsent.mp hnone)
        · rw [if_neg fun hboth => he hboth.2]
          have hnone : m.phase a e = .absent := not_not.mp fun hne => he ((h.active a e).mpr hne)
          rw [habsent.mpr hnone]
          rfl
      · rw [if_neg ha, if_neg fun hboth => ha hboth.1]
    · exact (h.active a e).trans (not_congr (Mesh.sent_eq_absent owner).symm)

def Tidy (s : Network Node Endpoint Key Value) : Action Node Endpoint Key Value → Prop
  | .connect n e _ => e ∉ s.activeRemotes n
  | .expire _ _ => False
  | _ => True

instance (s : Network Node Endpoint Key Value) (a : Action Node Endpoint Key Value) :
    Decidable (Tidy s a) :=
  match a with
  | .connect n e _ => inferInstanceAs (Decidable (e ∉ s.activeRemotes n))
  | .expire _ _ => isFalse not_false
  | .publish .. | .unpublish .. | .handleProtocol .. | .remoteHandler .. => isTrue trivial

lemma Refines.serverConnect (h : Refines s m)
    (walk : Walk (Σ _ : Key, Value)) (hnew : e ∉ s.activeRemotes n) :
    ∃ m', m.Step owner (.connect n e walk) m' ∧ Refines (s.serverConnect owner n e walk) m' := by
  have habsent : m.phase n e = .absent := not_not.mp fun hne => hnew ((h.active n e).mpr hne)
  rw [Network.serverConnect, if_neg hnew]
  cases howner : owner e with
  | none => exact ⟨m, .badEndpoint n e walk howner, h⟩
  | some server =>
    obtain ⟨up, hup, hlists⟩ := exists_publishes walk (s.tuples n)
    refine ⟨m.setPhase n e (.pending up), .connect n e walk up habsent (h.lists hlists), ?_⟩
    -- the endpoint becomes active at the same time as it gets its greeting
    refine ⟨h.tuples, fun a f => ?_, fun a f => ?_⟩
    · change update s.connection n (update (s.connection n) e _) a f = _
      rw [update_update_apply, Mesh.setPhase_phase]
      split
      · simp [h.connection, habsent, hup, Phase.connection]
      · exact h.connection a f
    · change f ∈ update s.activeRemotes n (s.activeRemotes n ++ [e]) a ↔ _
      rw [Mesh.setPhase_phase]
      by_cases ha : a = n
      · subst ha
        by_cases hf : f = e <;> simp [hf, h.active]
      · simp [ha, h.active]

variable {r : Network.Delivered Node Key Value}

lemma Refines.handleProtocol (h : Refines s m) {walk : Walk (Σ _ : Key, Value)}
    (hx : s.handleProtocol owner n e walk = .ok (r, s')) :
    ∃ m', m.Step owner (.handleProtocol n e walk) m' ∧ Refines s' m' := by
  rw [Network.handleProtocol] at hx
  simp only [h.connection] at hx
  cases howner : owner e with
  | none =>
    rw [howner] at hx
    cases hx
  | some server =>
    rw [howner] at hx
    cases hphase : m.phase n e with
    | absent =>
      rw [hphase] at hx
      cases hx
    | pending up =>
      rw [hphase] at hx
      obtain ⟨down, hdown, hlists⟩ := exists_publishes walk (s.tuples server)
      cases hx
      refine ⟨_, .greeted n e walk server up down hphase howner (h.lists hlists), ?_⟩
      refine h.setConnection ?_ (by rw [hphase]; nofun) nofun
      rw [hdown]
      rfl
    | opened up down =>
      cases up with
      | nil =>
        rw [hphase] at hx
        cases hx
      | cons x up =>
        rw [hphase] at hx
        obtain rfl : s' = ((s.setConnection n e _).serverAccept owner server x.1 x.2).2 :=
          (congrArg Prod.snd (Except.ok.inj hx)).symm
        refine ⟨_, .toServer n e walk server x up down hphase howner, ?_⟩
        refine Refines.serverAccept
          (h.setConnection (p := .opened up down) ?_ (by rw [hphase]; nofun) nofun) server x
        change (⟨up.map announce, down.map announce ++ [], _⟩ : Connection Key Value) = _
        rw [append_nil]
        rfl

lemma Refines.remoteHandler (h : Refines s m) (hx : s.remoteHandler owner n e = .ok (r, s')) :
    ∃ m', m.Step owner (.remoteHandler n e) m' ∧ Refines s' m' := by
  rw [Network.remoteHandler] at hx
  simp only [h.connection] at hx
  cases hphase : m.phase n e with
  | absent | pending up =>
    rw [hphase] at hx
    cases hx
  | opened up down =>
    rw [hphase] at hx
    cases down with
    | nil => cases hx
    | cons x down =>
      obtain rfl : s' = ((s.setConnection n e _).serverAccept owner n x.1 x.2).2 :=
        (congrArg Prod.snd (Except.ok.inj hx)).symm
      refine ⟨_, .toRemote n e x up down hphase, ?_⟩
      exact Refines.serverAccept
        (h.setConnection (p := .opened up down) rfl (by rw [hphase]; nofun) nofun) n x

lemma Refines.step (h : Refines s m) {a : Action Node Endpoint Key Value} (htidy : Tidy s a)
    (hx : s.step owner a = .ok (r, s')) :
    ∃ m', m.Step owner a m' ∧ Refines s' m' := by
  cases a with
  | publish n key value =>
    obtain rfl : s' = (s.serverAccept owner n key value).2 := (congrArg Prod.snd (Except.ok.inj hx)).symm
    exact ⟨_, .publish n key value, h.serverAccept n (key, value)⟩
  | unpublish n key =>
    cases hx
    refine ⟨_, .unpublish n key, fun a k => ?_, h.connection, h.active⟩
    change (update s.tuples n ((s.tuples n).erase key) a).lookup k =
      update m.tuples n (update (m.tuples n) key none) a k
    rw [update_update_apply, ← h.tuples]
    by_cases ha : a = n
    · subst ha
      by_cases hk : k = key
      · subst hk
        simp
      · simp [hk]
    · simp [ha]
  | connect n e walk =>
    cases hx
    exact h.serverConnect walk htidy
  | expire n e => exact htidy.elim
  | handleProtocol n e walk => exact h.handleProtocol hx
  | remoteHandler n e => exact h.remoteHandler hx

end

end Zgossip

end Czmq
