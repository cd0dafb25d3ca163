import Czmq.Base.Bytes

/-! What stops a run of the C code short of a return. -/

namespace Czmq

/-- Why an execution does not return: a failed `assert`, an access outside an object or to a dead
one, a variadic argument of the wrong type, an endless loop, an `abort` for lack of memory, or
signed overflow. -/
inductive Fault where
  | assertion
  | outOfBounds (index : Nat)
  | useAfterFree
  | badArgument
  | endlessLoop
  | outOfMemory
  | overflow
  deriving DecidableEq, Repr

@[simp] lemma ok_bind {α β : Type} (a : α) (f : α → Except Fault β) :
    ((Except.ok a : Except Fault α) >>= f) = f a := rfl

@[simp] lemma error_bind {α β : Type} (e : Fault) (f : α → Except Fault β) :
    ((Except.error e : Except Fault α) >>= f) = .error e := rfl

lemma bind_eq_ok {α β : Type} {x : Except Fault α} {f : α → Except Fault β} {b : β} :
    x >>= f = .ok b ↔ ∃ a, x = .ok a ∧ f a = .ok b := by
  cases x with
  | error e => simp
  | ok a => simp

lemma exists_bind_eq_ok {α β : Type} {x : Except Fault α} {f : α → Except Fault β}
    (hx : ∃ a, x = .ok a) (hf : ∀ a, ∃ b, f a = .ok b) : ∃ b, x >>= f = .ok b := by
  obtain ⟨a, rfl⟩ := hx
  exact hf a

lemma exists_of_toOption_map {α β : Type} {x : Except Fault α} {f : α → β} {b : β}
    (h : x.toOption.map f = some b) : ∃ a, x = .ok a ∧ f a = b := by
  cases x with
  | error e => cases h
  | ok a => exact ⟨a, rfl, Option.some.inj h⟩

def load (b : Bytes.Block) (p n : Nat) : Except Fault (List UInt8) :=
  match b.slice p n with
  | some bs => .ok bs
  | none => .error (.outOfBounds p)

lemma load_append {b : Bytes.Block} {pre mid post : List UInt8} {p n : Nat}
    (h : b.data = pre ++ mid ++ post) (hp : p = b.base + pre.length) (hn : n = mid.length) :
    load b p n = .ok mid := by
  rw [load, hp, hn, Bytes.Block.slice, if_pos (by rw [h]; simp only [List.length_append]; omega), h]
  simp

lemma load_eq_ok {b : Bytes.Block} {p n : Nat} {bs : List UInt8} :
    load b p n = .ok bs ↔ b.base ≤ p ∧ p + n ≤ b.base + b.data.length ∧
      (b.data.drop (p - b.base)).take n = bs := by
  rw [load, Bytes.Block.slice]
  by_cases h : b.base ≤ p ∧ p + n ≤ b.base + b.data.length
  · simp [h]
  · rw [if_neg h]
    constructor
    · intro herror
      cases herror
    · rintro ⟨hbase, hend, _⟩
      exact absurd ⟨hbase, hend⟩ h

lemma load_of_lt {b : Bytes.Block} {p n : Nat} (h : b.base + b.data.length < p + n) :
    load b p n = .error (.outOfBounds p) := by
  rw [load, Bytes.Block.slice, if_neg (by omega)]

end Czmq
