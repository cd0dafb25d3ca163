import Czmq.Base.Bytes

/-! Z85, the text form of binary keys: four bytes are one number, written with five of 85 digits. -/

abbrev Key := { bytes : List UInt8 // bytes.length = 32 }

namespace Key

def zero : Key := ⟨List.replicate 32 0, rfl⟩

def ofBytes (bytes : List UInt8) : Key := if h : bytes.length = 32 then ⟨bytes, h⟩ else zero

end Key

/-- Keys as texts of 40 digits, none of them a quote, a newline or the terminator. Any other text
decodes to some key. -/
structure Z85 where
  encode : Key → List UInt8
  decode : List UInt8 → Key
  decode_encode : ∀ key, decode (encode key) = key
  length_encode : ∀ key, (encode key).length = 40
  plain : ∀ key, ∀ c ∈ encode key, c ≠ 34 ∧ c ≠ 10 ∧ c ≠ 0

namespace Z85

def digits : List UInt8 :=
  [48, 49, 50, 51, 52, 53, 54, 55, 56, 57, 97, 98, 99, 100, 101, 102, 103, 104, 105, 106, 107, 108, 109,
    110, 111, 112, 113, 114, 115, 116, 117, 118, 119, 120, 121, 122, 65, 66, 67, 68, 69, 70, 71, 72, 73,
    74, 75, 76, 77, 78, 79, 80, 81, 82, 83, 84, 85, 86, 87, 88, 89, 90, 46, 45, 58, 43, 61, 94, 33, 47,
    42, 63, 38, 60, 62, 40, 41, 91, 93, 123, 125, 64, 37, 36, 35]

def digit (n : Nat) : UInt8 := digits.getD (n % 85) 48

def encodeGroup (n : Nat) : List UInt8 :=
  [digit (n / 85 ^ 4), digit (n / 85 ^ 3), digit (n / 85 ^ 2), digit (n / 85), digit n]

def decodeGroup (cs : List UInt8) : Nat := cs.foldl (fun n c => n * 85 + digits.idxOf c) 0

def encodeBytes : List UInt8 → List UInt8
  | a :: b :: c :: d :: rest => encodeGroup (Bytes.ofBytes [a, b, c, d]) ++ encodeBytes rest
  | _ => []

def decodeText : List UInt8 → List UInt8
  | a :: b :: c :: d :: e :: rest => Bytes.toBytes 4 (decodeGroup [a, b, c, d, e]) ++ decodeText rest
  | _ => []

lemma idxOf_digit (n : Nat) : digits.idxOf (digit n) = n % 85 := by
  have h : ∀ m < 85, digits.idxOf (digits.getD m 48) = m := by decide
  exact h _ (Nat.mod_lt _ (by decide))

lemma decodeGroup_encodeGroup {n : Nat} (h : n < 85 ^ 5) : decodeGroup (encodeGroup n) = n := by
  simp only [decodeGroup, encodeGroup, List.foldl_cons, List.foldl_nil, idxOf_digit]
  omega

variable {bytes : List UInt8}

lemma decodeText_encodeBytes (h : 4 ∣ bytes.length) :
    decodeText (encodeBytes bytes) = bytes := by
  fun_induction encodeBytes bytes with
  | case1 a b c d rest ih =>
    have hlt : Bytes.ofBytes [a, b, c, d] < 85 ^ 5 :=
      (Bytes.ofBytes_lt _).trans (show 256 ^ 4 < 85 ^ 5 by decide)
    have hbytes : Bytes.toBytes 4 (Bytes.ofBytes [a, b, c, d]) = [a, b, c, d] :=
      Bytes.toBytes_ofBytes rfl
    have hgroup := decodeGroup_encodeGroup hlt
    have hrest : 4 ∣ rest.length := (Nat.dvd_add_left (Nat.dvd_refl 4)).mp h
    rw [encodeGroup] at hgroup
    rw [encodeGroup, List.cons_append, List.cons_append, List.cons_append, List.cons_append,
      List.cons_append, List.nil_append, decodeText, hgroup, hbytes, ih hrest]
    rfl
  | case2 bytes hshort =>
    match bytes, h, hshort with
    | [], _, _ => rfl
    | [_], h, _ => simp at h
    | [_, _], h, _ => simp at h
    | [_, _, _], h, _ => simp at h
    | a :: b :: c :: d :: rest, _, hshort => exact absurd rfl (hshort a b c d rest)

lemma length_encodeBytes {n : Nat} (h : bytes.length = 4 * n) :
    (encodeBytes bytes).length = 5 * n := by
  fun_induction encodeBytes bytes generalizing n with
  | case1 a b c d rest ih =>
    have hrest : rest.length = 4 * (n - 1) := by
      simp only [List.length_cons] at h
      omega
    rw [List.length_append, ih hrest]
    simp only [List.length_cons] at h
    simp only [encodeGroup, List.length_cons, List.length_nil]
    omega
  | case2 bytes hshort =>
    match bytes, h, hshort with
    | [], h, _ =>
      simp only [List.length_nil] at h ⊢
      omega
    | [_], h, _ => simp only [List.length_cons, List.length_nil] at h; omega
    | [_, _], h, _ => simp only [List.length_cons, List.length_nil] at h; omega
    | [_, _, _], h, _ => simp only [List.length_cons, List.length_nil] at h; omega
    | a :: b :: c :: d :: rest, _, hshort => exact absurd rfl (hshort a b c d rest)

lemma mem_digits_of_mem_encodeBytes {c : UInt8} (h : c ∈ encodeBytes bytes) :
    c ∈ digits := by
  have hdigit : ∀ n, digit n ∈ digits := fun n => by
    have hall : ∀ m < 85, digits.getD m 48 ∈ digits := by decide
    exact hall _ (Nat.mod_lt _ (by decide))
  fun_induction encodeBytes bytes with
  | case1 a b c d rest ih =>
    rcases List.mem_append.mp h with h | h
    · simp only [encodeGroup, List.mem_cons, List.not_mem_nil, or_false] at h
      rcases h with rfl | rfl | rfl | rfl | rfl <;> exact hdigit _
    · exact ih h
  | case2 bytes hshort => cases h

def standard : Z85 where
  encode key := encodeBytes key.1
  decode text := Key.ofBytes (decodeText text)
  decode_encode key := by
    have hdvd : 4 ∣ key.1.length := by
      rw [key.2]
      decide
    rw [decodeText_encodeBytes hdvd]
    exact dif_pos key.2
  length_encode key := by
    have hlen : key.1.length = 4 * 8 := key.2
    exact length_encodeBytes hlen
  plain key c hc := by
    have hall : ∀ d ∈ digits, d ≠ 34 ∧ d ≠ 10 ∧ d ≠ 0 := by decide +kernel
    exact hall c (mem_digits_of_mem_encodeBytes hc)

end Z85
