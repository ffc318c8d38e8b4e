import Mathlib.Data.List.Lex
import Mathlib.Tactic.Ring

/-!
# Fixed-width big-endian byte strings

`BigEndian.encode w n` is the `w`-byte big-endian form of `n`, the
`to_be_bytes` of a `w`-byte unsigned integer, and `BigEndian.decode` is
`from_be_bytes`.  Decoding undoes encoding on numbers that fit in `w` bytes
(`decode_encode`), and big-endian is the encoding under
which the lexicographic order of byte strings is the order of the numbers
(`lex_encode_iff`): the reason databases use it for sortable keys.

Bytes are compared by value; the order is stated with `List.Lex` over
`toNat` so that it holds for any order on bytes that compares values.
-/

namespace BigEndian

/-- The `w`-byte big-endian form of `n`, most significant byte first. -/
def encode : ℕ → ℕ → List UInt8
  | 0, _ => []
  | w + 1, n => UInt8.ofNat (n / 256 ^ w) :: encode w (n % 256 ^ w)

/-- The number a big-endian byte string stands for. -/
def decode (bytes : List UInt8) : ℕ := bytes.foldl (fun acc b => acc * 256 + b.toNat) 0

@[simp] theorem length_encode (w n : ℕ) : (encode w n).length = w := by
  induction w generalizing n with
  | zero => rfl
  | succ w ih => rw [encode, List.length_cons, ih]

/-- The decoding loop started from `acc` shifts `acc` past the bytes. -/
theorem foldl_decode (bytes : List UInt8) (acc : ℕ) :
    bytes.foldl (fun acc b => acc * 256 + b.toNat) acc = acc * 256 ^ bytes.length + decode bytes := by
  induction bytes generalizing acc with
  | nil => simp [decode]
  | cons b bytes ih =>
    rw [decode, List.foldl_cons, List.foldl_cons, ih, ih (0 * 256 + b.toNat), List.length_cons,
      Nat.pow_succ]
    ring

theorem decode_cons (b : UInt8) (bytes : List UInt8) :
    decode (b :: bytes) = b.toNat * 256 ^ bytes.length + decode bytes := by
  rw [decode, List.foldl_cons, foldl_decode, Nat.zero_mul, Nat.zero_add]

/-- The leading byte of a number below `256 ^ (w + 1)` is its quotient. -/
theorem toNat_ofNat_div {w n : ℕ} (h : n < 256 ^ (w + 1)) :
    (UInt8.ofNat (n / 256 ^ w)).toNat = n / 256 ^ w := by
  have hlt : n / 256 ^ w < 256 := by
    rw [Nat.div_lt_iff_lt_mul (Nat.pow_pos (by decide)), ← Nat.pow_succ']
    exact h
  rw [UInt8.toNat_ofNat', Nat.mod_eq_of_lt hlt]

theorem decode_encode {w n : ℕ} (h : n < 256 ^ w) : decode (encode w n) = n := by
  induction w generalizing n with
  | zero =>
    have hn : n = 0 := by simpa using h
    rw [hn]
    rfl
  | succ w ih =>
    rw [encode, decode_cons, length_encode, toNat_ofNat_div h,
      ih (Nat.mod_lt _ (Nat.pow_pos (by decide)))]
    exact Nat.div_add_mod' n (256 ^ w)

/-- Two numbers compare as their quotients by `p`, then as their remainders. -/
theorem lt_iff_div_mod {p : ℕ} (n m : ℕ) :
    n < m ↔ n / p < m / p ∨ (n / p = m / p ∧ n % p < m % p) := by
  have hn := Nat.div_add_mod n p
  have hm := Nat.div_add_mod m p
  constructor
  · intro hlt
    rcases Nat.lt_or_ge (n / p) (m / p) with hq | hq
    · exact .inl hq
    · have heq : n / p = m / p := le_antisymm (Nat.div_le_div_right hlt.le) hq
      refine .inr ⟨heq, ?_⟩
      rw [heq] at hn
      omega
  · rintro (hq | ⟨heq, hr⟩)
    · exact Nat.lt_of_div_lt_div hq
    · rw [heq] at hn
      omega

/-- **Big-endian keys sort as their numbers.** -/
theorem lex_encode_iff {w n m : ℕ} (hn : n < 256 ^ w) (hm : m < 256 ^ w) :
    List.Lex (fun a b : UInt8 => a.toNat < b.toNat) (encode w n) (encode w m) ↔ n < m := by
  induction w generalizing n m with
  | zero =>
    have hn0 : n = 0 := by simpa using hn
    have hm0 : m = 0 := by simpa using hm
    rw [hn0, hm0]
    exact ⟨fun h => (nomatch h), fun h => absurd h (Nat.lt_irrefl 0)⟩
  | succ w ih =>
    have hpos : 0 < 256 ^ w := Nat.pow_pos (by decide)
    rw [encode, encode, List.cons_lex_cons_iff, toNat_ofNat_div hn, toNat_ofNat_div hm,
      ih (Nat.mod_lt _ hpos) (Nat.mod_lt _ hpos), lt_iff_div_mod (p := 256 ^ w) n m]
    -- equal leading bytes are equal quotients
    have hbyte : UInt8.ofNat (n / 256 ^ w) = UInt8.ofNat (m / 256 ^ w) ↔ n / 256 ^ w = m / 256 ^ w := by
      rw [← UInt8.toNat_inj, toNat_ofNat_div hn, toNat_ofNat_div hm]
    rw [hbyte]

end BigEndian
