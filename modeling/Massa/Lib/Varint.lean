import Mathlib.Order.Basic
import Mathlib.Tactic.Linarith

/-!
# Unsigned LEB128 variable-length integers

`Varint.encode n` writes `n` seven bits per byte, least significant group
first, with the high bit set on every byte but the last: the format of the
`unsigned-varint` library.  `Varint.decode fuel bytes` reads one number from
the front of `bytes`, reading at most `fuel` bytes (ten for a `u64`, three for
a `u16`) and rejecting an encoding that is not minimal (a last byte zero after
the first), as that library does.

Main results:
* `decode_encode` — decoding an encoding gives the number back and leaves
  the rest of the input;
* `length_encode_le` and `lt_length_encode` — how many bytes a number takes.
-/

namespace Varint

/-- The LEB128 groups of `n`, least significant first, the recursion bounded
by `fuel` so that the encoding computes by evaluation; `encode` gives it fuel
`n`, which is always enough (`encodeAux_of_le`). -/
def encodeAux : ℕ → ℕ → List UInt8
  | 0, n => [n.toUInt8]
  | fuel + 1, n =>
    if n < 128 then [n.toUInt8] else (n % 128 + 128).toUInt8 :: encodeAux fuel (n / 128)

/-- The LEB128 encoding of `n`. -/
def encode (n : ℕ) : List UInt8 := encodeAux n n

/-- Read one number from the front of `bytes`, using at most `fuel` bytes. -/
def decode : ℕ → List UInt8 → Option (ℕ × List UInt8)
  | 0, _ => none
  | _ + 1, [] => none
  | fuel + 1, b :: rest =>
    if b.toNat < 128 then some (b.toNat, rest)
    else
      match decode fuel rest with
      -- a zero group after a continuation byte is a non-minimal encoding
      | some (m, rest') => if m = 0 then none else some (b.toNat % 128 + 128 * m, rest')
      | none => none

/-- Any fuel from `n` on gives the same groups. -/
theorem encodeAux_fuel {fuel₁ fuel₂ n : ℕ} (h₁ : n ≤ fuel₁) (h₂ : n ≤ fuel₂) :
    encodeAux fuel₁ n = encodeAux fuel₂ n := by
  induction fuel₁ generalizing n fuel₂ with
  | zero =>
    obtain rfl : n = 0 := by omega
    cases fuel₂ <;> rfl
  | succ fuel₁ ih =>
    cases fuel₂ with
    | zero =>
      obtain rfl : n = 0 := by omega
      rfl
    | succ fuel₂ =>
      rw [encodeAux, encodeAux]
      split_ifs with hn
      · rfl
      · -- a group is split off, and the rest is below both remaining fuels
        rw [@ih fuel₂ (n / 128) (by omega) (by omega)]

theorem encodeAux_of_le {fuel n : ℕ} (h : n ≤ fuel) : encodeAux fuel n = encode n :=
  encodeAux_fuel h le_rfl

theorem encode_of_lt {n : ℕ} (h : n < 128) : encode n = [n.toUInt8] := by
  cases n with
  | zero => rfl
  | succ m => rw [encode, encodeAux, if_pos h]

theorem encode_of_le {n : ℕ} (h : 128 ≤ n) :
    encode n = (n % 128 + 128).toUInt8 :: encode (n / 128) := by
  obtain ⟨m, rfl⟩ : ∃ m, n = m + 1 := ⟨n - 1, by omega⟩
  rw [encode, encodeAux, if_neg (by omega), encodeAux_of_le (by omega)]

theorem length_encode_pos (n : ℕ) : 0 < (encode n).length := by
  by_cases h : n < 128
  · simp [encode_of_lt h]
  · simp [encode_of_le (not_lt.mp h)]

theorem length_encode_of_lt {n : ℕ} (h : n < 128) : (encode n).length = 1 := by
  rw [encode_of_lt h, List.length_singleton]

theorem toNat_toUInt8 {n : ℕ} (h : n < 256) : n.toUInt8.toNat = n := by
  simp [Nat.toUInt8, UInt8.toNat_ofNat', Nat.mod_eq_of_lt h]

/-- A number below `128 ^ (k + 1)` takes at most `k + 1` bytes. -/
theorem length_encode_le (n k : ℕ) (h : n < 128 ^ (k + 1)) : (encode n).length ≤ k + 1 := by
  induction k generalizing n with
  | zero =>
    rw [encode_of_lt (by simpa using h)]
    simp
  | succ k ih =>
    by_cases hn : n < 128
    · rw [encode_of_lt hn]
      simp
    · have hdiv : n / 128 < 128 ^ (k + 1) := by
        rw [Nat.div_lt_iff_lt_mul (by norm_num), ← pow_succ]
        exact h
      rw [encode_of_le (by omega), List.length_cons]
      have := ih (n / 128) hdiv
      omega

/-- A number at least `128 ^ k` takes more than `k` bytes. -/
theorem lt_length_encode (n k : ℕ) (h : 128 ^ k ≤ n) : k < (encode n).length := by
  induction k generalizing n with
  | zero => exact length_encode_pos n
  | succ k ih =>
    have hn : 128 ≤ n := le_trans (Nat.le_self_pow (by omega) 128) h
    have hdiv : 128 ^ k ≤ n / 128 := by
      rw [Nat.le_div_iff_mul_le (by norm_num), ← pow_succ]
      exact h
    rw [encode_of_le hn, List.length_cons]
    have := ih (n / 128) hdiv
    omega

/-- **Round trip**: with enough fuel, decoding the encoding of `n` followed by
any bytes gives `n` and those bytes. -/
theorem decode_encode (n : ℕ) (rest : List UInt8) (fuel : ℕ) (h : (encode n).length ≤ fuel) :
    decode fuel (encode n ++ rest) = some (n, rest) := by
  induction n using Nat.strong_induction_on generalizing fuel with
  | _ n ih =>
    obtain _ | fuel := fuel
    · exact absurd h (Nat.not_le.mpr (length_encode_pos n))
    by_cases hn : n < 128
    · rw [encode_of_lt hn, List.singleton_append, decode, toNat_toUInt8 (by omega), if_pos hn]
    · have hlow : (n % 128 + 128).toUInt8.toNat = n % 128 + 128 := toNat_toUInt8 (by omega)
      have hfuel : (encode (n / 128)).length ≤ fuel := by
        rw [encode_of_le (by omega), List.length_cons] at h
        omega
      have htail := ih (n / 128) (by omega) fuel hfuel
      rw [encode_of_le (by omega), List.cons_append, decode, hlow, if_neg (by omega), htail]
      -- the high group is not zero, so the encoding is minimal
      have hhigh : n / 128 ≠ 0 := by omega
      simp only [hhigh, if_false, Option.some.injEq, Prod.mk.injEq, and_true]
      omega

end Varint
