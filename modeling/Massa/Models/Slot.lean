import Mathlib.Order.Basic
import Mathlib.Order.Lex
import Mathlib.Data.Prod.Lex
import Massa.Lib.BigEndian
import Massa.Lib.Lists
import Massa.Models.Basic
import Massa.Models.Time

/-!
# Slots (`massa-models/src/slot.rs`)

A slot is a `(period, thread)` pair, ordered lexicographically as `Slot::cmp`
compares the tuple.  The order is given by the `ℕ × ℕ` key of the two
fixed-width fields, so that order facts reduce to arithmetic on `toNat`
(`Slot.lt_iff`, `Slot.le_iff`).

A slot is stored in database keys as `to_bytes_key`: the period in eight
big-endian bytes, then the thread byte.  This key is an order embedding
(`Slot.toBytesKey_strictMono`), also with any bytes after it
(`Slot.toBytesKey_append_lt_append`), and `from_bytes_key` reads it back
(`Slot.fromBytesKey_of_toList`): a range scan over such keys visits slots in
order.  `get_next_slot` is the least slot above, among the slots of valid
threads (`Slot.lt_iff_getNextSlot_le`).

Among the slots of threads below `thread_count`, a slot is determined by its
position `period * thread_count + thread` (`Slot.index`), which orders them
as `Slot::cmp` does (`Slot.index_lt_index_iff`).  `get_next_slot` moves one
position on (`Slot.getNextSlot_index`) and `k` calls move `k` positions
(`Slot.iterNextSlot_index`); `get_prev_slot` undoes it
(`Slot.getPrevSlot_getNextSlot`) and fails only at `(0, 0)`; `slots_since`
is the difference of the positions when the count fits in a `u64`
(`Slot.slotsSince_eq`).
-/

namespace Massa

/-- `Slot { period: u64, thread: u8 }`. -/
structure Slot where
  period : UInt64
  thread : UInt8
  deriving DecidableEq, Repr

namespace Slot

/-- `Slot::new`. -/
def new (period : UInt64) (thread : UInt8) : Slot := ⟨period, thread⟩

/-- The tuple `(period, thread)` that `Slot::cmp` compares. -/
def cmpKey (s : Slot) : Lex (ℕ × ℕ) := toLex (s.period.toNat, s.thread.toNat)

theorem cmpKey_injective : Function.Injective cmpKey := by
  rintro ⟨p, t⟩ ⟨p', t'⟩ h
  simp only [cmpKey, toLex_inj, Prod.mk.injEq] at h
  rw [UInt64.toNat_inj.mp h.1, UInt8.toNat_inj.mp h.2]

/-- `impl Ord for Slot`: lexicographic on `(period, thread)`. -/
instance : LinearOrder Slot := LinearOrder.lift' cmpKey cmpKey_injective

/-- `impl Display for Slot`. -/
def display (s : Slot) : String :=
  "(period: " ++ toString s.period ++ ", thread: " ++ toString s.thread ++ ")"

theorem lt_iff {s t : Slot} :
    s < t ↔ s.period.toNat < t.period.toNat ∨
      (s.period.toNat = t.period.toNat ∧ s.thread.toNat < t.thread.toNat) :=
  Prod.Lex.toLex_lt_toLex

theorem le_iff {s t : Slot} :
    s ≤ t ↔ s.period.toNat < t.period.toNat ∨
      (s.period.toNat = t.period.toNat ∧ s.thread.toNat ≤ t.thread.toNat) :=
  Prod.Lex.toLex_le_toLex

/-- `ModelsError`, with the variants of the slot and time functions. -/
inductive ModelsError where
  | periodOverflowError
  | threadOverflowError
  | timeOverflowError
  | timeError (e : TimeError)
  deriving DecidableEq, Repr

/-- The `Debug` text of a `ModelsError`, as `expect` prints it. -/
def ModelsError.debug : ModelsError → String
  | .periodOverflowError => "PeriodOverflowError"
  | .threadOverflowError => "ThreadOverflowError"
  | .timeOverflowError => "TimeOverflowError"
  | .timeError e => "TimeError(" ++ e.debug ++ ")"

/-- `SLOT_KEY_SIZE`. -/
def slotKeySize : ℕ := 9

/-- `Slot::to_bytes_key`: the period in big-endian, then the thread. -/
def toBytesKey (s : Slot) : Bytes := BigEndian.encode 8 s.period.toNat ++ [s.thread]

/-- `Slot::from_bytes_key`. -/
def fromBytesKey (buffer : Vector UInt8 slotKeySize) : Slot :=
  ⟨UInt64.ofNat (BigEndian.decode (buffer.toList.take 8)), buffer[8]⟩

/-- `Slot::get_next_slot`. -/
def getNextSlot (self : Slot) (threadCount : UInt8) : Except ModelsError Slot :=
  -- `self.thread.saturating_add(1u8) >= thread_count`
  if min (self.thread.toNat + 1) 255 ≥ threadCount.toNat then
    if self.period.toNat + 1 < 2 ^ 64 then .ok ⟨self.period + 1, 0⟩ else .error .periodOverflowError
  else if self.thread.toNat + 1 < 2 ^ 8 then .ok ⟨self.period, self.thread + 1⟩
  else .error .threadOverflowError

/-- `Slot::get_cycle`: the division panics on a zero `periods_per_cycle`. -/
def getCycle (self : Slot) (periodsPerCycle : UInt64) : Except String UInt64 :=
  if periodsPerCycle = 0 then .error "attempt to divide by zero"
  else .ok (self.period / periodsPerCycle)

/-- `Slot::new_last_of_cycle`: the last period of the cycle (checked), at the
last thread (`thread_count.saturating_sub(1)`). -/
def newLastOfCycle (cycle periodsPerCycle : UInt64) (threadCount : UInt8) :
    Except ModelsError Slot :=
  if cycle.toNat * periodsPerCycle.toNat < 2 ^ 64 then
    -- `periods_per_cycle.saturating_sub(1)`
    let last : UInt64 := if periodsPerCycle = 0 then 0 else periodsPerCycle - 1
    if (cycle * periodsPerCycle).toNat + last.toNat < 2 ^ 64 then
      .ok ⟨cycle * periodsPerCycle + last, if threadCount = 0 then 0 else threadCount - 1⟩
    else .error .periodOverflowError
  else .error .periodOverflowError

/-- `Slot::new_first_of_cycle`: the first period of the cycle (checked), at
thread 0. -/
def newFirstOfCycle (cycle periodsPerCycle : UInt64) : Except ModelsError Slot :=
  if cycle.toNat * periodsPerCycle.toNat < 2 ^ 64 then .ok ⟨cycle * periodsPerCycle, 0⟩
  else .error .periodOverflowError

@[simp] theorem length_toBytesKey (s : Slot) : s.toBytesKey.length = slotKeySize := by
  simp [toBytesKey, slotKeySize]

theorem fromBytesKey_of_toList {s : Slot} {buffer : Vector UInt8 slotKeySize}
    (h : buffer.toList = s.toBytesKey) : fromBytesKey buffer = s := by
  have hperiod : buffer.toList.take 8 = BigEndian.encode 8 s.period.toNat := by
    rw [h, toBytesKey, List.take_left' (BigEndian.length_encode 8 _)]
  have hthread : buffer[8] = s.thread := by
    have h8 : buffer.toList[8]? = some s.thread := by
      rw [h, toBytesKey, List.getElem?_append_right (by simp)]
      simp
    rw [Vector.getElem?_toList, Vector.getElem?_eq_getElem (by decide)] at h8
    exact Option.some.inj h8
  rw [fromBytesKey, hperiod, BigEndian.decode_encode s.period.toNat_lt, UInt64.ofNat_toNat,
    hthread]

/-- The key of a lower slot is lower. -/
theorem toBytesKey_strictMono : StrictMono toBytesKey := by
  intro s t hst
  rcases lt_iff.mp hst with hp | ⟨hp, ht⟩
  · -- the periods differ: the first eight bytes decide
    have henc : BigEndian.encode 8 s.period.toNat < BigEndian.encode 8 t.period.toNat :=
      (BigEndian.lex_encode_iff s.period.toNat_lt t.period.toNat_lt).mpr hp
    exact List.append_lt_append_of_lt (by simp) henc _ _
  · -- the same period: the thread byte decides
    rw [toBytesKey, toBytesKey, hp, List.append_lt_append_left_iff]
    exact (List.lex_singleton_iff _ _).mpr ht

theorem toBytesKey_injective : Function.Injective toBytesKey := toBytesKey_strictMono.injective

/-- Keys that start with slot keys compare by the slots first. -/
theorem toBytesKey_append_lt_append {s t : Slot} (h : s < t) (x y : Bytes) :
    s.toBytesKey ++ x < t.toBytesKey ++ y :=
  List.append_lt_append_of_lt (by simp) (toBytesKey_strictMono h) x y

/-- A slot key is at most a key that starts with the key of a slot not
below it. -/
theorem toBytesKey_le_append_iff {s t : Slot} (x : Bytes) :
    s.toBytesKey ≤ t.toBytesKey ++ x ↔ s ≤ t := by
  constructor
  · intro h
    by_contra hts
    have hlt := toBytesKey_append_lt_append (not_le.mp hts) x []
    rw [List.append_nil] at hlt
    exact not_le.mpr hlt h
  · intro h
    rcases h.lt_or_eq with hlt | rfl
    · have hlt' := toBytesKey_append_lt_append hlt [] x
      rw [List.append_nil] at hlt'
      exact hlt'.le
    · exact List.le_append_self _ _

/-- **What a step does.**  `get_next_slot` opens the next period at thread 0
from the last thread of a period (or a thread past it), and otherwise moves
to the next thread of the same period. -/
theorem getNextSlot_cases {s n : Slot} {threadCount : UInt8}
    (h : s.getNextSlot threadCount = .ok n) :
    (threadCount.toNat ≤ s.thread.toNat + 1 ∧ n.period.toNat = s.period.toNat + 1 ∧
        n.thread.toNat = 0) ∨
      (s.thread.toNat + 1 < threadCount.toNat ∧ n.period = s.period ∧
        n.thread.toNat = s.thread.toNat + 1) := by
  have hT := threadCount.toNat_lt
  unfold getNextSlot at h
  split_ifs at h with hlast hnoover hnothover
  · -- the last thread of the period: the next period, at thread 0
    cases h
    refine .inl ⟨by omega, ?_, UInt8.toNat_zero⟩
    rw [UInt64.toNat_add, UInt64.toNat_one, Nat.mod_eq_of_lt hnoover]
  · -- the next thread of the same period
    cases h
    refine .inr ⟨by omega, rfl, ?_⟩
    rw [UInt8.toNat_add, UInt8.toNat_one, Nat.mod_eq_of_lt hnothover]

/-- `get_next_slot` only moves up, whatever the thread count. -/
theorem lt_of_getNextSlot_eq_ok {s n : Slot} {threadCount : UInt8}
    (h : s.getNextSlot threadCount = .ok n) : s < n := by
  rw [lt_iff]
  rcases getNextSlot_cases h with ⟨-, hp, -⟩ | ⟨-, hp, hth⟩
  · exact .inl (by omega)
  · exact .inr ⟨by rw [hp], by omega⟩

/-- **The next slot.**  Among the slots of threads below `threadCount`, the
slots above `s` are those from `s.getNextSlot threadCount` on. -/
theorem lt_iff_getNextSlot_le {s n t : Slot} {threadCount : UInt8}
    (hs : s.thread.toNat < threadCount.toNat) (hn : s.getNextSlot threadCount = .ok n)
    (ht : t.thread.toNat < threadCount.toNat) : s < t ↔ n ≤ t := by
  rw [lt_iff, le_iff]
  rcases getNextSlot_cases hn with ⟨hlast, hp, hth⟩ | ⟨-, hp, hth⟩
  · -- `s` is the last thread of its period: the next slot opens the next period
    omega
  · -- the next thread of the same period
    rw [hp]
    omega

/-- `get_next_slot` fails only past the last period. -/
theorem getNextSlot_eq_error_iff {s : Slot} {threadCount : UInt8}
    (hs : s.thread.toNat < threadCount.toNat) :
    (∃ e, s.getNextSlot threadCount = .error e) ↔
      s.period.toNat = 2 ^ 64 - 1 ∧ s.thread.toNat + 1 = threadCount.toNat := by
  have hp := s.period.toNat_lt
  have hT := threadCount.toNat_lt
  unfold getNextSlot
  split_ifs with hlast hnoover hnothover
  · exact ⟨fun ⟨_, he⟩ => (by cases he), fun ⟨_, _⟩ => absurd hnoover (by omega)⟩
  · exact ⟨fun _ => ⟨by omega, by omega⟩, fun _ => ⟨_, rfl⟩⟩
  · exact ⟨fun ⟨_, he⟩ => (by cases he), fun ⟨_, _⟩ => absurd hlast (by omega)⟩
  · exact absurd hnothover (by omega)

/-- The last thread of the last period has no next slot, for every thread
count (the thread wraps to 255 when the count is 0). -/
theorem getNextSlot_last (threadCount : UInt8) :
    (Slot.mk (UInt64.ofNat (2 ^ 64 - 1)) (threadCount - 1)).getNextSlot threadCount =
      .error .periodOverflowError := by
  have hT := threadCount.toNat_lt
  have hlast : min ((threadCount - 1).toNat + 1) 255 ≥ threadCount.toNat := by
    rw [UInt8.toNat_sub, UInt8.toNat_one]
    omega
  have hmax : ¬((UInt64.ofNat (2 ^ 64 - 1)).toNat + 1 < 2 ^ 64) := by decide
  rw [getNextSlot, if_pos hlast, if_neg hmax]

/-- `Slot::get_prev_slot`: the previous thread, or the last thread
(`thread_count.saturating_sub(1)`) of the previous period; the first slot
has none. -/
def getPrevSlot (self : Slot) (threadCount : UInt8) : Except ModelsError Slot :=
  -- `self.thread.checked_sub(1u8)`
  if 1 ≤ self.thread.toNat then .ok ⟨self.period, self.thread - 1⟩
  else if 1 ≤ self.period.toNat then
    .ok ⟨self.period - 1, if threadCount = 0 then 0 else threadCount - 1⟩
  else .error .periodOverflowError

/-- `Slot::slots_since`: the number of slots from `s` to `self`, an error
when `s` is above `self` or when the count overflows. -/
def slotsSince (self s : Slot) (threadCount : UInt8) : Except ModelsError UInt64 :=
  if s > self then .error .periodOverflowError
  else
    let periods := self.period - s.period
    if periods.toNat * threadCount.toNat < 2 ^ 64 then
      let slots := periods * threadCount.toUInt64
      if slots.toNat + self.thread.toNat < 2 ^ 64 then
        let total := slots + self.thread.toUInt64
        -- `.saturating_sub(s.thread as u64)`
        .ok (if s.thread.toUInt64 ≤ total then total - s.thread.toUInt64 else 0)
      else .error .periodOverflowError
    else .error .periodOverflowError

/-- The position of a slot in the sequence of the slots of `threadCount`
threads. -/
def index (threadCount : UInt8) (s : Slot) : ℕ := s.period.toNat * threadCount.toNat + s.thread.toNat

/-- `n` calls of `get_next_slot` in a row. -/
def iterNextSlot (threadCount : UInt8) : ℕ → Slot → Except ModelsError Slot
  | 0, s => .ok s
  | n + 1, s => (s.getNextSlot threadCount).bind (iterNextSlot threadCount n)

section Index

variable {threadCount : UInt8}

/-- A slot of a lower period has a lower position. -/
theorem index_lt_of_period_lt {a b : Slot} (ha : a.thread.toNat < threadCount.toNat)
    (hp : a.period.toNat < b.period.toNat) : a.index threadCount < b.index threadCount :=
  calc a.index threadCount
      = a.period.toNat * threadCount.toNat + a.thread.toNat := rfl
    _ < (a.period.toNat + 1) * threadCount.toNat := by rw [Nat.add_mul, one_mul]; omega
    _ ≤ b.period.toNat * threadCount.toNat := Nat.mul_le_mul_right _ hp
    _ ≤ b.index threadCount := Nat.le_add_right _ _

/-- Among the slots of valid threads, positions are ordered as the slots. -/
theorem index_lt_index_iff {s t : Slot} (hs : s.thread.toNat < threadCount.toNat)
    (ht : t.thread.toNat < threadCount.toNat) :
    s.index threadCount < t.index threadCount ↔ s < t := by
  constructor
  · intro h
    by_contra hts
    rcases (not_lt.mp hts).lt_or_eq with hlt | rfl
    · rcases lt_iff.mp hlt with hp | ⟨hp, hth⟩
      · exact absurd (index_lt_of_period_lt ht hp) (not_lt.mpr h.le)
      · unfold index at h
        rw [hp] at h
        omega
    · exact lt_irrefl _ h
  · intro h
    rcases lt_iff.mp h with hp | ⟨hp, hth⟩
    · exact index_lt_of_period_lt hs hp
    · unfold index
      rw [hp]
      omega

theorem index_le_index_iff {s t : Slot} (hs : s.thread.toNat < threadCount.toNat)
    (ht : t.thread.toNat < threadCount.toNat) :
    s.index threadCount ≤ t.index threadCount ↔ s ≤ t := by
  rw [← not_lt, ← not_lt]
  exact not_congr (index_lt_index_iff ht hs)

/-- A slot of a valid thread is determined by its position. -/
theorem eq_of_index_eq {s t : Slot} (hs : s.thread.toNat < threadCount.toNat)
    (ht : t.thread.toNat < threadCount.toNat) (h : s.index threadCount = t.index threadCount) :
    s = t := by
  rcases lt_trichotomy s t with hlt | heq | hgt
  · exact absurd h ((index_lt_index_iff hs ht).mpr hlt).ne
  · exact heq
  · exact absurd h ((index_lt_index_iff ht hs).mpr hgt).ne'

/-- Every slot of a valid thread lies below position `2 ^ 64 * threadCount`. -/
theorem index_lt (s : Slot) (hs : s.thread.toNat < threadCount.toNat) :
    s.index threadCount < 2 ^ 64 * threadCount.toNat :=
  calc s.index threadCount
      < (s.period.toNat + 1) * threadCount.toNat := by unfold index; rw [Nat.add_mul, one_mul]; omega
    _ ≤ 2 ^ 64 * threadCount.toNat := Nat.mul_le_mul_right _ s.period.toNat_lt

/-- **One step.**  `get_next_slot` moves one position on, to a valid
thread. -/
theorem getNextSlot_index {s n : Slot} (hs : s.thread.toNat < threadCount.toNat)
    (h : s.getNextSlot threadCount = .ok n) :
    n.index threadCount = s.index threadCount + 1 ∧ n.thread.toNat < threadCount.toNat := by
  rcases getNextSlot_cases h with ⟨hlast, hp, hth⟩ | ⟨hnext, hp, hth⟩
  · -- the last thread of the period: the next period, at thread 0
    refine ⟨?_, by omega⟩
    rw [index, index, hp, hth, Nat.add_mul, one_mul]
    omega
  · refine ⟨?_, by omega⟩
    rw [index, index, hp, hth]
    omega

/-- From a slot to one not below it, the positions differ by the periods
between them times the thread count, plus the difference of the threads. -/
theorem index_sub_index {a b : Slot} (hab : a ≤ b) (ha : a.thread.toNat < threadCount.toNat) :
    b.index threadCount - a.index threadCount =
      (b.period.toNat - a.period.toNat) * threadCount.toNat + b.thread.toNat - a.thread.toNat := by
  have hmul : (b.period.toNat - a.period.toNat) * threadCount.toNat =
      b.period.toNat * threadCount.toNat - a.period.toNat * threadCount.toNat := Nat.sub_mul _ _ _
  rcases le_iff.mp hab with hp | ⟨hp, hth⟩
  · -- a later period: its first thread is already past every thread of `a`
    have hle : a.period.toNat * threadCount.toNat + threadCount.toNat ≤
        b.period.toNat * threadCount.toNat := by
      rw [← Nat.succ_mul]
      exact Nat.mul_le_mul_right _ hp
    unfold index
    omega
  · unfold index
    rw [hp] at hmul ⊢
    omega

/-- The thread of `a` is covered by the slots from `a`'s period to `b`. -/
theorem thread_le_of_le {a b : Slot} (hab : a ≤ b) (ha : a.thread.toNat < threadCount.toNat) :
    a.thread.toNat ≤ (b.period.toNat - a.period.toNat) * threadCount.toNat + b.thread.toNat := by
  rcases le_iff.mp hab with hp | ⟨hp, hth⟩
  · have hle : threadCount.toNat ≤ (b.period.toNat - a.period.toNat) * threadCount.toNat :=
      Nat.le_mul_of_pos_left _ (by omega)
    exact ha.le.trans (hle.trans (Nat.le_add_right _ _))
  · rw [hp, Nat.sub_self, zero_mul, zero_add]
    exact hth

/-- `get_next_slot` succeeds below the last position. -/
theorem getNextSlot_eq_ok_of_index_lt {s : Slot} (hs : s.thread.toNat < threadCount.toNat)
    (h : s.index threadCount + 1 < 2 ^ 64 * threadCount.toNat) :
    ∃ n, s.getNextSlot threadCount = .ok n := by
  cases hnext : s.getNextSlot threadCount with
  | ok n => exact ⟨n, rfl⟩
  | error e =>
    -- only the last slot fails, and it is at the last position
    obtain ⟨hp, hth⟩ := (getNextSlot_eq_error_iff hs).mp ⟨e, hnext⟩
    have hmul : (2 ^ 64 - 1) * threadCount.toNat = 2 ^ 64 * threadCount.toNat - threadCount.toNat := by
      rw [Nat.sub_mul, one_mul]
    have hle : threadCount.toNat ≤ 2 ^ 64 * threadCount.toNat := Nat.le_mul_of_pos_left _ (by norm_num)
    simp only [index, hp, hmul] at h
    omega

/-- **A run of steps.**  `k` steps from a slot of a valid thread end at the
position `k` further on. -/
theorem iterNextSlot_index {k : ℕ} {a b : Slot} (ha : a.thread.toNat < threadCount.toNat)
    (h : iterNextSlot threadCount k a = .ok b) :
    b.index threadCount = a.index threadCount + k ∧ b.thread.toNat < threadCount.toNat := by
  induction k generalizing a with
  | zero =>
    cases h
    exact ⟨rfl, ha⟩
  | succ k ih =>
    rw [iterNextSlot] at h
    cases hnext : a.getNextSlot threadCount with
    | error e =>
      rw [hnext] at h
      cases h
    | ok n =>
      rw [hnext, Except.bind] at h
      obtain ⟨hn, hnth⟩ := getNextSlot_index ha hnext
      obtain ⟨hb, hbth⟩ := ih hnth h
      exact ⟨by omega, hbth⟩

/-- `k` steps succeed as long as they stay below the last position. -/
theorem iterNextSlot_eq_ok {k : ℕ} {a : Slot} (ha : a.thread.toNat < threadCount.toNat)
    (hk : a.index threadCount + k < 2 ^ 64 * threadCount.toNat) :
    ∃ b, iterNextSlot threadCount k a = .ok b := by
  induction k generalizing a with
  | zero => exact ⟨a, rfl⟩
  | succ k ih =>
    obtain ⟨n, hnext⟩ := getNextSlot_eq_ok_of_index_lt ha (by omega)
    obtain ⟨hn, hnth⟩ := getNextSlot_index ha hnext
    obtain ⟨b, hb⟩ := ih hnth (by omega)
    refine ⟨b, ?_⟩
    rw [iterNextSlot, hnext, Except.bind, hb]

/-- **Steps between two slots.**  From a slot of a valid thread to one not
below it, `get_next_slot` steps exactly the difference of the positions. -/
theorem iterNextSlot_index_sub {a b : Slot} (ha : a.thread.toNat < threadCount.toNat)
    (hb : b.thread.toNat < threadCount.toNat) (hab : a ≤ b) :
    iterNextSlot threadCount (b.index threadCount - a.index threadCount) a = .ok b := by
  have hle := (index_le_index_iff ha hb).mpr hab
  have hlast := index_lt b hb
  obtain ⟨c, hc⟩ := iterNextSlot_eq_ok ha
    (show a.index threadCount + (b.index threadCount - a.index threadCount) <
      2 ^ 64 * threadCount.toNat by omega)
  obtain ⟨hcidx, hcth⟩ := iterNextSlot_index ha hc
  rw [hc, eq_of_index_eq hcth hb (by omega)]

end Index

/-- `get_prev_slot` undoes `get_next_slot`. -/
theorem getPrevSlot_getNextSlot {threadCount : UInt8} {s n : Slot}
    (hs : s.thread.toNat < threadCount.toNat) (h : s.getNextSlot threadCount = .ok n) :
    n.getPrevSlot threadCount = .ok s := by
  have hT : threadCount ≠ 0 := by
    intro h0
    rw [h0, UInt8.toNat_zero] at hs
    omega
  unfold getNextSlot at h
  split_ifs at h with hlast hnoover hnothover
  · -- from thread 0 of the next period back to the last thread
    cases h
    have hsucc : (s.period + 1).toNat = s.period.toNat + 1 := by
      rw [UInt64.toNat_add, UInt64.toNat_one, Nat.mod_eq_of_lt hnoover]
    have hthread : threadCount - 1 = s.thread := by
      apply UInt8.toNat_inj.mp
      rw [UInt8.toNat_sub_of_le _ _ (UInt8.le_iff_toNat_le.mpr (by rw [UInt8.toNat_one]; omega)),
        UInt8.toNat_one]
      omega
    rw [getPrevSlot, if_neg (by simp), if_pos (by rw [hsucc]; omega), if_neg hT, hthread,
      UInt64.add_sub_cancel]
  · cases h
    have hsucc : (s.thread + 1).toNat = s.thread.toNat + 1 := by
      rw [UInt8.toNat_add, UInt8.toNat_one, Nat.mod_eq_of_lt hnothover]
    rw [getPrevSlot, if_pos (by rw [hsucc]; omega), UInt8.add_sub_cancel]

/-- `get_prev_slot` fails only at the first slot. -/
theorem getPrevSlot_eq_error_iff {s : Slot} {threadCount : UInt8} :
    (∃ e, s.getPrevSlot threadCount = .error e) ↔ s = ⟨0, 0⟩ := by
  unfold getPrevSlot
  constructor
  · rintro ⟨e, he⟩
    split_ifs at he with hth hp
    have hth0 : s.thread = 0 := UInt8.toNat_inj.mp (by simp; omega)
    have hp0 : s.period = 0 := UInt64.toNat_inj.mp (by simp; omega)
    cases s
    simp only at hth0 hp0
    rw [hth0, hp0]
  · rintro rfl
    exact ⟨_, rfl⟩

/-- **The slots since.**  From `a` to a slot `b` not below it, when the
count fits, `slots_since` is the difference of the positions. -/
theorem slotsSince_eq {threadCount : UInt8} {a b : Slot} (hab : a ≤ b)
    (hfit : (b.period.toNat - a.period.toNat) * threadCount.toNat + b.thread.toNat < 2 ^ 64) :
    ∃ k : UInt64, b.slotsSince a threadCount = .ok k ∧
      k.toNat = (b.period.toNat - a.period.toNat) * threadCount.toNat + b.thread.toNat -
        a.thread.toNat := by
  have hp : a.period.toNat ≤ b.period.toNat := by
    rcases le_iff.mp hab with h | ⟨h, -⟩ <;> omega
  have hperiods : (b.period - a.period).toNat = b.period.toNat - a.period.toNat :=
    UInt64.toNat_sub_of_le _ _ (UInt64.le_iff_toNat_le.mpr hp)
  have hmul : (b.period.toNat - a.period.toNat) * threadCount.toNat < 2 ^ 64 := by omega
  have hslots : ((b.period - a.period) * threadCount.toUInt64).toNat =
      (b.period.toNat - a.period.toNat) * threadCount.toNat := by
    rw [UInt64.toNat_mul, hperiods, UInt8.toNat_toUInt64, Nat.mod_eq_of_lt hmul]
  have htotal : ((b.period - a.period) * threadCount.toUInt64 + b.thread.toUInt64).toNat =
      (b.period.toNat - a.period.toNat) * threadCount.toNat + b.thread.toNat := by
    rw [UInt64.toNat_add, hslots, UInt8.toNat_toUInt64, Nat.mod_eq_of_lt hfit]
  rw [slotsSince, if_neg (not_lt.mpr hab)]
  simp only [hperiods, hslots]
  rw [if_pos hmul, if_pos (by omega)]
  split_ifs with hsub
  · refine ⟨_, rfl, ?_⟩
    rw [UInt64.toNat_sub_of_le _ _ hsub, htotal, UInt8.toNat_toUInt64]
  · refine ⟨_, rfl, ?_⟩
    rw [UInt64.le_iff_toNat_le, htotal, UInt8.toNat_toUInt64] at hsub
    simp
    omega

/-- No slot has passed since a slot itself. -/
theorem slotsSince_self (s : Slot) (threadCount : UInt8) : s.slotsSince s threadCount = .ok 0 := by
  have hthread : s.thread.toNat < 2 ^ 64 := s.thread.toNat_lt.trans (by norm_num)
  rw [slotsSince, if_neg (lt_irrefl s)]
  -- no period between them, and the thread is taken back off
  simp only [UInt64.sub_self, UInt64.toNat_zero, zero_mul, zero_add]
  rw [if_pos (by norm_num), if_pos hthread, ite_self]

/-- `slots_since` is the difference of the positions whenever the later
position fits in a `u64`. -/
theorem slotsSince_eq_index_sub {threadCount : UInt8} {a b : Slot} (hab : a ≤ b)
    (ha : a.thread.toNat < threadCount.toNat) (hb : b.index threadCount < 2 ^ 64) :
    ∃ k : UInt64, b.slotsSince a threadCount = .ok k ∧
      k.toNat = b.index threadCount - a.index threadCount := by
  -- the periods from `a` to `b` are at most the periods of `b`
  have hperiods : (b.period.toNat - a.period.toNat) * threadCount.toNat ≤
      b.period.toNat * threadCount.toNat := Nat.mul_le_mul_right _ (Nat.sub_le _ _)
  obtain ⟨k, hk, hkval⟩ := @slotsSince_eq threadCount a b hab (by unfold index at hb; omega)
  exact ⟨k, hk, by rw [hkval, index_sub_index hab ha]⟩

/-! ### Cycles -/

section Cycle

variable {cycle periodsPerCycle : UInt64} {threadCount : UInt8}

/-- With the cycle's periods within `u64`, its first slot is thread 0 of
period `cycle * periods_per_cycle`. -/
theorem newFirstOfCycle_eq (hppc : 0 < periodsPerCycle.toNat)
    (hfit : (cycle.toNat + 1) * periodsPerCycle.toNat ≤ 2 ^ 64) :
    ∃ first, newFirstOfCycle cycle periodsPerCycle = .ok first ∧
      first.period.toNat = cycle.toNat * periodsPerCycle.toNat ∧ first.thread.toNat = 0 := by
  have hmul : cycle.toNat * periodsPerCycle.toNat < 2 ^ 64 := by
    rw [Nat.succ_mul] at hfit
    omega
  refine ⟨_, if_pos hmul, ?_, UInt8.toNat_zero⟩
  rw [UInt64.toNat_mul, Nat.mod_eq_of_lt hmul]

/-- Its last slot is the last thread of the cycle's last period. -/
theorem newLastOfCycle_eq (hppc : 0 < periodsPerCycle.toNat) (hT : 0 < threadCount.toNat)
    (hfit : (cycle.toNat + 1) * periodsPerCycle.toNat ≤ 2 ^ 64) :
    ∃ last, newLastOfCycle cycle periodsPerCycle threadCount = .ok last ∧
      last.period.toNat + 1 = (cycle.toNat + 1) * periodsPerCycle.toNat ∧
      last.thread.toNat + 1 = threadCount.toNat := by
  rw [Nat.succ_mul] at hfit ⊢
  have hmul : cycle.toNat * periodsPerCycle.toNat < 2 ^ 64 := by omega
  have hstart : (cycle * periodsPerCycle).toNat = cycle.toNat * periodsPerCycle.toNat := by
    rw [UInt64.toNat_mul, Nat.mod_eq_of_lt hmul]
  have hppc0 : periodsPerCycle ≠ 0 := fun h => by simp [h] at hppc
  have hT0 : threadCount ≠ 0 := fun h => by simp [h] at hT
  -- `periods_per_cycle.saturating_sub(1)` and `thread_count.saturating_sub(1)`
  have hlastPeriod : (periodsPerCycle - 1).toNat = periodsPerCycle.toNat - 1 :=
    UInt64.toNat_sub_of_le _ _ (UInt64.le_iff_toNat_le.mpr (by rw [UInt64.toNat_one]; omega))
  have hlastThread : (threadCount - 1).toNat = threadCount.toNat - 1 :=
    UInt8.toNat_sub_of_le _ _ (UInt8.le_iff_toNat_le.mpr (by rw [UInt8.toNat_one]; omega))
  have hend : (cycle * periodsPerCycle).toNat + (periodsPerCycle - 1).toNat < 2 ^ 64 := by
    rw [hstart, hlastPeriod]
    omega
  rw [newLastOfCycle, if_pos hmul]
  simp only [if_neg hppc0, if_pos hend, if_neg hT0]
  refine ⟨_, rfl, ?_, by rw [hlastThread]; omega⟩
  rw [UInt64.toNat_add, Nat.mod_eq_of_lt hend, hstart, hlastPeriod]
  omega

/-- The first slot of the cycle is at position
`cycle * periods_per_cycle * thread_count`. -/
theorem newFirstOfCycle_index (hppc : 0 < periodsPerCycle.toNat) (hT : 0 < threadCount.toNat)
    (hfit : (cycle.toNat + 1) * periodsPerCycle.toNat * threadCount.toNat ≤ 2 ^ 64) :
    ∃ first, newFirstOfCycle cycle periodsPerCycle = .ok first ∧
      first.thread.toNat < threadCount.toNat ∧
      first.index threadCount = cycle.toNat * periodsPerCycle.toNat * threadCount.toNat := by
  obtain ⟨first, hfirst, hp, hth⟩ :=
    newFirstOfCycle_eq hppc ((Nat.le_mul_of_pos_right _ hT).trans hfit)
  exact ⟨first, hfirst, by omega, by rw [index, hp, hth, Nat.add_zero]⟩

/-- Its last slot is at the position before the next cycle's first. -/
theorem newLastOfCycle_index (hppc : 0 < periodsPerCycle.toNat) (hT : 0 < threadCount.toNat)
    (hfit : (cycle.toNat + 1) * periodsPerCycle.toNat * threadCount.toNat ≤ 2 ^ 64) :
    ∃ last, newLastOfCycle cycle periodsPerCycle threadCount = .ok last ∧
      last.thread.toNat < threadCount.toNat ∧
      last.index threadCount + 1 = (cycle.toNat + 1) * periodsPerCycle.toNat * threadCount.toNat := by
  obtain ⟨last, hlast, hp, hth⟩ :=
    newLastOfCycle_eq hppc hT ((Nat.le_mul_of_pos_right _ hT).trans hfit)
  refine ⟨last, hlast, by omega, ?_⟩
  rw [index, ← hp, Nat.succ_mul]
  omega

/-- A slot is in cycle `cycle` when its period is one of the cycle's
`periods_per_cycle` periods. -/
theorem getCycle_eq_ok_iff {s : Slot} (hppc : 0 < periodsPerCycle.toNat) :
    s.getCycle periodsPerCycle = .ok cycle ↔
      cycle.toNat * periodsPerCycle.toNat ≤ s.period.toNat ∧
        s.period.toNat < (cycle.toNat + 1) * periodsPerCycle.toNat := by
  have hppc0 : periodsPerCycle ≠ 0 := fun h => by simp [h] at hppc
  rw [getCycle, if_neg hppc0, Except.ok.injEq, ← UInt64.toNat_inj, UInt64.toNat_div,
    ← Nat.le_div_iff_mul_le hppc, ← Nat.div_lt_iff_lt_mul hppc]
  omega

/-- Among the slots of valid threads, those of cycle `cycle` are the positions
from `cycle * periods_per_cycle * thread_count` up to the next cycle's. -/
theorem getCycle_eq_ok_iff_index {s : Slot} (hppc : 0 < periodsPerCycle.toNat)
    (hs : s.thread.toNat < threadCount.toNat) :
    s.getCycle periodsPerCycle = .ok cycle ↔
      cycle.toNat * periodsPerCycle.toNat * threadCount.toNat ≤ s.index threadCount ∧
        s.index threadCount < (cycle.toNat + 1) * periodsPerCycle.toNat * threadCount.toNat := by
  rw [getCycle_eq_ok_iff hppc, index]
  -- the positions of period `p` run from `p * T` to `p * T + T - 1`
  have hnext : s.period.toNat * threadCount.toNat + s.thread.toNat <
      (s.period.toNat + 1) * threadCount.toNat := by
    rw [Nat.succ_mul]
    omega
  constructor
  · rintro ⟨hlo, hhi⟩
    exact ⟨(Nat.mul_le_mul_right _ hlo).trans (Nat.le_add_right _ _),
      hnext.trans_le (Nat.mul_le_mul_right _ hhi)⟩
  · rintro ⟨hlo, hhi⟩
    refine ⟨Nat.le_of_not_lt fun hp => ?_, Nat.lt_of_not_le fun hp => ?_⟩
    · have := Nat.mul_le_mul_right threadCount.toNat
        (show s.period.toNat + 1 ≤ cycle.toNat * periodsPerCycle.toNat from hp)
      omega
    · have := Nat.mul_le_mul_right threadCount.toNat hp
      omega

/-- A cycle has a slot below a slot `t` exactly when it begins before `t`'s
position. -/
theorem exists_getCycle_lt_iff (hppc : 0 < periodsPerCycle.toNat) (hT : 0 < threadCount.toNat)
    (hfit : (cycle.toNat + 1) * periodsPerCycle.toNat * threadCount.toNat ≤ 2 ^ 64) {t : Slot}
    (ht : t.thread.toNat < threadCount.toNat) :
    (∃ s : Slot, s.thread.toNat < threadCount.toNat ∧ s.getCycle periodsPerCycle = .ok cycle ∧
      s < t) ↔ cycle.toNat * periodsPerCycle.toNat * threadCount.toNat < t.index threadCount := by
  constructor
  · rintro ⟨s, hs, hcycle, hlt⟩
    have hlo := ((getCycle_eq_ok_iff_index hppc hs).mp hcycle).1
    have hidx := (index_lt_index_iff hs ht).mpr hlt
    omega
  · intro hlt
    -- the first slot of the cycle is one
    obtain ⟨first, -, hth, hidx⟩ := newFirstOfCycle_index hppc hT hfit
    have hlen : 0 < periodsPerCycle.toNat * threadCount.toNat := Nat.mul_pos hppc hT
    have hnext : (cycle.toNat + 1) * periodsPerCycle.toNat * threadCount.toNat =
        cycle.toNat * periodsPerCycle.toNat * threadCount.toNat +
          periodsPerCycle.toNat * threadCount.toNat := by ring
    refine ⟨first, hth, (getCycle_eq_ok_iff_index hppc hth).mpr ⟨hidx.ge, by omega⟩, ?_⟩
    exact (index_lt_index_iff hth ht).mp (by omega)

/-- A cycle has a slot above a slot `t` exactly when it ends after `t`'s
position. -/
theorem exists_getCycle_gt_iff (hppc : 0 < periodsPerCycle.toNat) (hT : 0 < threadCount.toNat)
    (hfit : (cycle.toNat + 1) * periodsPerCycle.toNat * threadCount.toNat ≤ 2 ^ 64) {t : Slot}
    (ht : t.thread.toNat < threadCount.toNat) :
    (∃ s : Slot, s.thread.toNat < threadCount.toNat ∧ s.getCycle periodsPerCycle = .ok cycle ∧
      t < s) ↔
      t.index threadCount + 1 < (cycle.toNat + 1) * periodsPerCycle.toNat * threadCount.toNat := by
  constructor
  · rintro ⟨s, hs, hcycle, hlt⟩
    have hhi := ((getCycle_eq_ok_iff_index hppc hs).mp hcycle).2
    have hidx := (index_lt_index_iff ht hs).mpr hlt
    omega
  · intro hlt
    -- the last slot of the cycle is one
    obtain ⟨last, -, hth, hidx⟩ := newLastOfCycle_index hppc hT hfit
    have hlen : 0 < periodsPerCycle.toNat * threadCount.toNat := Nat.mul_pos hppc hT
    have hnext : (cycle.toNat + 1) * periodsPerCycle.toNat * threadCount.toNat =
        cycle.toNat * periodsPerCycle.toNat * threadCount.toNat +
          periodsPerCycle.toNat * threadCount.toNat := by ring
    refine ⟨last, hth, (getCycle_eq_ok_iff_index hppc hth).mpr ⟨by omega, by omega⟩, ?_⟩
    exact (index_lt_index_iff ht hth).mp (by omega)

end Cycle

end Slot

end Massa
