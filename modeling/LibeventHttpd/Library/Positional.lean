import Mathlib.Data.Nat.Digits.Defs
import Mathlib.Data.Nat.Digits.Lemmas
import Mathlib.Algebra.BigOperators.Intervals
import Mathlib.Tactic.Ring
import Mathlib.Tactic.Linarith
import Mathlib.Tactic.LinearCombination

/-! Positional numerals written most significant digit first, and the carry chain of
the school algorithms that fill such a numeral from its right end. -/
namespace LibeventHttpd.Positional
open scoped BigOperators

/-- The number a word of base-`b` digits denotes, most significant digit first. -/
def value (b : ℕ) (ds : List ℕ) : ℕ := Nat.ofDigits b ds.reverse

variable {b : ℕ}

@[simp] theorem value_nil : value b [] = 0 := rfl

theorem value_append (xs ys : List ℕ) :
    value b (xs ++ ys) = value b xs*b^ys.length + value b ys := by
  simp only [value, List.reverse_append, Nat.ofDigits_append, List.length_reverse]
  ring

@[simp] theorem value_singleton (d : ℕ) : value b [d] = d := by simp [value]

theorem value_cons (d : ℕ) (ds : List ℕ) : value b (d::ds) = d*b^ds.length + value b ds := by
  have h := value_append (b := b) [d] ds
  simpa using h

theorem value_snoc (ds : List ℕ) (d : ℕ) : value b (ds ++ [d]) = b*value b ds + d := by
  rw [value_append, value_singleton, List.length_singleton, pow_one, Nat.mul_comm]

theorem value_lt (hb : 1 < b) {ds : List ℕ} (h : ∀ d ∈ ds, d < b) :
    value b ds < b^ds.length := by
  have hr := Nat.ofDigits_lt_base_pow_length hb (l := ds.reverse) (by simpa using h)
  simpa [value] using hr

theorem value_injective (hb : 1 < b) {xs ys : List ℕ} (hl : xs.length = ys.length)
    (hx : ∀ d ∈ xs, d < b) (hy : ∀ d ∈ ys, d < b) (hv : value b xs = value b ys) : xs = ys := by
  have h : xs.reverse = ys.reverse := Nat.ofDigits_inj_of_len_eq hb (by simpa using hl)
    (by simpa using hx) (by simpa using hy) hv
  exact List.reverse_injective h

/-- A word without a leading zero is at least the power of its own length. -/
theorem pow_le_value {d : ℕ} {ds : List ℕ} (hd : 0 < d) : b^ds.length ≤ value b (d::ds) := by
  rw [value_cons]
  exact (Nat.le_mul_of_pos_left _ hd).trans (Nat.le_add_right _ _)

@[simp] theorem value_replicate_zero (n : ℕ) : value b (List.replicate n 0) = 0 := by
  induction n with
  | zero => rfl
  | succ n ih => rw [List.replicate_succ, value_cons, ih]; simp

theorem value_zero_append (n : ℕ) (ds : List ℕ) :
    value b (List.replicate n 0 ++ ds) = value b ds := by
  rw [value_append, value_replicate_zero, Nat.zero_mul, Nat.zero_add]

/-- Among words of one length the first differing digit decides. -/
theorem value_cons_lt (hb : 1 < b) {c d : ℕ} {xs ys : List ℕ} (hl : xs.length = ys.length)
    (hx : ∀ e ∈ xs, e < b) (hcd : c < d) : value b (c::xs) < value b (d::ys) := by
  have hlt := value_lt hb hx
  rw [value_cons, value_cons, ← hl]
  nlinarith [Nat.mul_le_mul_right (b^xs.length) hcd]

/-- A word built from its right end: `f i` is the digit of place `i`. -/
def fromRight {α : Type*} (f : ℕ → α) : ℕ → List α
  | 0 => []
  | n+1 => f n :: fromRight f n

@[simp] theorem fromRight_length {α : Type*} (f : ℕ → α) (n : ℕ) :
    (fromRight f n).length = n := by
  induction n with
  | zero => rfl
  | succ n ih => simp [fromRight, ih]

theorem fromRight_map {α β : Type*} (f : ℕ → α) (g : α → β) (n : ℕ) :
    (fromRight f n).map g = fromRight (fun i => g (f i)) n := by
  induction n with
  | zero => rfl
  | succ n ih => simp [fromRight, ih]

theorem fromRight_congr {α : Type*} {f g : ℕ → α} {n : ℕ} (h : ∀ i < n, f i = g i) :
    fromRight f n = fromRight g n := by
  induction n with
  | zero => rfl
  | succ n ih => rw [fromRight, fromRight, h n (by omega), ih fun i hi => h i (by omega)]

theorem mem_fromRight {α : Type*} {f : ℕ → α} {n : ℕ} {x : α} :
    x ∈ fromRight f n ↔ ∃ i < n, f i = x := by
  induction n with
  | zero => simp [fromRight]
  | succ n ih =>
    simp only [fromRight, List.mem_cons, ih, Nat.lt_succ_iff_lt_or_eq, or_and_right, exists_or,
      exists_eq_left]
    constructor
    · rintro (rfl | h)
      · exact .inr rfl
      · exact .inl h
    · rintro (h | rfl)
      · exact .inr h
      · exact .inl rfl

theorem fromRight_getElem? {α : Type*} (f : ℕ → α) {n i : ℕ} (hi : i < n) :
    (fromRight f n)[n-1-i]? = some (f i) := by
  induction n with
  | zero => omega
  | succ n ih =>
    rcases Nat.lt_succ_iff_lt_or_eq.mp hi with h | rfl
    · have he : n+1-1-i = (n-1-i)+1 := by omega
      rw [he, fromRight, List.getElem?_cons_succ, ih h]
    · simp [fromRight]

theorem fromRight_set {α : Type*} (f : ℕ → α) {n i : ℕ} (hi : i < n) (v : α) :
    (fromRight f n).set (n-1-i) v = fromRight (Function.update f i v) n := by
  induction n with
  | zero => omega
  | succ n ih =>
    rcases Nat.lt_succ_iff_lt_or_eq.mp hi with h | rfl
    · have he : n+1-1-i = (n-1-i)+1 := by omega
      rw [he, fromRight, List.set_cons_succ, ih h, fromRight, Function.update_of_ne (by omega)]
    · have hc : fromRight f i = fromRight (Function.update f i v) i :=
        fromRight_congr fun j hj => (Function.update_of_ne (by omega) _ _).symm
      simp only [fromRight, Nat.add_sub_cancel, Nat.sub_self, List.set_cons_zero,
        Function.update_self, ← hc]

theorem fromRight_const {α : Type*} (x : α) (n : ℕ) :
    fromRight (fun _ => x) n = List.replicate n x := by
  induction n with
  | zero => rfl
  | succ n ih => rw [fromRight, ih, List.replicate_succ]

theorem value_fromRight (f : ℕ → ℕ) (n : ℕ) :
    value b (fromRight f n) = ∑ i ∈ Finset.range n, f i*b^i := by
  induction n with
  | zero => rfl
  | succ n ih =>
    rw [fromRight, value_cons, fromRight_length, ih, Finset.sum_range_succ, Nat.add_comm]

/-- Every word is the word of its own places. -/
theorem eq_fromRight {α : Type*} (xs : List α) (z : α) :
    xs = fromRight (fun i => xs.reverse.getD i z) xs.length := by
  induction xs with
  | nil => rfl
  | cons x xs ih =>
    rw [List.length_cons, fromRight]
    congr 1
    · simp [List.getD_eq_getElem?_getD]
    · refine ih.trans (fromRight_congr fun i hi => ?_)
      simp only [List.getD_eq_getElem?_getD, List.reverse_cons]
      rw [List.getElem?_append_left (by simpa using hi)]

section Carry
variable (b : ℤ) (t : ℕ → ℤ)

/-- The carry into place `n` when the place sums are `t`; floor division makes a
borrow a carry of `-1`. -/
def carry : ℕ → ℤ
  | 0 => 0
  | n+1 => (t n+carry n)/b

/-- The digit left in place `n`. -/
def digitOf (n : ℕ) : ℤ := (t n+carry b t n)%b

theorem digitOf_add_carry (n : ℕ) : digitOf b t n + b*carry b t (n+1) = t n+carry b t n :=
  Int.emod_add_mul_ediv _ _

/-- Digits and outgoing carry together hold the sum of the places. -/
theorem carry_sum (n : ℕ) :
    ∑ i ∈ Finset.range n, digitOf b t i*b^i + carry b t n*b^n =
      ∑ i ∈ Finset.range n, t i*b^i := by
  induction n with
  | zero => simp [carry]
  | succ n ih =>
    have h := digitOf_add_carry b t n
    rw [Finset.sum_range_succ, Finset.sum_range_succ, ← ih, pow_succ]
    linear_combination b^n*h

theorem digitOf_nonneg (hb : 0 < b) (n : ℕ) : 0 ≤ digitOf b t n := Int.emod_nonneg _ hb.ne'

theorem digitOf_lt (hb : 0 < b) (n : ℕ) : digitOf b t n < b := Int.emod_lt_of_pos _ hb

theorem carry_nonneg (hb : 0 < b) (ht : ∀ i, 0 ≤ t i) (n : ℕ) : 0 ≤ carry b t n := by
  induction n with
  | zero => exact le_rfl
  | succ n ih => exact Int.ediv_nonneg (add_nonneg (ht n) ih) hb.le

/-- A bound `c` on the carry that one place preserves bounds every carry. -/
theorem carry_le (hb : 0 < b) {c : ℤ} (hc : 0 ≤ c) (ht : ∀ i, t i+c < b*(c+1)) (n : ℕ) :
    carry b t n ≤ c := by
  induction n with
  | zero => exact hc
  | succ n ih =>
    have h := ht n
    have hlt : (t n+carry b t n)/b < c+1 :=
      Int.ediv_lt_of_lt_mul hb (by linarith [mul_comm b (c+1)])
    exact Int.lt_add_one_iff.mp hlt

/-- Place sums of at least `1-b` never borrow more than one. -/
theorem neg_one_le_carry (hb : 0 < b) (ht : ∀ i, 1-b ≤ t i) (n : ℕ) : -1 ≤ carry b t n := by
  induction n with
  | zero => exact neg_one_lt_zero.le
  | succ n ih =>
    have h := ht n
    exact (Int.le_ediv_iff_mul_le hb).mpr (by linarith)

end Carry
end LibeventHttpd.Positional
