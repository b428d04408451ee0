import LibeventHttpd.Library.Cells
import LibeventHttpd.MathCgi.Operand

/-! The addition and subtraction routines. Both fill a fresh block from its right end, with a
carry or a borrow running left; the counters count digits of the operands. -/
namespace LibeventHttpd.MathCgi
open Cells Positional
open scoped BigOperators

/-- `data[size-index]-'0'` -/
def digitFrom (data : List CChar) (index : ℤ) : Option ℤ :=
  (fetch data (data.length-index)).map digit

/-- The second operand's digit under `if(index <= size2)`. -/
def secondDigit (data2 : List CChar) (index : ℤ) : Option ℤ :=
  if index ≤ data2.length then digitFrom data2 index else some 0

/-- The iterations `index = 1, …, n` of the loop of `ADD`: the block and `step` after them. -/
def carryLoop (data1 data2 : List CChar) (ret : Block CChar) : ℕ → Option (Block CChar × ℤ)
  | 0 => some (ret,0)
  | n+1 => do
    let (ret,step) ← carryLoop data1 data2 ret n
    let index : ℤ := n+1
    let tmp := (← digitFrom data1 index) + step
    let tmp := tmp + (← secondDigit data2 index)
    let ret ← put ret (data1.length-index+2) (digitChar (tmp.tmod 10))
    return (ret,tmp.tdiv 10)

/-- `ADD` once the longer operand stands first. -/
def addOrdered (data1 data2 : List CChar) (sybom1 : CChar) : Option (Block CChar) := do
  let ret ← malloc (data1.length+2)
  let ret ← put ret 0 sybom1
  let (ret,step) ← carryLoop data1 data2 ret data1.length
  put ret 1 (digitChar step)

def add (data1 data2 : List CChar) (sybom1 _sybom2 : CChar) : Option (Block CChar) :=
  if data1.length < data2.length then addOrdered data2 data1 sybom1
  else addOrdered data1 data2 sybom1

/-- The iterations `index = 1, …, n` of the loop of `SUB`. -/
def borrowLoop (data1 data2 : List CChar) (ret : Block CChar) : ℕ → Option (Block CChar × ℤ)
  | 0 => some (ret,0)
  | n+1 => do
    let (ret,step) ← borrowLoop data1 data2 ret n
    let index : ℤ := n+1
    let tmp := (← digitFrom data1 index) - step
    let tmp := tmp - (← secondDigit data2 index)
    let ret ← put ret (data1.length-index+1) (digitChar (if tmp < 0 then tmp+10 else tmp))
    return (ret,if tmp < 0 then 1 else 0)

/-- `SUB` once the larger magnitude stands first and the sign is chosen. -/
def subOrdered (data1 data2 : List CChar) (sybom : CChar) : Option (Block CChar) := do
  let ret ← malloc (data1.length+1)
  let ret ← put ret 0 sybom
  let (ret,_) ← borrowLoop data1 data2 ret data1.length
  return ret

/-- `(size1 < size2) || ((size1 == size2) && (strcmp(data1, data2) < 0))` -/
def isSmaller (data1 data2 : List CChar) : Bool :=
  data1.length < data2.length ∨ data1.length = data2.length ∧ strcmp data1 data2 < 0

def sub (data1 data2 : List CChar) (sybom1 sybom2 : CChar) : Option (Block CChar) :=
  if isSmaller data1 data2 then subOrdered data2 data1 sybom2
  else subOrdered data1 data2 sybom1

theorem digitFrom_eq {data : List CChar} {i : ℕ} (hi : i < data.length) :
    digitFrom data (i+1) = some (digitAt data i) := by
  have h : ((data.length : ℤ)-(i+1)) = ((data.length-(i+1) : ℕ) : ℤ) := by omega
  rw [digitFrom, fetch_eq h, getElem?_sub_succ hi]
  rfl

/-- Beyond the left end of the shorter operand nothing is added. -/
theorem secondDigit_eq (data : List CChar) (i : ℕ) :
    secondDigit data (i+1) = some (digitAt data i) := by
  unfold secondDigit
  split_ifs with h
  · exact digitFrom_eq (by omega)
  · rw [digitAt_of_length_le (by omega)]

/-- Length first, then lexicographic order, is numeric order on canonical strings. -/
theorem isSmaller_iff {a b : List CChar} (ha : Canonical a) (hb : Canonical b) :
    isSmaller a b = true ↔ number a < number b := by
  have longer {s t : List CChar} (hs : Canonical s) (ht : Canonical t)
      (hl : s.length < t.length) : number s < number t := by
    have h0 : t ≠ [ch '0'] := by
      rintro rfl
      have hpos := List.length_pos_of_ne_nil hs.2.1
      rw [List.length_singleton] at hl
      omega
    calc
      number s < 10^s.length := number_lt hs.1
      _ ≤ 10^(t.length-1) := Nat.pow_le_pow_right (by decide) (by omega)
      _ ≤ number t := ht.pow_le h0
  simp only [isSmaller, decide_eq_true_eq]
  rcases lt_trichotomy a.length b.length with hl | hl | hl
  · exact ⟨fun _ => longer ha hb hl,fun _ => .inl hl⟩
  · rw [strcmp_digits hl ha.1 hb.1]
    omega
  · have := longer hb ha hl
    omega

section Loops
variable (data1 data2 : List CChar)

/-- The place sums of the addition. -/
def sums (i : ℕ) : ℤ := digitAt data1 i+digitAt data2 i

/-- The place differences of the subtraction. -/
def differences (i : ℕ) : ℤ := digitAt data1 i-digitAt data2 i

variable {data1 data2}

theorem sums_bounds (h1 : Digits data1) (h2 : Digits data2) (i : ℕ) :
    0 ≤ sums data1 data2 i ∧ sums data1 data2 i ≤ 18 := by
  have := digitAt_bounds h1 i
  have := digitAt_bounds h2 i
  unfold sums
  omega

theorem differences_bounds (h1 : Digits data1) (h2 : Digits data2) (i : ℕ) :
    -9 ≤ differences data1 data2 i ∧ differences data1 data2 i ≤ 9 := by
  have := digitAt_bounds h1 i
  have := digitAt_bounds h2 i
  unfold differences
  omega

theorem sums_carry (h1 : Digits data1) (h2 : Digits data2) (i : ℕ) :
    0 ≤ carry 10 (sums data1 data2) i ∧ carry 10 (sums data1 data2) i ≤ 1 := by
  refine ⟨carry_nonneg 10 _ (by decide) (fun j => (sums_bounds h1 h2 j).1) i,?_⟩
  refine carry_le 10 _ (by decide) (by decide) (fun j => ?_) i
  have := sums_bounds h1 h2 j
  omega

theorem differences_carry (h1 : Digits data1) (h2 : Digits data2) (i : ℕ) :
    -1 ≤ carry 10 (differences data1 data2) i ∧ carry 10 (differences data1 data2) i ≤ 0 := by
  constructor
  · refine neg_one_le_carry 10 _ (by decide) (fun j => ?_) i
    have := differences_bounds h1 h2 j
    omega
  · refine carry_le 10 _ (by decide) (by decide) (fun j => ?_) i
    have := differences_bounds h1 h2 j
    omega

/-- After `n` iterations the rightmost `n` cells hold the digits of the carry chain. -/
theorem carryLoop_eq (h1 : Digits data1) (h2 : Digits data2) (s : CChar) {n : ℕ}
    (hn : n ≤ data1.length) :
    carryLoop data1 data2 (some s::List.replicate (data1.length+1) none) n =
      some (some s::(List.replicate (data1.length+1-n) none ++
          (fromRight (fun i => digitChar (digitOf 10 (sums data1 data2) i)) n).map some),
        carry 10 (sums data1 data2) n) := by
  induction n with
  | zero => simp [carryLoop, carry, fromRight]
  | succ n ih =>
    have hb := sums_bounds h1 h2 n
    have hc := sums_carry h1 h2 n
    have ht : digitAt data1 n+carry 10 (sums data1 data2) n+digitAt data2 n =
        sums data1 data2 n+carry 10 (sums data1 data2) n := by
      unfold sums
      ring
    have hk : data1.length+1-n = data1.length-n+1 := by omega
    have hi : ((data1.length : ℤ)-(n+1)+2) = ((data1.length-n+1 : ℕ) : ℤ) := by omega
    have hr : data1.length+1-(n+1) = data1.length-n := by omega
    simp only [carryLoop, ih (by omega), digitFrom_eq (Nat.lt_of_succ_le hn), secondDigit_eq,
      Option.bind_eq_bind, Option.bind_some, ht, Option.pure_def]
    rw [hk, put_free _ _ _ _ hi, hr, Int.tmod_eq_emod_of_nonneg (by omega),
      Int.tdiv_eq_ediv_of_nonneg (by omega)]
    rfl

theorem borrowLoop_eq (h1 : Digits data1) (h2 : Digits data2) (s : CChar) {n : ℕ}
    (hn : n ≤ data1.length) :
    borrowLoop data1 data2 (some s::List.replicate data1.length none) n =
      some (some s::(List.replicate (data1.length-n) none ++
          (fromRight (fun i => digitChar (digitOf 10 (differences data1 data2) i)) n).map some),
        -carry 10 (differences data1 data2) n) := by
  induction n with
  | zero => simp [borrowLoop, carry, fromRight]
  | succ n ih =>
    have hb := differences_bounds h1 h2 n
    have hc := differences_carry h1 h2 n
    have ht : digitAt data1 n- -carry 10 (differences data1 data2) n-digitAt data2 n =
        differences data1 data2 n+carry 10 (differences data1 data2) n := by
      unfold differences
      ring
    have hk : data1.length-n = data1.length-(n+1)+1 := by omega
    have hi : ((data1.length : ℤ)-(n+1)+1) = ((data1.length-(n+1)+1 : ℕ) : ℤ) := by omega
    -- the test `tmp < 0` with its correction by 10 is floor division by 10
    have hd : (if differences data1 data2 n+carry 10 (differences data1 data2) n < 0 then
        differences data1 data2 n+carry 10 (differences data1 data2) n+10 else
        differences data1 data2 n+carry 10 (differences data1 data2) n) =
        digitOf 10 (differences data1 data2) n := by
      unfold digitOf
      split_ifs <;> omega
    have hs : (if differences data1 data2 n+carry 10 (differences data1 data2) n < 0 then
        (1 : ℤ) else 0) = -carry 10 (differences data1 data2) (n+1) := by
      rw [carry]
      split_ifs <;> omega
    simp only [borrowLoop, ih (by omega), digitFrom_eq (Nat.lt_of_succ_le hn), secondDigit_eq,
      Option.bind_eq_bind, Option.bind_some, ht, hd, hs, Option.pure_def]
    rw [hk, put_free _ _ _ _ hi]
    rfl

end Loops

/-- A filled block: a sign and `len` digits for `n`. -/
def HoldsSigned (ret : Option (Block CChar)) (s : CChar) (len n : ℕ) : Prop :=
  ∃ ds, ret = some ((s::ds).map some) ∧ ds.length = len ∧ Digits ds ∧ number ds = n

/-- A filled block: over its whole size the text of the integer `z`. -/
def Denotes (ret : Block CChar) (z : ℤ) : Prop :=
  ∃ text, contents ret = some text ∧ readInt text = some z

theorem denotes_filled {text : List CChar} {z : ℤ} :
    Denotes (text.map some) z ↔ readInt text = some z := by
  simp [Denotes]

theorem addOrdered_holds {a b : List CChar} (ha : Digits a) (hb : Digits b)
    (hl : b.length ≤ a.length) (s : CChar) :
    HoldsSigned (addOrdered a b s) s (a.length+1) (number a+number b) := by
  have hrep : List.replicate (a.length+2) (none : Option CChar) =
      none::List.replicate (a.length+1) none := rfl
  have hsz : ((a.length : ℤ)+2) = ((a.length+2 : ℕ) : ℤ) := by push_cast; rfl
  have hc := sums_carry ha hb a.length
  let cells := fromRight (fun i => digitChar (digitOf 10 (sums a b) i)) a.length
  have h0 := digitOf_nonneg 10 (sums a b) (by decide)
  have h9 := digitOf_lt 10 (sums a b) (by decide)
  have hlen : cells.length = a.length := fromRight_length _ _
  refine ⟨digitChar (carry 10 (sums a b) a.length)::cells,?_,by simp [hlen],?_,?_⟩
  · simp only [addOrdered, malloc_eq hsz, hrep, put_zero_cons, carryLoop_eq ha hb s le_rfl,
      Option.bind_eq_bind, Option.bind_some, Nat.add_sub_cancel_left]
    exact store_append [some s] (by simp)
  · exact (digits_cons _ _).mpr ⟨isDigit_digitChar hc.1 (by omega),digits_fromRight h0 h9 _⟩
  · have hsum := carry_sum 10 (sums a b) a.length
    have hw := number_fromRight h0 h9 a.length
    have hna := number_eq_sum ha le_rfl
    have hnb := number_eq_sum hb hl
    have hsplit : ∑ i ∈ Finset.range a.length, sums a b i*10^i = number a+number b := by
      rw [hna, hnb, ← Finset.sum_add_distrib]
      exact Finset.sum_congr rfl fun i _ => by unfold sums; ring
    rw [number_cons, digit_digitChar (by omega) (by omega), hlen]
    zify
    rw [Int.toNat_of_nonneg hc.1, hw]
    linarith

theorem add_holds {a b : List CChar} (ha : Digits a) (hb : Digits b) (s1 s2 : CChar) :
    HoldsSigned (add a b s1 s2) s1 (max a.length b.length+1) (number a+number b) := by
  unfold add
  split_ifs with h
  · rw [Nat.add_comm (number a), max_eq_right h.le]
    exact addOrdered_holds hb ha h.le s1
  · rw [max_eq_left (not_lt.mp h)]
    exact addOrdered_holds ha hb (not_lt.mp h) s1

theorem subOrdered_holds {a b : List CChar} (ha : Canonical a) (hb : Canonical b)
    (hl : b.length ≤ a.length) (hle : number b ≤ number a) (s : CChar) :
    HoldsSigned (subOrdered a b s) s a.length (number a-number b) := by
  have hrep : List.replicate (a.length+1) (none : Option CChar) =
      none::List.replicate a.length none := rfl
  have hsz : ((a.length : ℤ)+1) = ((a.length+1 : ℕ) : ℤ) := by push_cast; rfl
  have hc := differences_carry ha.1 hb.1 a.length
  have h0 := digitOf_nonneg 10 (differences a b) (by decide)
  have h9 := digitOf_lt 10 (differences a b) (by decide)
  refine ⟨fromRight (fun i => digitChar (digitOf 10 (differences a b) i)) a.length,?_,?_,
    digits_fromRight h0 h9 _,?_⟩
  · simp only [subOrdered, malloc_eq hsz, hrep, put_zero_cons, borrowLoop_eq ha.1 hb.1 s le_rfl,
      Option.bind_eq_bind, Option.bind_some, Nat.sub_self, Option.pure_def]
    rfl
  · exact fromRight_length _ _
  · have hsum := carry_sum 10 (differences a b) a.length
    have hw := number_fromRight h0 h9 a.length
    have hlt : (number (fromRight (fun i => digitChar (digitOf 10 (differences a b) i)) a.length)
        : ℤ) < 10^a.length := by
      have := number_lt (digits_fromRight h0 h9 a.length)
      rw [fromRight_length] at this
      exact_mod_cast this
    have hna := number_eq_sum ha.1 le_rfl
    have hnb := number_eq_sum hb.1 hl
    have hsplit : ∑ i ∈ Finset.range a.length, differences a b i*10^i = number a-number b := by
      rw [hna, hnb, ← Finset.sum_sub_distrib]
      exact Finset.sum_congr rfl fun i _ => by unfold differences; ring
    rw [← hw, hsplit] at hsum
    -- the last borrow would make the digits negative
    have hz : carry 10 (differences a b) a.length = 0 := by
      by_contra hne
      have h1 : carry 10 (differences a b) a.length = -1 := by omega
      rw [h1] at hsum
      have : (number b : ℤ) ≤ number a := by exact_mod_cast hle
      linarith
    rw [hz, zero_mul, add_zero] at hsum
    omega

theorem sub_holds {a b : List CChar} (ha : Canonical a) (hb : Canonical b) (s1 s2 : CChar) :
    HoldsSigned (sub a b s1 s2) (if number a < number b then s2 else s1)
      (max a.length b.length)
      (if number a < number b then number b-number a else number a-number b) := by
  have hlen {s t : List CChar} (hs : Canonical s) (ht : Canonical t)
      (h : ¬ number s < number t) : t.length ≤ s.length := by
    by_contra hl
    exact h ((isSmaller_iff hs ht).mp (by simp [isSmaller, not_le.mp hl]))
  have hiff := isSmaller_iff ha hb
  unfold sub
  by_cases h : number a < number b
  · have hl := hlen hb ha (by omega)
    rw [if_pos (hiff.mpr h), if_pos h, if_pos h, max_eq_right hl]
    exact subOrdered_holds hb ha hl h.le s2
  · have hl := hlen ha hb h
    rw [if_neg (mt hiff.mp h), if_neg h, if_neg h, max_eq_left hl]
    exact subOrdered_holds ha hb hl (not_lt.mp h) s1

end LibeventHttpd.MathCgi
