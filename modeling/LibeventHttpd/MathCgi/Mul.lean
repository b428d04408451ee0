import LibeventHttpd.MathCgi.AddSub
import Mathlib.Algebra.Order.BigOperators.Group.Finset

/-! The multiplication routine: one row per nonzero digit of the shorter operand, added in
place into a block of zeros. -/
namespace LibeventHttpd.MathCgi
open Cells Positional
open scoped BigOperators

/-- A `size_t` converted to `int`. -/
def toInt (n : ℕ) : ℤ := (n : ℤ).bmod (2^32)

/-- The iterations `i = 1, …, n` of the inner loop of `MUL`: the block and `step` after them. -/
def rowLoop (data1 : List CChar) (tmp retlen offset : ℤ) (ret : Block CChar) :
    ℕ → Option (Block CChar × ℤ)
  | 0 => some (ret,0)
  | n+1 => do
    let (ret,step) ← rowLoop data1 tmp retlen offset ret n
    let i : ℤ := n+1
    let onebyone := tmp*(← digitFrom data1 i)
    let onebyone := onebyone+step
    let onebyone := onebyone+digit (← load ret (retlen-offset-i))
    let ret ← put ret (retlen-offset-i) (digitChar (onebyone.tmod 10))
    return (ret,onebyone.tdiv 10)

/-- The iterations `index = 1, …, n` of the outer loop: the block and `offset` after them. -/
def mulLoop (data1 data2 : List CChar) (retlen : ℤ) (ret : Block CChar) :
    ℕ → Option (Block CChar × ℤ)
  | 0 => some (ret,0)
  | n+1 => do
    let (ret,offset) ← mulLoop data1 data2 retlen ret n
    let index : ℤ := n+1
    let tmp ← digitFrom data2 index
    if tmp = 0 then
      return (ret,offset+1)
    else
      let (ret,step) ← rowLoop data1 tmp retlen offset ret data1.length
      let cell ← load ret (retlen-offset-data1.length-1)
      let ret ← put ret (retlen-offset-data1.length-1) (Int8.ofInt (cell.toInt+step))
      return (ret,offset+1)

/-- `MUL` of two nonzero operands once the longer one stands first. -/
def mulOrdered (data1 data2 : List CChar) (sybom1 sybom2 : CChar) : Option (Block CChar) := do
  let retlen := toInt (data1.length+data2.length+1)
  let ret ← malloc retlen
  let ret ← fill ret (ch '0') retlen.toNat
  let ret ← put ret 0 (productSign sybom1 sybom2)
  let (ret,_) ← mulLoop data1 data2 retlen ret data2.length
  return ret

def mul (data1 data2 : List CChar) (sybom1 sybom2 : CChar) : Option (Block CChar) :=
  if strcmp data1 (cstr "0") = 0 ∨ strcmp data2 (cstr "0") = 0 then do
    let ret ← malloc 1
    put ret 0 (ch '0')
  else if data1.length < data2.length then mulOrdered data2 data1 sybom1 sybom2
  else mulOrdered data1 data2 sybom1 sybom2

/-- A longer length that comes out nonnegative has lost at least `2^32`. -/
theorem toInt_of_long {n : ℕ} (h : 2^31 ≤ n) (h0 : 0 ≤ toInt n) :
    (toInt n).toNat < 2^31 ∧ (toInt n).toNat+2^32 ≤ n := by
  unfold toInt Int.bmod at *
  norm_num at *
  split_ifs at * <;> omega

theorem toInt_eq {n : ℕ} (h : n < 2^31) : toInt n = n := by
  unfold toInt
  rw [Int.bmod_eq_of_le_mul_two] <;> push_cast <;> omega

/-- A block of a sign and `n` cells given by place from the right. -/
def placed (s : CChar) (f : ℕ → CChar) (n : ℕ) : Block CChar := (s::fromRight f n).map some

theorem load_placed (s : CChar) (f : ℕ → CChar) {n p : ℕ} (hp : p < n) {i : ℤ}
    (hi : i = (n : ℤ)-p) : load (placed s f n) i = some (f p) := by
  have h : i = ((n-1-p+1 : ℕ) : ℤ) := by omega
  rw [load, fetch_eq h, placed, List.map_cons, List.getElem?_cons_succ, List.getElem?_map,
    fromRight_getElem? f hp]
  rfl

theorem put_placed (s : CChar) (f : ℕ → CChar) {n p : ℕ} (hp : p < n) (v : CChar) {i : ℤ}
    (hi : i = (n : ℤ)-p) :
    put (placed s f n) i v = some (placed s (Function.update f p v) n) := by
  have h : i = ((n-1-p+1 : ℕ) : ℤ) := by omega
  rw [put, store_eq h (by simp [placed]; omega), placed, List.map_cons, List.set_cons_succ,
    ← List.map_set, fromRight_set f hp]
  rfl

section Row
variable (data1 : List CChar) (tmp : ℤ) (f : ℕ → CChar) (offset : ℕ)

/-- The place sums of one row. -/
def rowSums (i : ℕ) : ℤ := tmp*digitAt data1 i+digit (f (offset+i))

/-- The cells after `n` places of the row. -/
def rowCells (n : ℕ) (p : ℕ) : CChar :=
  if offset ≤ p ∧ p < offset+n then digitChar (digitOf 10 (rowSums data1 tmp f offset) (p-offset))
  else f p

variable {data1 tmp f}

theorem rowSums_bounds (h1 : Digits data1) (ht : 0 ≤ tmp ∧ tmp ≤ 9) (hf : ∀ p, IsDigit (f p))
    (i : ℕ) : 0 ≤ rowSums data1 tmp f offset i ∧ rowSums data1 tmp f offset i ≤ 90 := by
  have hd := digitAt_bounds h1 i
  have hc := (isDigit_iff _).mp (hf (offset+i))
  unfold rowSums
  constructor <;> nlinarith

theorem rowSums_carry (h1 : Digits data1) (ht : 0 ≤ tmp ∧ tmp ≤ 9) (hf : ∀ p, IsDigit (f p))
    (n : ℕ) : 0 ≤ carry 10 (rowSums data1 tmp f offset) n ∧
      carry 10 (rowSums data1 tmp f offset) n ≤ 9 := by
  refine ⟨carry_nonneg 10 _ (by decide) (fun i => (rowSums_bounds offset h1 ht hf i).1) n,?_⟩
  refine carry_le 10 _ (by decide) (by decide) (fun i => ?_) n
  have := rowSums_bounds offset h1 ht hf i
  omega

theorem rowCells_succ (n : ℕ) :
    rowCells data1 tmp f offset (n+1) =
      Function.update (rowCells data1 tmp f offset n) (offset+n)
        (digitChar (digitOf 10 (rowSums data1 tmp f offset) n)) := by
  funext p
  rcases eq_or_ne p (offset+n) with rfl | hp
  · simp [rowCells]
  · rw [Function.update_of_ne hp]
    have h : (offset ≤ p ∧ p < offset+(n+1)) ↔ (offset ≤ p ∧ p < offset+n) := by omega
    simp only [rowCells, h]

theorem rowLoop_eq (h1 : Digits data1) (ht : 0 ≤ tmp ∧ tmp ≤ 9) (hf : ∀ p, IsDigit (f p))
    (s : CChar) {m n : ℕ} (hn : n ≤ data1.length) (hm : offset+n ≤ m) :
    rowLoop data1 tmp (m+1) offset (placed s f m) n =
      some (placed s (rowCells data1 tmp f offset n) m,
        carry 10 (rowSums data1 tmp f offset) n) := by
  induction n with
  | zero =>
    have h0 : rowCells data1 tmp f offset 0 = f := by
      funext p
      rw [rowCells, if_neg (by omega)]
    rw [rowLoop, h0]
    rfl
  | succ n ih =>
    have hb := rowSums_bounds offset h1 ht hf n
    have hc := rowSums_carry offset h1 ht hf n
    have hcell : rowCells data1 tmp f offset n (offset+n) = f (offset+n) := by
      rw [rowCells, if_neg (by omega)]
    have hi : ((m : ℤ)+1-offset-(n+1)) = m-((offset+n : ℕ) : ℤ) := by push_cast; ring
    have hsum : tmp*digitAt data1 n+carry 10 (rowSums data1 tmp f offset) n+
        digit (f (offset+n)) =
        rowSums data1 tmp f offset n+carry 10 (rowSums data1 tmp f offset) n := by
      unfold rowSums
      ring
    simp only [rowLoop, ih (by omega) (by omega), digitFrom_eq (Nat.lt_of_succ_le hn),
      Option.bind_eq_bind, Option.bind_some, Option.pure_def,
      load_placed s _ (show offset+n < m by omega) hi, hcell, hsum,
      put_placed s _ (show offset+n < m by omega) _ hi]
    rw [Int.tmod_eq_emod_of_nonneg (by omega), Int.tdiv_eq_ediv_of_nonneg (by omega),
      rowCells_succ]
    rfl

/-- A finished row with its carry in the cell above it. -/
def rowDone (data1 : List CChar) (tmp : ℤ) (f : ℕ → CChar) (offset : ℕ) : ℕ → CChar :=
  Function.update (rowCells data1 tmp f offset data1.length) (offset+data1.length)
    (digitChar (carry 10 (rowSums data1 tmp f offset) data1.length))

theorem rowDone_isDigit (h1 : Digits data1) (ht : 0 ≤ tmp ∧ tmp ≤ 9) (hf : ∀ p, IsDigit (f p))
    (p : ℕ) : IsDigit (rowDone data1 tmp f offset p) := by
  have hc := rowSums_carry offset h1 ht hf data1.length
  rcases eq_or_ne p (offset+data1.length) with rfl | hp
  · rw [rowDone, Function.update_self]
    exact isDigit_digitChar hc.1 (by omega)
  · rw [rowDone, Function.update_of_ne hp, rowCells]
    split_ifs
    · exact isDigit_digitChar (digitOf_nonneg 10 _ (by decide) _) (digitOf_lt 10 _ (by decide) _)
    · exact hf p

/-- A row adds its product at its offset, provided the cell above it is still zero. -/
theorem rowDone_sum (h1 : Digits data1) (ht : 0 ≤ tmp ∧ tmp ≤ 9) (hf : ∀ p, IsDigit (f p))
    (htop : digit (f (offset+data1.length)) = 0) {m : ℕ} (hm : offset+data1.length < m) :
    ∑ p ∈ Finset.range m, digit (rowDone data1 tmp f offset p)*10^p =
      ∑ p ∈ Finset.range m, digit (f p)*10^p + tmp*number data1*10^offset := by
  have hc := rowSums_carry offset h1 ht hf data1.length
  obtain ⟨r,rfl⟩ : ∃ r, m = offset+data1.length+1+r := ⟨m-(offset+data1.length+1),by omega⟩
  have low : ∀ p ∈ Finset.range offset, digit (rowDone data1 tmp f offset p)*(10 : ℤ)^p =
      digit (f p)*10^p := by
    intro p hp
    have := Finset.mem_range.mp hp
    rw [rowDone, Function.update_of_ne (by omega), rowCells, if_neg (by omega)]
  have high : ∀ i ∈ Finset.range r, digit (rowDone data1 tmp f offset
      (offset+data1.length+1+i))*(10 : ℤ)^(offset+data1.length+1+i) =
      digit (f (offset+data1.length+1+i))*10^(offset+data1.length+1+i) := by
    intro i _
    rw [rowDone, Function.update_of_ne (by omega), rowCells, if_neg (by omega)]
  have row : ∀ i ∈ Finset.range data1.length, digit (rowDone data1 tmp f offset (offset+i))*
      (10 : ℤ)^(offset+i) = 10^offset*(digitOf 10 (rowSums data1 tmp f offset) i*10^i) := by
    intro i hi
    have := Finset.mem_range.mp hi
    rw [rowDone, Function.update_of_ne (by omega), rowCells, if_pos (by omega),
      Nat.add_sub_cancel_left]
    have h0 := digitOf_nonneg 10 (rowSums data1 tmp f offset) (by decide) i
    have h9 := digitOf_lt 10 (rowSums data1 tmp f offset) (by decide) i
    rw [digit_digitChar (by omega) (by omega), pow_add]
    ring
  have top : digit (rowDone data1 tmp f offset (offset+data1.length)) =
      carry 10 (rowSums data1 tmp f offset) data1.length := by
    rw [rowDone, Function.update_self, digit_digitChar (by omega) (by omega)]
  have hchain := carry_sum 10 (rowSums data1 tmp f offset) data1.length
  have hsums : ∑ i ∈ Finset.range data1.length, rowSums data1 tmp f offset i*(10 : ℤ)^i =
      tmp*number data1 + ∑ i ∈ Finset.range data1.length, digit (f (offset+i))*10^i := by
    rw [number_eq_sum h1 le_rfl, Finset.mul_sum, ← Finset.sum_add_distrib]
    exact Finset.sum_congr rfl fun i _ => by unfold rowSums; ring
  have hold : ∑ i ∈ Finset.range data1.length, digit (f (offset+i))*(10 : ℤ)^(offset+i) =
      10^offset*∑ i ∈ Finset.range data1.length, digit (f (offset+i))*10^i := by
    rw [Finset.mul_sum]
    exact Finset.sum_congr rfl fun i _ => by rw [pow_add]; ring
  simp only [Finset.sum_range_add, Finset.sum_range_one, Nat.add_zero]
  rw [Finset.sum_congr rfl low, Finset.sum_congr rfl row, Finset.sum_congr rfl high, top, hold,
    ← Finset.mul_sum, htop, pow_add]
  linear_combination 10^offset*(hchain+hsums)

end Row

/-- The value of the last `n` digits of an operand. -/
def lowPart (data : List CChar) (n : ℕ) : ℤ := ∑ i ∈ Finset.range n, digitAt data i*10^i

theorem lowPart_bounds {data : List CChar} (h : Digits data) (n : ℕ) :
    0 ≤ lowPart data n ∧ lowPart data n < 10^n := by
  induction n with
  | zero => simp [lowPart]
  | succ n ih =>
    have hd := digitAt_bounds h n
    have hs : lowPart data (n+1) = lowPart data n+digitAt data n*10^n := Finset.sum_range_succ _ _
    have hp : (0 : ℤ) < 10^n := by positivity
    rw [hs, pow_succ]
    constructor <;> nlinarith [mul_nonneg hd.1 hp.le, mul_le_mul_of_nonneg_right hd.2 hp.le]

/-- A place whose power exceeds the value holds a zero. -/
theorem place_eq_zero {f : ℕ → CChar} (hf : ∀ p, IsDigit (f p)) {m p : ℕ} (hp : p < m)
    (h : ∑ q ∈ Finset.range m, digit (f q)*(10 : ℤ)^q < 10^p) : digit (f p) = 0 := by
  have hnn : ∀ q ∈ Finset.range m, 0 ≤ digit (f q)*(10 : ℤ)^q := fun q _ =>
    mul_nonneg ((isDigit_iff _).mp (hf q)).1 (by positivity)
  have hle := Finset.single_le_sum hnn (Finset.mem_range.mpr hp)
  have hd := (isDigit_iff _).mp (hf p)
  have hpos : (0 : ℤ) < 10^p := by positivity
  by_contra hne
  have h1 : 1 ≤ digit (f p) := by omega
  nlinarith

/-- The invariant of the outer loop: after `n` rows every cell is a digit and together they
denote the product with the last `n` digits. -/
theorem mulLoop_places {data1 data2 : List CChar} (h1 : Digits data1) (h2 : Digits data2)
    (s : CChar) {n : ℕ} (hn : n ≤ data2.length) :
    ∃ f : ℕ → CChar, (∀ p, IsDigit (f p)) ∧
      mulLoop data1 data2 ((data1.length+data2.length : ℕ)+1)
        (placed s (fun _ => ch '0') (data1.length+data2.length)) n =
          some (placed s f (data1.length+data2.length),(n : ℤ)) ∧
      ∑ p ∈ Finset.range (data1.length+data2.length), digit (f p)*10^p =
        number data1*lowPart data2 n := by
  induction n with
  | zero => exact ⟨fun _ => ch '0',fun _ => isDigit_ch_zero,rfl,by simp [lowPart]⟩
  | succ n ih =>
    obtain ⟨f,hf,hrun,hval⟩ := ih (by omega)
    have ht := digitAt_bounds h2 n
    have hlow : lowPart data2 (n+1) = lowPart data2 n+digitAt data2 n*10^n :=
      Finset.sum_range_succ _ _
    simp only [mulLoop, hrun, digitFrom_eq (Nat.lt_of_succ_le hn), Option.bind_eq_bind,
      Option.bind_some, Option.pure_def]
    by_cases hz : digitAt data2 n = 0
    · refine ⟨f,hf,?_,?_⟩
      · rw [if_pos hz]
        push_cast
        rfl
      · rw [hval, hlow, hz]
        ring
    · have hfit : n+data1.length < data1.length+data2.length := by omega
      -- what the rows so far denote is below the power of the cell the carry goes to
      have htop : digit (f (n+data1.length)) = 0 := by
        refine place_eq_zero hf hfit ?_
        rw [hval, pow_add, mul_comm]
        have hb := lowPart_bounds h2 n
        have hlt : (number data1 : ℤ) < 10^data1.length := by exact_mod_cast number_lt h1
        have hp : (0 : ℤ) < 10^data1.length := by positivity
        nlinarith
      have hc := rowSums_carry n h1 ht hf data1.length
      have hcell : (rowCells data1 (digitAt data2 n) f n data1.length (n+data1.length)).toInt+
          carry 10 (rowSums data1 (digitAt data2 n) f n) data1.length =
          carry 10 (rowSums data1 (digitAt data2 n) f n) data1.length+48 := by
        have hd : (f (n+data1.length)).toInt = 48 := by unfold digit at htop; omega
        rw [rowCells, if_neg (by omega), hd, add_comm]
      have hi : (((data1.length+data2.length : ℕ) : ℤ)+1-n-data1.length-1) =
          (data1.length+data2.length : ℕ)-((n+data1.length : ℕ) : ℤ) := by push_cast; ring
      refine ⟨rowDone data1 (digitAt data2 n) f n,rowDone_isDigit n h1 ht hf,?_,?_⟩
      · rw [if_neg hz]
        simp only [rowLoop_eq n h1 ht hf s le_rfl hfit.le, Option.bind_some,
          load_placed s _ hfit hi, hcell, put_placed s _ hfit _ hi]
        push_cast
        rfl
      · rw [rowDone_sum n h1 ht hf htop hfit, hval, hlow]
        ring

theorem mulOrdered_holds {a b : List CChar} (ha : Digits a) (hb : Digits b)
    (hlen : a.length+b.length < 2^31-1) (s1 s2 : CChar) :
    HoldsSigned (mulOrdered a b s1 s2) (productSign s1 s2) (a.length+b.length)
      (number a*number b) := by
  have hsz : toInt (a.length+b.length+1) = ((a.length+b.length+1 : ℕ) : ℤ) := toInt_eq (by omega)
  obtain ⟨f,hf,hrun,hval⟩ := mulLoop_places ha hb (productSign s1 s2) le_rfl
  have hfull : lowPart b b.length = number b := (number_eq_sum hb le_rfl).symm
  have hstart : put ((List.replicate (a.length+b.length+1) (ch '0')).map some) 0
      (productSign s1 s2) =
      some (placed (productSign s1 s2) (fun _ => ch '0') (a.length+b.length)) := by
    rw [placed, fromRight_const]
    exact put_zero_cons _ _ _
  have hcells : fromRight f (a.length+b.length) =
      fromRight (fun p => digitChar (digit (f p))) (a.length+b.length) :=
    fromRight_congr fun p _ => (digitChar_digit (f p)).symm
  have h0 : ∀ p, 0 ≤ digit (f p) := fun p => ((isDigit_iff _).mp (hf p)).1
  have h9 : ∀ p, digit (f p) < 10 := fun p => ((isDigit_iff _).mp (hf p)).2
  refine ⟨fromRight f (a.length+b.length),?_,?_,?_,?_⟩
  · simp only [mulOrdered, hsz, malloc_natCast, Int.toNat_natCast, fill_malloc,
      Option.bind_eq_bind, Option.bind_some, hstart, Option.pure_def]
    push_cast at hrun ⊢
    rw [hrun]
    rfl
  · exact fromRight_length _ _
  · rw [hcells]
    exact digits_fromRight h0 h9 _
  · have hw := number_fromRight h0 h9 (a.length+b.length)
    rw [← hcells, hval, hfull] at hw
    exact_mod_cast hw

theorem mul_holds {a b : List CChar} (ha : Canonical a) (hb : Canonical b)
    (hlen : a.length+b.length < 2^31-1) (s1 s2 : CChar) (ha0 : a ≠ [ch '0'])
    (hb0 : b ≠ [ch '0']) :
    HoldsSigned (mul a b s1 s2) (productSign s1 s2) (a.length+b.length)
      (number a*number b) := by
  have hzero : ¬(strcmp a (cstr "0") = 0 ∨ strcmp b (cstr "0") = 0) := by
    rw [strcmp_zero_iff ha.1, strcmp_zero_iff hb.1]
    exact not_or.mpr ⟨ha0,hb0⟩
  rw [mul, if_neg hzero]
  split_ifs with h
  · rw [Nat.mul_comm, Nat.add_comm]
    exact mulOrdered_holds hb.1 ha.1 (by omega) s1 s2
  · exact mulOrdered_holds ha.1 hb.1 hlen s1 s2

theorem mul_zero_case {a b : List CChar} (ha : Canonical a) (hb : Canonical b) (s1 s2 : CChar)
    (h0 : a = [ch '0'] ∨ b = [ch '0']) : mul a b s1 s2 = some ((cstr "0").map some) := by
  rw [← strcmp_zero_iff ha.1, ← strcmp_zero_iff hb.1] at h0
  rw [mul, if_pos h0]
  rfl

section Long

theorem mulLoop_offset {data1 data2 : List CChar} {retlen offset : ℤ} {ret ret' : Block CChar}
    {n : ℕ} (h : mulLoop data1 data2 retlen ret n = some (ret',offset)) : offset = n := by
  induction n generalizing ret' offset with
  | zero =>
    rw [mulLoop, Option.some.injEq, Prod.mk.injEq] at h
    exact h.2.symm
  | succ n ih =>
    simp only [mulLoop, Option.bind_eq_bind, Option.bind_eq_some_iff, Option.pure_def] at h
    obtain ⟨⟨ret1,offset1⟩,hrun,tmp,-,h⟩ := h
    have hn := ih hrun
    split_ifs at h
    · have hoff := (Prod.mk.inj (Option.some.inj h)).2
      push_cast
      omega
    · simp only [Option.bind_eq_some_iff] at h
      obtain ⟨_,-,_,-,_,-,h⟩ := h
      have hoff := (Prod.mk.inj (Option.some.inj h)).2
      push_cast
      omega

/-- A row that reaches beyond the left end of the block. -/
theorem rowLoop_out {data1 : List CChar} {tmp retlen offset : ℤ} {n : ℕ} (ret : Block CChar)
    (h : retlen-offset-(n+1) < 0) : rowLoop data1 tmp retlen offset ret (n+1) = none := by
  have hload (ret : Block CChar) : load ret (retlen-offset-((n : ℤ)+1)) = none := by
    rw [load, fetch, if_neg (by omega)]
    rfl
  rw [Option.eq_none_iff_forall_ne_some]
  intro p hp
  simp only [rowLoop, hload, Option.bind_eq_bind, Option.bind_none, Option.bind_eq_some_iff,
    reduceCtorEq, and_false, exists_false] at hp

/-- When the length of the product does not fit an `int`, the block cannot be allocated or the
row of the first digit leaves it. -/
theorem mulOrdered_long {a b : List CChar} (ha : Canonical a) (hb : Canonical b)
    (hb0 : b ≠ [ch '0']) (hlen : 2^31-1 ≤ a.length+b.length) (s1 s2 : CChar) :
    mulOrdered a b s1 s2 = none := by
  rw [Option.eq_none_iff_forall_ne_some]
  intro ret hrun
  simp only [mulOrdered, Option.bind_eq_bind, Option.bind_eq_some_iff, Option.pure_def] at hrun
  obtain ⟨ret1,hmalloc,ret2,-,ret3,-,⟨ret4,offset⟩,hloop,-⟩ := hrun
  have hnonneg : 0 ≤ toInt (a.length+b.length+1) := by
    unfold malloc at hmalloc
    split_ifs at hmalloc with h0
    exact h0
  have hlost := (toInt_of_long (by omega) hnonneg).2
  obtain ⟨c,t,rfl,hc,hc0,-⟩ := hb.exists_cons hb0
  obtain ⟨n,hn⟩ : ∃ n, a.length = n+1 :=
    ⟨a.length-1,by have := List.length_pos_of_ne_nil ha.2.1; omega⟩
  -- the last iteration takes the first digit of the shorter operand
  have htop : digitFrom (c::t) (t.length+1) = some (digit c) := by
    rw [digitFrom_eq (show t.length < (c::t).length from Nat.lt_succ_self _)]
    simp [digitAt, List.getD_eq_getElem?_getD]
  simp only [List.length_cons, mulLoop, Option.bind_eq_bind, Option.bind_eq_some_iff, htop,
    Option.some.injEq] at hloop
  obtain ⟨⟨ret5,offset5⟩,hrest,tmp,rfl,hloop⟩ := hloop
  rw [mulLoop_offset hrest, if_neg (mt digit_eq_zero.mp hc0), hn, rowLoop_out] at hloop
  · cases hloop
  · rw [List.length_cons, hn] at hlost hnonneg
    change toInt (n+1+(t.length+1)+1)-t.length-(n+1) < 0
    omega

theorem mul_long {a b : List CChar} (ha : Canonical a) (hb : Canonical b)
    (ha0 : a ≠ [ch '0']) (hb0 : b ≠ [ch '0']) (hlen : 2^31-1 ≤ a.length+b.length)
    (s1 s2 : CChar) : mul a b s1 s2 = none := by
  have hzero : ¬(strcmp a (cstr "0") = 0 ∨ strcmp b (cstr "0") = 0) := by
    rw [strcmp_zero_iff ha.1, strcmp_zero_iff hb.1]
    exact not_or.mpr ⟨ha0,hb0⟩
  rw [mul, if_neg hzero]
  split_ifs
  · exact mulOrdered_long hb ha ha0 (by omega) s1 s2
  · exact mulOrdered_long ha hb hb0 hlen s1 s2

end Long

/-- The product of the signed operands fills the block: the sign and a digit in every further
cell, or the single zero. -/
theorem mul_denotes {a b : List CChar} {s1 s2 : CChar} (ha : Canonical a) (hb : Canonical b)
    (hlen : a.length+b.length < 2^31-1) (h1 : IsSign s1) (h2 : IsSign s2) :
    ∃ text, mul a b s1 s2 = some (text.map some) ∧
      readInt text = some (signed s1 (number a)*signed s2 (number b)) ∧
      (if a = [ch '0'] ∨ b = [ch '0'] then text = cstr "0" else
        ∃ ds, text = productSign s1 s2::ds ∧ ds.length = a.length+b.length ∧ Digits ds) := by
  rw [signed_mul h1 h2]
  by_cases h0 : a = [ch '0'] ∨ b = [ch '0']
  · refine ⟨cstr "0",mul_zero_case ha hb s1 s2 h0,?_,by rw [if_pos h0]⟩
    have hz : number a*number b = 0 := by
      rcases h0 with rfl | rfl
      · exact Nat.zero_mul _
      · exact Nat.mul_zero _
    rw [hz]
    unfold signed
    split_ifs <;> rfl
  · obtain ⟨ha0,hb0⟩ := not_or.mp h0
    obtain ⟨ds,hrun,hl,hds,hval⟩ := mul_holds ha hb hlen s1 s2 ha0 hb0
    have hne : ds ≠ [] := by
      have := List.length_pos_of_ne_nil ha.2.1
      exact List.ne_nil_of_length_pos (by omega)
    refine ⟨productSign s1 s2::ds,hrun,?_,by rw [if_neg h0]; exact ⟨ds,rfl,hl,hds⟩⟩
    rw [readInt_sign (isSign_productSign s1 s2), if_pos ⟨hne,hds⟩, hval]

theorem mul_denotes_12_7 : ∃ text,
    mul (cstr "12") (cstr "7") (ch '-') (ch '+') = some (text.map some) ∧
      readInt text = some (-84) ∧ (if cstr "12" = [ch '0'] ∨ cstr "7" = [ch '0'] then
      text = cstr "0" else ∃ ds, text = ch '-'::ds ∧ ds.length = 3 ∧ Digits ds) :=
  mul_denotes (by decide) (by decide) (by decide) (.inr rfl) (.inl rfl)

end LibeventHttpd.MathCgi
