import LibeventHttpd.MathCgi.Mul
import LibeventHttpd.MathCgi.WrapDivision

/-! Repeated in-place subtraction on a window of the dividend. The window is described by the
number its cells hold; the cell above the divisor's digits is a plain `char` and wraps. -/
namespace LibeventHttpd.MathCgi
open Cells Positional
open scoped BigOperators

def isLeftStrBig (pleft : List CChar) (lsize : ℕ) (pright : List CChar) (rsize : ℕ) : ℤ :=
  if lsize > rsize ∨ (lsize = rsize ∧ strncmp lsize pleft pright ≥ 0) then 0 else -1

/-- The body of `if(pleft[ldatalen] < pright[rdatalen])`, with `i` the index of the cell. -/
def borrowAt (mem : List CChar) (i : ℤ) : Option (List CChar) := do
  let above ← fetch mem (i-1)
  let mem ← store mem (i-1) (above-1)
  let cell ← fetch mem i
  store mem i (cell+10)

def borrowIfLess (mem : List CChar) (i : ℤ) (right : CChar) : Option (List CChar) := do
  let left ← fetch mem i
  if left < right then borrowAt mem i else some mem

/-- The first `n` iterations of `while(rdatalen >= 0 && ldatalen >= 0)`; `pleft` points at the
cell `off` of the dividend's copy `mem`. -/
def subtractLoop (pright : List CChar) (rsize off lsize : ℕ) (mem : List CChar) :
    ℕ → Option (List CChar)
  | 0 => some mem
  | n+1 => do
    let mem ← subtractLoop pright rsize off lsize mem n
    let ldatalen : ℤ := off+lsize-1-n
    let right ← fetch pright (rsize-1-n)
    let mem ← borrowIfLess mem ldatalen right
    let left ← fetch mem ldatalen
    store mem ldatalen (left-right+ch '0')

/-- `while((*pleft == '0') && (lsize > 0))`; the character is read before the count is tested. -/
def stripLoop (mem : List CChar) (off : ℕ) : ℕ → Option (ℕ × ℕ)
  | 0 => do
    let _ ← fetch mem off
    return (off,0)
  | lsize+1 => do
    if (← fetch mem off) = ch '0' then stripLoop mem (off+1) lsize else some (off,lsize+1)

/-- The loop of `SubLoop`, at most `fuel` comparisons. -/
def subLoopFrom (pright : List CChar) (rsize : ℕ) :
    ℕ → CChar → List CChar → ℕ → ℕ → Option (CChar × List CChar)
  | 0,_,_,_,_ => none
  | fuel+1,ret,mem,off,lsize =>
    if isLeftStrBig (mem.drop off) lsize pright rsize < 0 then some (ret,mem)
    else do
      let mem ← subtractLoop pright rsize off lsize mem (min lsize rsize)
      let (off,lsize) ← stripLoop mem off lsize
      subLoopFrom pright rsize fuel (ret+1) mem off lsize

/-- The character `SubLoop` returns and the memory it leaves. -/
def subLoop (fuel : ℕ) (mem : List CChar) (pleft lsize : ℕ) (pright : List CChar) (rsize : ℕ) :
    Option (CChar × List CChar) := subLoopFrom pright rsize fuel (ch '0') mem pleft lsize

section Frame
variable (pre : List CChar) {pright : List CChar} {rsize : ℕ}

theorem borrowIfLess_frame {mem mem' : List CChar} {i : ℤ} {right : CChar}
    (h : borrowIfLess mem i right = some mem') :
    borrowIfLess (pre ++ mem) (pre.length+i) right = some (pre ++ mem') := by
  simp only [borrowIfLess, borrowAt, Option.bind_eq_bind, Option.bind_eq_some_iff] at h ⊢
  obtain ⟨left,hleft,h⟩ := h
  refine ⟨left,fetch_frame pre hleft,?_⟩
  split_ifs at h ⊢
  · simp only [Option.bind_eq_some_iff] at h ⊢
    obtain ⟨above,habove,mem1,hmem1,cell,hcell,hmem'⟩ := h
    rw [add_sub_assoc]
    exact ⟨above,fetch_frame pre habove,pre ++ mem1,store_frame pre hmem1,cell,
      fetch_frame pre hcell,store_frame pre hmem'⟩
  · rw [Option.some.inj h]

theorem subtractLoop_frame {off lsize n : ℕ} {mem mem' : List CChar}
    (h : subtractLoop pright rsize off lsize mem n = some mem') :
    subtractLoop pright rsize (pre.length+off) lsize (pre ++ mem) n = some (pre ++ mem') := by
  induction n generalizing mem' with
  | zero => rw [← Option.some.inj h, subtractLoop]
  | succ n ih =>
    simp only [subtractLoop, Option.bind_eq_bind, Option.bind_eq_some_iff] at h ⊢
    obtain ⟨mem1,h1,right,hright,mem2,h2,left,hleft,hmem'⟩ := h
    have hi : (((pre.length+off : ℕ) : ℤ)+lsize-1-n) = pre.length+(off+lsize-1-n) := by
      push_cast
      ring
    rw [hi]
    exact ⟨_,ih h1,right,hright,_,borrowIfLess_frame pre h2,left,fetch_frame pre hleft,
      store_frame pre hmem'⟩

theorem stripLoop_frame {mem : List CChar} {off lsize : ℕ} {p : ℕ × ℕ}
    (h : stripLoop mem off lsize = some p) :
    stripLoop (pre ++ mem) (pre.length+off) lsize = some (pre.length+p.1,p.2) := by
  induction lsize generalizing off with
  | zero =>
    simp only [stripLoop, Option.bind_eq_bind, Option.bind_eq_some_iff] at h ⊢
    obtain ⟨c,hc,hp⟩ := h
    refine ⟨c,?_,?_⟩
    · push_cast
      exact fetch_frame pre hc
    · rw [← Option.some.inj hp]
      rfl
  | succ lsize ih =>
    simp only [stripLoop, Option.bind_eq_bind, Option.bind_eq_some_iff] at h ⊢
    obtain ⟨c,hc,hp⟩ := h
    refine ⟨c,?_,?_⟩
    · push_cast
      exact fetch_frame pre hc
    · split_ifs at hp ⊢
      · exact ih hp
      · rw [← Option.some.inj hp]

/-- What stands before the window does not take part, not even when the comparisons run out. -/
theorem subLoopFrom_frame_le {fuel enough off lsize : ℕ} (hle : fuel ≤ enough) {ret : CChar}
    {mem : List CChar} {p : CChar × List CChar}
    (h : subLoopFrom pright rsize enough ret mem off lsize = some p) :
    subLoopFrom pright rsize fuel ret (pre ++ mem) (pre.length+off) lsize =
      (subLoopFrom pright rsize fuel ret mem off lsize).map fun p => (p.1,pre ++ p.2) := by
  have hdrop (mem : List CChar) (off : ℕ) : (pre ++ mem).drop (pre.length+off) = mem.drop off := by
    rw [List.drop_append, List.drop_eq_nil_of_le (Nat.le_add_right _ _), Nat.add_sub_cancel_left,
      List.nil_append]
  induction fuel generalizing enough ret mem off lsize with
  | zero => rfl
  | succ fuel ih =>
    obtain ⟨enough,rfl⟩ : ∃ e, enough = e+1 := ⟨enough-1,by omega⟩
    rw [subLoopFrom] at h
    rw [subLoopFrom, subLoopFrom, hdrop]
    split_ifs at h ⊢
    · rfl
    · simp only [Option.bind_eq_bind, Option.bind_eq_some_iff] at h
      obtain ⟨mem1,h1,q,hq,hnext⟩ := h
      simp only [subtractLoop_frame pre h1, stripLoop_frame pre hq, h1, hq, Option.bind_eq_bind,
        Option.bind_some]
      exact ih (Nat.le_of_succ_le_succ hle) hnext

theorem subLoopFrom_frame {fuel off lsize : ℕ} {ret c : CChar} {mem mem' : List CChar}
    (h : subLoopFrom pright rsize fuel ret mem off lsize = some (c,mem')) :
    subLoopFrom pright rsize fuel ret (pre ++ mem) (pre.length+off) lsize =
      some (c,pre ++ mem') := by
  rw [subLoopFrom_frame_le pre le_rfl h, h]
  rfl

end Frame

section Characters

theorem digitChar_add (x y : ℤ) : digitChar (x+y) = digitChar x+Int8.ofInt y := by
  rw [digitChar, digitChar, ← Int8.ofInt_add]
  congr 1
  ring

theorem digitChar_sub_one (x : ℤ) : digitChar x-1 = digitChar (x-1) := by
  rw [sub_eq_add_neg x, digitChar_add, Int8.sub_eq_add_neg]
  rfl

theorem digitChar_sub_digit (x : ℤ) (c : CChar) :
    digitChar x-c+ch '0' = digitChar (x-digit c) := by
  have hc : c = Int8.ofInt c.toInt := (Int8.ofInt_toInt c).symm
  have h0 : ch '0' = Int8.ofInt 48 := by decide
  rw [h0]
  conv_lhs => rw [hc]
  rw [digitChar, digitChar, ← Int8.ofInt_sub, ← Int8.ofInt_add, digit]
  congr 1
  ring

/-- A cell keeps its number modulo 256. -/
theorem digitChar_eq_iff {x y : ℤ} : digitChar x = digitChar y ↔ x%256 = y%256 := by
  rw [digitChar, digitChar, Int8.ofInt_eq_iff_bmod_eq_toInt, Int8.toInt_ofInt]
  norm_num [Int.bmod]
  split_ifs <;> omega

theorem digitChar_eq_zero_iff (x : ℤ) : digitChar x = ch '0' ↔ x%256 = 0 := by
  rw [← digitChar_zero, digitChar_eq_iff, Int.zero_emod]

end Characters

/-- Window cells by place from the right, each given by an integer. -/
def cells (F : ℕ → ℤ) (size : ℕ) : List CChar := fromRight (fun p => digitChar (F p)) size

@[simp] theorem cells_length (F : ℕ → ℤ) (size : ℕ) : (cells F size).length = size :=
  fromRight_length _ _

theorem cells_succ (F : ℕ → ℤ) (size : ℕ) :
    cells F (size+1) = digitChar (F size)::cells F size := rfl

theorem fetch_cells (F : ℕ → ℤ) {size p : ℕ} (post : List CChar) (hp : p < size) {i : ℤ}
    (hi : i = (size : ℤ)-1-p) : fetch (cells F size ++ post) i = some (digitChar (F p)) := by
  have h : i = ((size-1-p : ℕ) : ℤ) := by omega
  rw [fetch_eq h, List.getElem?_append_left (by rw [cells_length]; omega), cells,
    fromRight_getElem? _ hp]

theorem store_cells (F : ℕ → ℤ) {size p : ℕ} (post : List CChar) (hp : p < size) (x : ℤ) {i : ℤ}
    (hi : i = (size : ℤ)-1-p) :
    store (cells F size ++ post) i (digitChar x) =
      some (cells (Function.update F p x) size ++ post) := by
  have h : i = ((size-1-p : ℕ) : ℤ) := by omega
  have hu : (fun q => digitChar (Function.update F p x q)) =
      Function.update (fun q => digitChar (F q)) p (digitChar x) := by
    funext q
    rcases eq_or_ne q p with rfl | hq
    · simp
    · simp [hq]
  rw [store_eq h (by simp; omega), List.set_append_left _ _ (by rw [cells_length]; omega), cells,
    cells, fromRight_set _ hp, hu]

theorem drop_cells (F : ℕ → ℤ) {l size : ℕ} (post : List CChar) (hl : l ≤ size) :
    (cells F size ++ post).drop (size-l) = cells F l ++ post := by
  induction size with
  | zero =>
    obtain rfl := Nat.le_zero.mp hl
    rfl
  | succ size ih =>
    rcases Nat.eq_or_lt_of_le hl with rfl | h
    · simp
    · have he : size+1-l = (size-l)+1 := by omega
      rw [he, cells_succ, List.cons_append, List.drop_succ_cons, ih (by omega)]

section Subtract
variable (F : ℕ → ℤ) (b : List CChar)

/-- The place differences between the window and the divisor. -/
def gaps (p : ℕ) : ℤ := if p < b.length then F p-digitAt b p else 0

/-- The window after `n` places: digits below, a pending borrow in place `n`. -/
def partly (n p : ℕ) : ℤ :=
  if p < n then digitOf 10 (gaps F b) p
  else if p = n then F p+carry 10 (gaps F b) n
  else F p

variable {F b}

theorem gaps_bounds (hb : Digits b) (hF : ∀ p < b.length, 0 ≤ F p ∧ F p ≤ 9) (p : ℕ) :
    -9 ≤ gaps F b p ∧ gaps F b p ≤ 9 := by
  have hd := digitAt_bounds hb p
  unfold gaps
  split_ifs with hp
  · have := hF p hp
    omega
  · omega

theorem gaps_carry (hb : Digits b) (hF : ∀ p < b.length, 0 ≤ F p ∧ F p ≤ 9) (n : ℕ) :
    -1 ≤ carry 10 (gaps F b) n ∧ carry 10 (gaps F b) n ≤ 0 := by
  constructor
  · refine neg_one_le_carry 10 _ (by decide) (fun p => ?_) n
    have := gaps_bounds hb hF p
    omega
  · refine carry_le 10 _ (by decide) (by decide) (fun p => ?_) n
    have := gaps_bounds hb hF p
    omega

theorem partly_succ {n : ℕ} (hc : carry 10 (gaps F b) (n+1) = 0) {x : ℤ}
    (hx : digitOf 10 (gaps F b) n = x) :
    partly F b (n+1) = Function.update (partly F b n) n x := by
  funext p
  simp only [Function.update_apply, partly]
  split_ifs <;> subst_vars <;> omega

theorem partly_succ_borrow {n : ℕ} (hc : carry 10 (gaps F b) (n+1) = -1) {x : ℤ}
    (hx : digitOf 10 (gaps F b) n = x) :
    partly F b (n+1) =
      Function.update (Function.update (partly F b n) (n+1) (F (n+1)-1)) n x := by
  funext p
  simp only [Function.update_apply, partly]
  split_ifs <;> subst_vars <;> omega

/-- One subtraction of the divisor. In a window as long as the divisor no borrow may leave. -/
theorem subtractLoop_eq (hb : Digits b) (hF : ∀ p < b.length, 0 ≤ F p ∧ F p ≤ 9)
    {size off lsize : ℕ} (post : List CChar) (hsize : off+lsize = size) (hm : b.length ≤ size)
    (hfit : size = b.length → carry 10 (gaps F b) b.length = 0) {n : ℕ} (hn : n ≤ b.length) :
    subtractLoop (b ++ [0]) b.length off lsize (cells F size ++ post) n =
      some (cells (partly F b n) size ++ post) := by
  induction n with
  | zero =>
    have h0 : partly F b 0 = F := by
      funext p
      simp only [partly, Nat.not_lt_zero, if_false, carry, add_zero, ite_self]
    rw [subtractLoop, h0]
  | succ n ih =>
    have hc := gaps_carry hb hF n
    have hFn := hF n (by omega)
    have hd := digitAt_bounds hb n
    have hg : gaps F b n = F n-digitAt b n := if_pos (by omega)
    have hcn : carry 10 (gaps F b) (n+1) = (gaps F b n+carry 10 (gaps F b) n)/10 := rfl
    have hdig : digitOf 10 (gaps F b) n = (gaps F b n+carry 10 (gaps F b) n)%10 := rfl
    have hi : ((off : ℤ)+lsize-1-n) = (size : ℤ)-1-n := by omega
    have hright : fetch (b ++ [0]) ((b.length : ℤ)-1-n) = some (b.reverse.getD n (ch '0')) := by
      rw [fetch_eq (show ((b.length : ℤ)-1-n) = ((b.length-(n+1) : ℕ) : ℤ) by omega),
        List.getElem?_append_left (by omega), getElem?_sub_succ (by omega)]
    have hdb : digit (b.reverse.getD n (ch '0')) = digitAt b n := rfl
    have hcell : partly F b n n = F n+carry 10 (gaps F b) n := by simp [partly]
    have hval : (digitChar (F n+carry 10 (gaps F b) n)).toInt = F n+carry 10 (gaps F b) n+48 := by
      have := digit_digitChar (d := F n+carry 10 (gaps F b) n) (by omega) (by omega)
      unfold digit at this
      omega
    have hless : digitChar (F n+carry 10 (gaps F b) n) < b.reverse.getD n (ch '0') ↔
        F n+carry 10 (gaps F b) n < digitAt b n := by
      rw [Int8.lt_iff_toInt_lt, hval, ← hdb, digit]
      omega
    simp only [subtractLoop, ih (by omega), hright, Option.bind_eq_bind, Option.bind_some,
      borrowIfLess, hi, fetch_cells _ post (show n < size by omega) rfl, hcell, hless]
    split_ifs with hlt
    · have hlast : n+1 < size := by
        by_contra hge
        have hz := hfit (by omega)
        have he : b.length = n+1 := by omega
        rw [he, hcn] at hz
        omega
      have hup : ((size : ℤ)-1-n-1) = (size : ℤ)-1-((n+1 : ℕ) : ℤ) := by push_cast; ring
      have habove : partly F b n (n+1) = F (n+1) := by simp [partly]
      have hten (x : ℤ) : digitChar x+10 = digitChar (x+10) := (digitChar_add x 10).symm
      have hsame (G : ℕ → ℤ) (x : ℤ) : Function.update G (n+1) x n = G n :=
        Function.update_of_ne (by omega) _ _
      simp only [borrowAt, hup, fetch_cells _ post hlast rfl, habove, digitChar_sub_one,
        store_cells _ post hlast _ rfl, fetch_cells _ post (show n < size by omega) rfl, hsame,
        hcell, hten, store_cells _ post (show n < size by omega) _ rfl, Function.update_self,
        digitChar_sub_digit, hdb, Option.bind_eq_bind, Option.bind_some, Function.update_idem]
      have hx : digitOf 10 (gaps F b) n = F n+carry 10 (gaps F b) n+10-digitAt b n := by omega
      rw [partly_succ_borrow (by omega) hx]
    · simp only [fetch_cells _ post (show n < size by omega) rfl, hcell, Option.bind_some,
        digitChar_sub_digit, hdb, store_cells _ post (show n < size by omega) _ rfl]
      have hx : digitOf 10 (gaps F b) n = F n+carry 10 (gaps F b) n-digitAt b n := by omega
      rw [partly_succ (by omega) hx]

end Subtract

/-- The places of a number whose top cell holds everything from `10^m` on. -/
def place (m N p : ℕ) : ℤ := if p < m then (N/10^p%10 : ℕ) else (N/10^m : ℕ)

theorem place_bounds (m N : ℕ) {p : ℕ} (hp : p < m) : 0 ≤ place m N p ∧ place m N p ≤ 9 := by
  rw [place, if_pos hp]
  omega

theorem digits_place (m N : ℕ) : Digits (cells (place m N) m) := by
  intro c hc
  obtain ⟨p,hp,rfl⟩ := mem_fromRight.mp hc
  have := place_bounds m N hp
  exact isDigit_digitChar this.1 (by omega)

theorem sum_place (m N : ℕ) :
    ∑ p ∈ Finset.range m, place m N p*(10 : ℤ)^p = (N%10^m : ℕ) := by
  have hsum (k : ℕ) : ∑ p ∈ Finset.range k, N/10^p%10*10^p = N%10^k := by
    induction k with
    | zero => simp [Nat.mod_one]
    | succ k ih => rw [Finset.sum_range_succ, ih, Nat.mod_pow_succ, Nat.mul_comm (10^k)]
  rw [← hsum m]
  push_cast
  apply Finset.sum_congr rfl
  intro p hp
  rw [place, if_pos (Finset.mem_range.mp hp)]
  push_cast
  rfl

theorem number_place (m N : ℕ) : number (cells (place m N) m) = N%10^m := by
  have hc : cells (place m N) m = fromRight (fun p => digitChar ((N/10^p%10 : ℕ) : ℤ)) m :=
    fromRight_congr fun p hp => by rw [place, if_pos hp]
  have hw := number_fromRight (g := fun p => ((N/10^p%10 : ℕ) : ℤ)) (fun p => by positivity)
    (fun p => by omega) m
  have hs : ∑ p ∈ Finset.range m, ((N/10^p%10 : ℕ) : ℤ)*10^p =
      ∑ p ∈ Finset.range m, place m N p*10^p :=
    Finset.sum_congr rfl fun p hp => by rw [place, if_pos (Finset.mem_range.mp hp)]
  rw [← hc, hs, sum_place] at hw
  exact_mod_cast hw

/-- A window is determined by the number below its top cell and the residue in that cell. -/
theorem cells_eq_place {m N size : ℕ} {G : ℕ → ℤ} {v : ℕ} (hs : size = m ∨ size = m+1)
    (hG : Digits (cells G m)) (hv : number (cells G m) = v) (hlow : N%10^m = v)
    (htop : size = m+1 → G m%256 = ((N/10^m : ℕ) : ℤ)%256) :
    cells G size = cells (place m N) size := by
  have hl : cells G m = cells (place m N) m :=
    number_injective (by simp) hG (digits_place m N) (by rw [hv, number_place, hlow])
  rcases hs with rfl | rfl
  · exact hl
  · have ht : place m N m = (N/10^m : ℕ) := if_neg (lt_irrefl m)
    have hchar := digitChar_eq_iff.mpr ((htop rfl).trans (congrArg (·%256) ht.symm))
    rw [cells_succ, cells_succ, hl, hchar]

section Division
variable {b : List CChar} (hb : Canonical b) (hb0 : b ≠ [ch '0'])

include hb in
/-- The places of the window minus those of the divisor. -/
theorem sum_gaps (N : ℕ) : ∑ p ∈ Finset.range b.length, gaps (place b.length N) b p*(10 : ℤ)^p =
    (N%10^b.length : ℕ)-number b := by
  rw [number_eq_sum hb.1 le_rfl, ← sum_place, ← Finset.sum_sub_distrib]
  apply Finset.sum_congr rfl
  intro p hp
  have hg : gaps (place b.length N) b p = place b.length N p-digitAt b p :=
    if_pos (Finset.mem_range.mp hp)
  rw [hg]
  ring

include hb in
/-- The cells below the top one after a subtraction: digits that, with the borrow that leaves
them, denote the difference. -/
theorem partly_place (N : ℕ) :
    Digits (cells (partly (place b.length N) b b.length) b.length) ∧
      (number (cells (partly (place b.length N) b b.length) b.length) : ℤ)+
        10^b.length*carry 10 (gaps (place b.length N) b) b.length =
          (N%10^b.length : ℕ)-number b := by
  have h0 := digitOf_nonneg 10 (gaps (place b.length N) b) (by decide)
  have h9 := digitOf_lt 10 (gaps (place b.length N) b) (by decide)
  have hpart : cells (partly (place b.length N) b b.length) b.length =
      fromRight (fun p => digitChar (digitOf 10 (gaps (place b.length N) b) p)) b.length :=
    fromRight_congr fun p hp => by rw [partly, if_pos hp]
  rw [hpart]
  refine ⟨digits_fromRight h0 h9 _,?_⟩
  have hchain := carry_sum 10 (gaps (place b.length N) b) b.length
  rw [sum_gaps hb] at hchain
  rw [number_fromRight h0 h9]
  linarith

/-- A difference of which the low places and the borrow out of them are known; the top cell
counts modulo 256. -/
theorem difference_places {m N N' V B : ℕ} {borrow k : ℤ} (hV : V < 10^m)
    (hlow : (V : ℤ)+10^m*borrow = (N%10^m : ℕ)-B) (hN' : (N' : ℤ) = N-B+256*10^m*k) :
    N'%10^m = V ∧ ((N'/10^m : ℕ) : ℤ) = (N/10^m : ℕ)+borrow+256*k := by
  have hpow : (0 : ℤ) < 10^m := by positivity
  have hVz : (V : ℤ) < 10^m := by exact_mod_cast hV
  have hsplit : (N : ℤ) = (N%10^m : ℕ)+10^m*(N/10^m : ℕ) := by
    exact_mod_cast (Nat.mod_add_div N (10^m)).symm
  have hform : (N' : ℤ) = V+10^m*((N/10^m : ℕ)+borrow+256*k) := by
    rw [hN', hsplit]
    linear_combination -hlow
  constructor
  · have hmod : (N' : ℤ)%10^m = V := by
      rw [hform, Int.add_mul_emod_self_left, Int.emod_eq_of_lt (by positivity) hVz]
    exact_mod_cast hmod
  · push_cast
    rw [hform, Int.add_mul_ediv_left _ _ hpow.ne', Int.ediv_eq_zero_of_lt (by positivity) hVz]
    push_cast
    ring

include hb in
theorem subtractLoop_place (N N' off lsize : ℕ) {size : ℕ} (post : List CChar)
    (hsize : off+lsize = size) (hs : size = b.length ∨ size = b.length+1)
    (hN' : ∃ k : ℤ, (N' : ℤ) = N-number b+256*10^b.length*k)
    (hfit : size = b.length → N < 10^b.length ∧ number b ≤ N) :
    subtractLoop (b ++ [0]) b.length off lsize (cells (place b.length N) size ++ post) b.length =
      some (cells (place b.length N') size ++ post) := by
  have hF : ∀ p < b.length, 0 ≤ place b.length N p ∧ place b.length N p ≤ 9 :=
    fun p hp => place_bounds _ _ hp
  have hc := gaps_carry hb.1 hF b.length
  obtain ⟨hdig,hval⟩ := partly_place hb N
  have hlt := number_lt hdig
  rw [cells_length] at hlt
  have hnoborrow : size = b.length → carry 10 (gaps (place b.length N) b) b.length = 0 := by
    intro he
    obtain ⟨hsmall,hge⟩ := hfit he
    by_contra hne
    have hout : carry 10 (gaps (place b.length N) b) b.length = -1 := by omega
    have hltz : (number (cells (partly (place b.length N) b b.length) b.length) : ℤ) <
        10^b.length := by exact_mod_cast hlt
    have hgez : (number b : ℤ) ≤ N := by exact_mod_cast hge
    rw [Nat.mod_eq_of_lt hsmall, hout] at hval
    linarith
  obtain ⟨k,hk⟩ := hN'
  obtain ⟨hmod,hdiv⟩ := difference_places hlt hval hk
  rw [subtractLoop_eq hb.1 hF post hsize (by omega) hnoborrow le_rfl,
    cells_eq_place hs hdig rfl hmod]
  intro _
  have htop : partly (place b.length N) b b.length b.length =
      (N/10^b.length : ℕ)+carry 10 (gaps (place b.length N) b) b.length := by
    simp only [partly, lt_irrefl, if_false, if_true, place]
  rw [htop, hdiv]
  omega

/-- `l` is the number of cells of a stripped window that holds `N`. -/
def Length (m N l : ℕ) : Prop := (l ≤ m → N < 10^l) ∧ (0 < l → 10^(l-1) ≤ N)

/-- Stripping stops at the first cell that does not show `'0'`. -/
theorem stripLoop_place (size : ℕ) {m N : ℕ} {post : List CChar} (hpost : post ≠ [])
    (hN : N < 256*10^m) {l : ℕ} (hl : l ≤ size) (hlm : l ≤ m+1) (hlow : l ≤ m → N < 10^l) :
    ∃ l' ≤ l, stripLoop (cells (place m N) size ++ post) (size-l) l = some (size-l',l') ∧
      Length m N l' := by
  induction l with
  | zero =>
    refine ⟨0,le_rfl,?_,hlow,fun h => absurd h (lt_irrefl 0)⟩
    obtain ⟨c,post,rfl⟩ := List.exists_cons_of_ne_nil hpost
    simp [stripLoop]
  | succ l ih =>
    have hi : ((size-(l+1) : ℕ) : ℤ) = (size : ℤ)-1-l := by omega
    simp only [stripLoop, fetch_cells _ post (show l < size by omega) hi, Option.bind_eq_bind,
      Option.bind_some]
    have hp : (0 : ℕ) < 10^l := Nat.pow_pos (by decide)
    have small (q : ℕ) (hq : q < 256) : (q : ℤ)%256 = 0 ↔ q = 0 := by omega
    have hdigit : digitChar (place m N l) = ch '0' ↔ N < 10^l := by
      rw [digitChar_eq_zero_iff, place]
      split_ifs with hlt
      · have hq : N/10^l < 10 := Nat.div_lt_of_lt_mul (by rw [← pow_succ]; exact hlow (by omega))
        rw [Nat.mod_eq_of_lt hq, ← Nat.div_eq_zero_iff_lt hp]
        exact small _ (by omega)
      · obtain rfl : l = m := by omega
        have hq : N/10^l < 256 := Nat.div_lt_of_lt_mul (by rw [Nat.mul_comm]; exact hN)
        rw [← Nat.div_eq_zero_iff_lt hp]
        exact small _ hq
    split_ifs with hz
    · have he : size-(l+1)+1 = size-l := by omega
      obtain ⟨l',hle,hrun,hlen⟩ := ih (by omega) (by omega) fun _ => hdigit.mp hz
      exact ⟨l',by omega,by rw [he, hrun],hlen⟩
    · exact ⟨l+1,le_rfl,rfl,hlow,fun _ => not_lt.mp (mt hdigit.mpr hz)⟩

include hb in
theorem Length.divisor_le {N l : ℕ} (hlen : Length b.length N l) (h : b.length < l) :
    number b ≤ N := calc
  number b ≤ 10^b.length := (number_lt hb.1).le
  _ ≤ 10^(l-1) := Nat.pow_le_pow_right (by decide) (by omega)
  _ ≤ N := hlen.2 (by omega)

include hb hb0 in
/-- On a stripped window the comparison of lengths and characters is a numeric one. -/
theorem isLeftStrBig_place {N l : ℕ} (post : List CChar) (hlow : l ≤ b.length → N < 10^l)
    (hup : b.length < l → number b ≤ N) :
    isLeftStrBig (cells (place b.length N) l ++ post) l (b ++ [0]) b.length < 0 ↔
      N < number b := by
  have hlo := hb.pow_le hb0
  have hpos := List.length_pos_of_ne_nil hb.2.1
  unfold isLeftStrBig
  rcases lt_trichotomy l b.length with h | rfl | h
  · have : N < number b := calc
      N < 10^l := hlow h.le
      _ ≤ 10^(b.length-1) := Nat.pow_le_pow_right (by decide) (by omega)
      _ ≤ number b := hlo
    rw [if_neg (by omega)]
    simp [this]
  · have hcmp := strncmp_digits (s := cells (place b.length N) b.length) (t := b) (u := post)
      (v := [0]) (k := b.length) (by simp) (digits_place _ _) hb.1 (by simp)
      (by rw [cells_length, Nat.sub_self]; rfl)
    rw [number_place, Nat.mod_eq_of_lt (hlow le_rfl)] at hcmp
    rw [← hcmp]
    simp only [gt_iff_lt, lt_irrefl, true_and, false_or, ge_iff_le]
    split_ifs <;> omega
  · have hge := hup h
    rw [if_pos (.inl h)]
    omega

include hb hb0 in
/-- From a stripped window the loop divides the number the window holds. -/
theorem subLoopFrom_place {size : ℕ} (hs : size = b.length ∨ size = b.length+1)
    {post : List CChar} (hpost : post ≠ []) (fuel : ℕ) {N l : ℕ} (hN : N < 256*10^b.length)
    (hl : l ≤ size) (hlen : Length b.length N l) (r : ℤ) :
    subLoopFrom (b ++ [0]) b.length fuel (digitChar r) (cells (place b.length N) size ++ post)
      (size-l) l =
      if N/number b < fuel then some (digitChar (r+(N/number b : ℕ)),
        cells (place b.length (N%number b)) size ++ post) else none := by
  have hpos := hb.number_pos hb0
  induction fuel generalizing N l r with
  | zero => simp [subLoopFrom]
  | succ fuel ih =>
    rw [subLoopFrom, drop_cells _ _ hl]
    simp only [isLeftStrBig_place hb hb0 post hlen.1 (hlen.divisor_le hb)]
    by_cases hlt : N < number b
    · rw [if_pos hlt, Nat.div_eq_of_lt hlt, Nat.mod_eq_of_lt hlt, if_pos (Nat.succ_pos _)]
      simp
    · have hge := not_lt.mp hlt
      have hlb : b.length ≤ l := by
        by_contra hshort
        have h1 := hlen.1 (by omega)
        have h2 : 10^l ≤ 10^(b.length-1) := Nat.pow_le_pow_right (by decide) (by omega)
        have h3 := hb.pow_le hb0
        omega
      have hsub := subtractLoop_place hb N (N-number b) (size-l) l
        post (by omega) hs ⟨0,by push_cast [hge]; ring⟩
        (fun he => ⟨(hlen.1 (by omega)).trans_le (by rw [show l = b.length by omega]),hge⟩)
      obtain ⟨l',hle,hrun,hlen'⟩ := stripLoop_place size hpost
        (show N-number b < 256*10^b.length by omega) hl (by omega)
        (fun h => (Nat.sub_le _ _).trans_lt (hlen.1 h))
      have hnext := ih (show N-number b < 256*10^b.length by omega) (hle.trans hl) hlen' (r+1)
      have hone : digitChar r+1 = digitChar (r+1) := (digitChar_add r 1).symm
      have hdiv : N/number b = (N-number b)/number b+1 := Nat.div_eq_sub_div hpos hge
      rw [if_neg hlt, Nat.min_eq_right hlb, hsub]
      simp only [Option.bind_eq_bind, Option.bind_some, hrun, hone, hnext]
      rw [← Nat.mod_eq_sub_mod hge, hdiv]
      simp only [Nat.succ_lt_succ_iff]
      push_cast
      rw [add_assoc, add_comm 1]

include hb hb0 in
theorem subLoop_zeroLed {post : List CChar} (hpost : post ≠ []) (fuel : ℕ) {N : ℕ}
    (hN : N < 10^b.length) :
    subLoop fuel (cells (place b.length N) (b.length+1) ++ post) 0 (b.length+1) (b ++ [0])
        b.length =
      if wrapped b.length (number b) N/number b < fuel then
        some (digitChar (wrapped b.length (number b) N/number b : ℕ),
          cells (place b.length (wrapped b.length (number b) N%number b)) (b.length+1) ++ post)
      else none := by
  have hpos := hb.number_pos hb0
  have hhi := number_lt hb.1
  have hge : number b ≤ wrapped b.length (number b) N := by
    unfold wrapped
    split_ifs <;> omega
  have hlt : wrapped b.length (number b) N-number b < 256*10^b.length := by
    unfold wrapped
    split_ifs <;> omega
  rw [subLoop]
  cases fuel with
  | zero => simp [subLoopFrom]
  | succ fuel =>
    have hbig : ¬ isLeftStrBig (cells (place b.length N) (b.length+1) ++ post) (b.length+1)
        (b ++ [0]) b.length < 0 := by
      rw [isLeftStrBig, if_pos (.inl (Nat.lt_succ_self _))]
      exact lt_irrefl 0
    have hsub := subtractLoop_place hb N (wrapped b.length (number b) N-number b) 0
      (b.length+1) post (by omega) (.inr rfl) (by
        rw [Nat.cast_sub hge]
        unfold wrapped
        split_ifs
        · exact ⟨1,by push_cast; ring⟩
        · exact ⟨0,by ring⟩) (fun he => by omega)
    obtain ⟨l',hle,hrun,hlen'⟩ := stripLoop_place (b.length+1) (l := b.length+1) hpost hlt
      le_rfl le_rfl (fun h => by omega)
    have hzero : ch '0'+1 = digitChar 1 := by decide
    have hdiv : wrapped b.length (number b) N/number b =
        (wrapped b.length (number b) N-number b)/number b+1 := Nat.div_eq_sub_div hpos hge
    rw [Nat.sub_self] at hrun
    rw [subLoopFrom, List.drop_zero, if_neg hbig, Nat.min_eq_right (Nat.le_succ _), hsub]
    simp only [Option.bind_eq_bind, Option.bind_some, hrun, hzero]
    rw [subLoopFrom_place hb hb0 (.inr rfl) hpost fuel hlt hle hlen', ← Nat.mod_eq_sub_mod hge,
      hdiv]
    simp only [Nat.add_lt_add_iff_right]
    push_cast
    rw [add_comm 1]

end Division

end LibeventHttpd.MathCgi
