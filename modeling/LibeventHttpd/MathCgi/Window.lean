import LibeventHttpd.MathCgi.SubLoop

/-! A digit string as the window of `SubLoop`, and what the repeated subtraction makes of it. -/
namespace LibeventHttpd.MathCgi
open Cells Positional

theorem cells_place_of_le {m l : ℕ} (N : ℕ) (h : l ≤ m) :
    cells (place m N) l = cells (place l N) l :=
  fromRight_congr fun p hp => by rw [place, place, if_pos (by omega), if_pos hp]

theorem digits_cells {m l : ℕ} (N : ℕ) (h : l ≤ m) : Digits (cells (place m N) l) := by
  rw [cells_place_of_le N h]
  exact digits_place l N

theorem number_cells {m l : ℕ} (N : ℕ) (h : l ≤ m) : number (cells (place m N) l) = N%10^l := by
  rw [cells_place_of_le N h, number_place]

/-- A digit string with at most one digit above the divisor's is the window of its number. -/
theorem cells_number {s : List CChar} {m : ℕ} (hs : Digits s) (hl : s.length ≤ m+1) :
    cells (place m (number s)) s.length = s := by
  have short {t : List CChar} (ht : Digits t) (hl : t.length ≤ m) {N : ℕ}
      (hN : N%10^t.length = number t) : cells (place m N) t.length = t :=
    number_injective (by simp) (digits_cells _ hl) ht (by rw [number_cells _ hl, hN])
  rcases Nat.lt_or_ge m s.length with h | h
  · have hne : s ≠ [] := List.ne_nil_of_length_pos (by omega)
    obtain ⟨c,t,rfl⟩ := List.exists_cons_of_ne_nil hne
    obtain ⟨hc,ht⟩ := (digits_cons c t).mp hs
    rw [List.length_cons] at hl h
    obtain rfl : m = t.length := by omega
    have hlt := number_lt ht
    have hpow : 0 < 10^t.length := Nat.pow_pos (by decide)
    have hd := (isDigit_iff c).mp hc
    have htop : place t.length (number (c::t)) t.length = digit c := by
      rw [place, if_neg (lt_irrefl _), number_cons, Nat.add_comm, Nat.add_mul_div_right _ _ hpow,
        Nat.div_eq_of_lt hlt, Nat.zero_add, Int.toNat_of_nonneg hd.1]
    have hlow : number (c::t)%10^t.length = number t := by
      rw [number_cons, Nat.add_comm, Nat.add_mul_mod_self_right, Nat.mod_eq_of_lt hlt]
    rw [List.length_cons, cells_succ, htop, digitChar_digit, short ht le_rfl hlow]
  · exact short hs h (Nat.mod_eq_of_lt (number_lt hs))

/-- A number that fits below the top cell is what the window denotes. -/
theorem window_of_lt {m N l : ℕ} (hl : l ≤ m+1) (hN : N < 10^m) (hlow : l ≤ m → N < 10^l) :
    Digits (cells (place m N) l) ∧ number (cells (place m N) l) = N := by
  rcases Nat.lt_or_ge m l with h | h
  · obtain rfl : l = m+1 := by omega
    have htop : place m N m = 0 := by
      rw [place, if_neg (lt_irrefl m), Nat.div_eq_of_lt hN]
      rfl
    rw [cells_succ, htop, digitChar_zero, digits_cons, number_cons, digit_ch_zero,
      number_cells N le_rfl, Nat.mod_eq_of_lt hN]
    exact ⟨⟨isDigit_ch_zero,digits_cells N le_rfl⟩,by simp⟩
  · refine ⟨digits_cells N h,?_⟩
    rw [number_cells N h, Nat.mod_eq_of_lt (hlow h)]

section Division
variable {L R : List CChar} (hL : Digits L) (hlead : L.head? ≠ some (ch '0')) (hR : Canonical R)
  (hR0 : R ≠ [ch '0'])

include hL hlead in
/-- Without a leading zero a window is as long as its number. -/
theorem length_window (m : ℕ) : Length m (number L) L.length := by
  refine ⟨fun _ => number_lt hL,fun hpos => ?_⟩
  cases L with
  | nil => exact absurd hpos (lt_irrefl 0)
  | cons c t =>
    have hc : c ≠ ch '0' := fun he => hlead (congrArg some he)
    exact pow_le_number ((digits_cons c t).mp hL).1 hc

include hR in
/-- A window below ten times the divisor has at most one digit more. -/
theorem Length.le_succ {N l : ℕ} (hlen : Length R.length N l) (hlt : N < 10*number R) :
    l ≤ R.length+1 := by
  by_contra hgt
  have hlow := hlen.2 (by omega)
  have hhi := number_lt hR.1
  have hpow : 10^(R.length+1) ≤ 10^(l-1) := Nat.pow_le_pow_right (by decide) (by omega)
  rw [pow_succ] at hpow
  omega

omit hL hR hR0 in
/-- A window shorter than the divisor is left alone. -/
theorem subLoop_short (h : L.length < R.length) (pre post : List CChar) (fuel : ℕ) :
    subLoop fuel (pre ++ (L ++ post)) pre.length L.length (R ++ [0]) R.length =
      if 0 < fuel then some (ch '0',pre ++ (L ++ post)) else none := by
  cases fuel with
  | zero => rfl
  | succ fuel =>
    have hsmall : isLeftStrBig ((pre ++ (L ++ post)).drop pre.length) L.length (R ++ [0])
        R.length < 0 := by
      rw [isLeftStrBig, if_neg (by omega)]
      decide
    rw [subLoop, subLoopFrom, if_pos hsmall, if_pos (Nat.succ_pos fuel)]

include hL hlead hR hR0 in
/-- `SubLoop` divides: on a window below ten times the divisor it makes as many subtractions as
the quotient says, returns its digit and leaves the remainder in the window, whatever stands
before it. -/
theorem subLoop_divides (hlt : number L < 10*number R) {post : List CChar} (hpost : post ≠ []) :
    ∃ W, Digits W ∧ W.length = L.length ∧ number W = number L%number R ∧ ∀ pre fuel,
      subLoop fuel (pre ++ (L ++ post)) pre.length L.length (R ++ [0]) R.length =
        if number L/number R < fuel then
          some (digitChar (number L/number R : ℕ),pre ++ (W ++ post)) else none := by
  have hlen := length_window hL hlead R.length
  have hsize := hlen.le_succ hR hlt
  have hhi := number_lt hR.1
  have hpos := hR.number_pos hR0
  rcases Nat.lt_or_ge L.length R.length with hshort | hlong
  · have hsmall : number L < number R := calc
      number L < 10^L.length := number_lt hL
      _ ≤ 10^(R.length-1) := Nat.pow_le_pow_right (by decide) (by omega)
      _ ≤ number R := hR.pow_le hR0
    refine ⟨L,hL,rfl,(Nat.mod_eq_of_lt hsmall).symm,fun pre fuel => ?_⟩
    rw [subLoop_short hshort, Nat.div_eq_of_lt hsmall]
    rfl
  · have hfits : L.length = R.length ∨ L.length = R.length+1 := by omega
    have hrun (fuel : ℕ) := subLoopFrom_place hR hR0 hfits hpost fuel
      (show number L < 256*10^R.length by omega) le_rfl hlen 0
    rw [cells_number hL hsize, Nat.sub_self, zero_add] at hrun
    obtain ⟨hdigits,hnumber⟩ := window_of_lt hsize ((Nat.mod_lt (number L) hpos).trans hhi)
      fun h => (Nat.mod_le _ _).trans_lt (hlen.1 h)
    refine ⟨_,hdigits,cells_length _ _,hnumber,fun pre fuel => ?_⟩
    have hstop := hrun (number L/number R+1+fuel)
    rw [if_pos (Nat.lt_add_right fuel (Nat.lt_succ_self _))] at hstop
    have hframe := subLoopFrom_frame_le pre (Nat.le_add_left fuel _) hstop
    rw [Nat.add_zero pre.length, hrun fuel] at hframe
    rw [subLoop, ← digitChar_zero, hframe]
    split_ifs <;> rfl

theorem subLoop_divides_25_7 : ∃ W, Digits W ∧ W.length = 2 ∧ number W = 25%7 ∧ ∀ pre fuel,
    subLoop fuel (pre ++ (cstr "25" ++ [0])) pre.length 2 (cstr "7" ++ [0]) 1 =
      if 25/7 < fuel then some (digitChar (25/7 : ℕ),pre ++ (W ++ [0])) else none :=
  subLoop_divides (L := cstr "25") (R := cstr "7") (by decide) (by decide) (by decide) (by decide)
    (by decide) (List.cons_ne_nil 0 [])

end Division

end LibeventHttpd.MathCgi
