import LibeventHttpd.MathCgi.Window

/-! The division routine. Its loop moves a window over a copy of the dividend, which is brought
down to the division on numbers of `WrapDivision`. -/
namespace LibeventHttpd.MathCgi
open Cells Positional

/-- The loop of `DIV`: the result block, the copy of the dividend, and the window of `datalen`
cells at `pleft`, which always points at cell `index`. -/
structure Division where
  ret : Block CChar
  mem : List CChar
  index : ℕ
  datalen : ℕ

/-- The loop body up to `++datalen`, with which both branches end. -/
def divStep (fuel : ℕ) (pright : List CChar) (size2 : ℕ) (st : Division) : Option Division :=
  if isLeftStrBig (st.mem.drop st.index) st.datalen pright size2 < 0 then
    some { st with datalen := st.datalen+1 }
  else do
    let (c,mem) ← subLoop fuel st.mem st.index st.datalen pright size2
    let ret ← put st.ret (st.index+st.datalen) c
    let (index,datalen) ← stripLoop mem st.index st.datalen
    return ⟨ret,mem,index,datalen+1⟩

def divLoop (pright : List CChar) (size1 size2 : ℕ) : ℕ → Division → Option (Block CChar)
  | 0,_ => none
  | fuel+1,st =>
    if st.index < size1 then do
      let st ← divStep fuel pright size2 st
      if st.index+st.datalen > size1 then some st.ret else divLoop pright size1 size2 fuel st
    else some st.ret

/-- `none` is a fault or lack of fuel, `some none` the `NULL` for a zero divisor. The copies of
the operands end with their NUL, for which the blocks of `DIV` leave no room. -/
def div (fuel : ℕ) (data1 data2 : List CChar) (sybom1 sybom2 : CChar) :
    Option (Option (Block CChar)) :=
  if strcmp data2 (cstr "0") = 0 then some none
  else if isSmaller data1 data2 then do
    let ret ← malloc 1
    return some (← put ret 0 (ch '0'))
  else do
    let retlen := toInt (data1.length+1)
    let ret ← malloc retlen
    let ret ← fill ret (ch '0') retlen.toNat
    let ret ← put ret 0 (productSign sybom1 sybom2)
    let ret ← divLoop (data2 ++ [0]) data1.length data2.length fuel ⟨ret,data1 ++ [0],0,1⟩
    return some ret

section Windows

/-- Bringing down a digit. -/
theorem cells_bring_down {m r l : ℕ} {d : CChar} (hd : IsDigit d) (hl : l ≤ m) (hr : r < 10^l)
    (rest : List CChar) :
    cells (place m r) l ++ d::rest =
      cells (place m (10*r+(digit d).toNat)) (l+1) ++ rest := by
  have hs : Digits (cells (place m r) l ++ [d]) := by
    rw [digits_append, digits_cons]
    exact ⟨digits_cells r hl,hd,digits_nil⟩
  have hn : number (cells (place m r) l ++ [d]) = 10*r+(digit d).toNat := by
    rw [number_snoc, number_cells r hl, Nat.mod_eq_of_lt hr]
  have hc := cells_number (m := m) hs (by simpa using hl)
  rw [hn, List.length_append, cells_length, List.length_singleton] at hc
  rw [hc, List.append_assoc]
  rfl

theorem cells_split (F : ℕ → ℤ) {l size : ℕ} (h : l ≤ size) :
    ∃ zs, zs.length+l = size ∧ cells F size = zs ++ cells F l := by
  refine ⟨(cells F size).take (size-l),by simp; omega,?_⟩
  have hd := drop_cells F [] h
  rw [List.append_nil, List.append_nil] at hd
  rw [← hd, List.take_append_drop]

end Windows

/-- The window before the next digit is brought down: `l` cells that hold the remainder `r`. It
begins with a zero and has length `z`, or `z` is 0 and it has no leading zero. -/
structure Head (m B r l z : ℕ) : Prop where
  fits : l ≤ m
  lt : r < 10^l
  below : r < B
  clean : z = 0 → 0 < l → 10^(l-1) ≤ r
  led : 0 < z → l = z ∧ r < 10^(z-1)

section Steps
variable {b : List CChar} (hb : Canonical b) (hb0 : b ≠ [ch '0'])

/-- The result block: the sign, the digits found so far and zeros. -/
def quotient (sign : CChar) (qs : List CChar) (n : ℕ) : Block CChar :=
  (sign::(qs ++ List.replicate n (ch '0'))).map some

theorem put_quotient (sign : CChar) (qs : List CChar) (n : ℕ) (q : CChar) {i : ℤ}
    (hi : i = (qs.length+1 : ℕ)) :
    put (quotient sign qs (n+1)) i q = some (quotient sign (qs ++ [q]) n) := by
  have hs : quotient sign qs (n+1) =
      (sign::qs).map some ++ some (ch '0')::(List.replicate n (ch '0')).map some := by
    simp [quotient, List.replicate_succ]
  rw [put, hs, store_append _ (by simpa using hi)]
  simp [quotient]

theorem quotient_skip (sign : CChar) (qs : List CChar) (n : ℕ) :
    quotient sign qs (n+1) = quotient sign (qs ++ [ch '0']) n := by
  simp [quotient, List.replicate_succ]

/-- A turn of the loop on a window of `l+1` cells that hold `w` writes the digit `s.1` and leaves
a window for the state `s.2` of the division on numbers. -/
def Turn (b : List CChar) (fuel : ℕ) (sign : CChar) (n : ℕ) (pre qs rest : List CChar) (w l : ℕ)
    (s : ℕ × ℕ × ℕ) : Prop :=
  ∃ pre' l', pre'.length+l' = pre.length+l+1 ∧ Head b.length (number b) s.2.1 l' s.2.2 ∧
    divStep fuel (b ++ [0]) b.length ⟨quotient sign qs (n+1),
      pre ++ (cells (place b.length w) (l+1) ++ rest),pre.length,l+1⟩ =
    some ⟨quotient sign (qs ++ [digitChar s.1]) n,
      pre' ++ (cells (place b.length s.2.1) l' ++ rest),pre'.length,l'+1⟩

section Turns
variable {fuel n w l : ℕ} {sign : CChar} {pre qs rest : List CChar}

include hb hb0 in
/-- A window below the divisor is only extended. -/
theorem turn_skip (hlt : w < number b) (hl : l < b.length) {z : ℕ}
    (hH : Head b.length (number b) w (l+1) z) : Turn b fuel sign n pre qs rest w l (0,w,z) := by
  have hsmall := (isLeftStrBig_place hb hb0 rest (fun _ => hH.lt) (fun h => by omega)).mpr hlt
  refine ⟨pre,l+1,rfl,hH,?_⟩
  rw [divStep, List.drop_left, if_pos hsmall, quotient_skip]
  rfl

include hb in
/-- From a larger window `SubLoop` takes a digit and leaves a remainder, which is stripped. -/
theorem turn_subtract {q r : ℕ} (hrest : rest ≠ []) (hr : r < number b) (hl : l ≤ b.length)
    (hqs : qs.length = pre.length+l)
    (hbig : ¬ isLeftStrBig (cells (place b.length w) (l+1) ++ rest) (l+1) (b ++ [0]) b.length < 0)
    (hsub : subLoop fuel (cells (place b.length w) (l+1) ++ rest) 0 (l+1) (b ++ [0]) b.length =
      some (digitChar q,cells (place b.length r) (l+1) ++ rest))
    (htop : l < b.length → r < 10^(l+1)) : Turn b fuel sign n pre qs rest w l (q,r,0) := by
  have hhi := hr.trans (number_lt hb.1)
  obtain ⟨l',hle,hrun,hlen⟩ := stripLoop_place (l+1) (m := b.length) (N := r) (l := l+1) hrest
    (by omega) le_rfl (by omega) htop
  have hfits : l' ≤ b.length := by
    by_contra hgt
    have hlow := hlen.2 (by omega)
    have hpow : 10^b.length ≤ 10^(l'-1) := Nat.pow_le_pow_right (by decide) (by omega)
    omega
  obtain ⟨zs,hzs,hcells⟩ := cells_split (place b.length r) hle
  refine ⟨pre ++ zs,l',by rw [List.length_append]; omega,
    ⟨hfits,hlen.1 hfits,hr,fun _ => hlen.2,fun h => absurd h (lt_irrefl 0)⟩,?_⟩
  have hdrop : (pre ++ (cells (place b.length w) (l+1) ++ rest)).drop pre.length =
      cells (place b.length w) (l+1) ++ rest := List.drop_left
  rw [subLoop] at hsub
  have hframe := subLoopFrom_frame pre hsub
  have hstrip := stripLoop_frame pre hrun
  have hi : ((pre.length : ℤ)+((l+1 : ℕ) : ℤ)) = (qs.length+1 : ℕ) := by push_cast; omega
  have hindex : pre.length+(l+1-l') = (pre ++ zs).length := by rw [List.length_append]; omega
  rw [Nat.add_zero pre.length] at hframe
  rw [Nat.sub_self, Nat.add_zero pre.length] at hstrip
  rw [divStep, hdrop, if_neg hbig]
  simp only [subLoop, hframe, Option.bind_eq_bind, Option.bind_some, put_quotient sign qs n _ hi,
    hstrip, Option.pure_def, hindex]
  rw [hcells, List.append_assoc, List.append_assoc]

include hb hb0 in
/-- A window without a leading zero: the turn is a step of long division. -/
theorem turn_clean (hfuel : 2570 < fuel) (hrest : rest ≠ []) (hqs : qs.length = pre.length+l)
    (hl : l ≤ b.length) (hclean : 10^l ≤ w) (hw : w < 10^(l+1)) (hw10 : w < 10*number b) :
    Turn b fuel sign n pre qs rest w l (w/number b,w%number b,0) := by
  have hlo := hb.pow_le hb0
  have hhi := number_lt hb.1
  rcases Nat.lt_or_ge w (number b) with hlt | hge
  · have hlm : l < b.length := by
      by_contra hge
      have hpow : 10^b.length ≤ 10^l := Nat.pow_le_pow_right (by decide) (by omega)
      omega
    rw [Nat.div_eq_of_lt hlt, Nat.mod_eq_of_lt hlt]
    exact turn_skip hb hb0 hlt hlm
      ⟨hlm,hw,hlt,fun _ _ => hclean,fun h => absurd h (lt_irrefl 0)⟩
  · have hsize : l+1 = b.length ∨ l+1 = b.length+1 := by
      by_contra hne
      have hpow : 10^(l+1) ≤ 10^(b.length-1) := Nat.pow_le_pow_right (by decide) (by omega)
      omega
    have hfew : w/number b < fuel :=
      (Nat.div_lt_of_lt_mul (by omega : w < number b*10)).trans (by omega)
    have hsub := subLoopFrom_place hb hb0 hsize hrest fuel (show w < 256*10^b.length by omega)
      le_rfl ⟨fun _ => hw,fun _ => hclean⟩ 0
    rw [if_pos hfew, Nat.sub_self, zero_add] at hsub
    refine turn_subtract hb hrest (Nat.mod_lt _ (hb.number_pos hb0)) hl hqs ?_ hsub ?_
    · rw [isLeftStrBig_place hb hb0 rest (fun _ => hw) (fun _ => hge)]
      exact not_lt.mpr hge
    · exact fun _ => (Nat.mod_le _ _).trans_lt hw

include hb hb0 in
/-- A window longer than the divisor that begins with a zero is divided after wrapping. -/
theorem turn_wrapped (hfuel : 2570 < fuel) (hrest : rest ≠ [])
    (hqs : qs.length = pre.length+b.length) (hw : w < 10^b.length) :
    Turn b fuel sign n pre qs rest w b.length (wrapped b.length (number b) w/number b,
      wrapped b.length (number b) w%number b,0) := by
  have hm := List.length_pos_of_ne_nil hb.2.1
  have hlo := hb.pow_le hb0
  have hfew : wrapped b.length (number b) w/number b < fuel := by
    refine (Nat.div_lt_of_lt_mul (k := 2570) ?_).trans hfuel
    obtain ⟨k,hk⟩ : ∃ k, b.length = k+1 := ⟨b.length-1,by omega⟩
    rw [hk] at hw hlo ⊢
    rw [Nat.add_sub_cancel] at hlo
    unfold wrapped
    rw [pow_succ] at hw ⊢
    split_ifs <;> omega
  have hsub := subLoop_zeroLed hb hb0 hrest fuel hw
  rw [if_pos hfew] at hsub
  refine turn_subtract hb hrest (Nat.mod_lt _ (hb.number_pos hb0)) le_rfl hqs ?_ hsub ?_
  · rw [isLeftStrBig, if_pos (.inl (Nat.lt_succ_self _))]
    exact lt_irrefl 0
  · exact fun h => absurd h (lt_irrefl _)

/-- Without a leading zero the window has the length of its number after the next digit too. -/
theorem Head.clean_next {m B r l e : ℕ} (hH : Head m B r l 0) (h0 : ¬(r = 0 ∧ e = 0)) :
    10^l ≤ 10*r+e := by
  rcases Nat.eq_zero_or_pos l with rfl | hl
  · rw [pow_zero]
    omega
  · have hr := hH.clean rfl hl
    obtain ⟨k,rfl⟩ : ∃ k, l = k+1 := ⟨l-1,by omega⟩
    rw [Nat.add_sub_cancel] at hr
    rw [pow_succ]
    omega

/-- A window whose remainder is zero is empty unless it begins with a zero. -/
theorem Head.eq_zero {m B l : ℕ} (hH : Head m B 0 l 0) : l = 0 := by
  by_contra hl
  have hr := hH.clean rfl (by omega)
  have hpow : 0 < 10^(l-1) := Nat.pow_pos (by decide)
  omega

include hb hb0 in
/-- One turn of the loop is one step of the division on numbers. -/
theorem turn_wrapStep (hfuel : 2570 < fuel) (hrest : rest ≠ []) {r z e : ℕ} (he : e < 10)
    (hqs : qs.length = pre.length+l) (hH : Head b.length (number b) r l z) :
    Turn b fuel sign n pre qs rest (10*r+e) l (wrapStep b.length (number b) r z e) := by
  have hm := List.length_pos_of_ne_nil hb.2.1
  have hlo := hb.pow_le hb0
  have hlt := hH.lt
  have hbelow := hH.below
  have hw : 10*r+e < 10^(l+1) := by
    rw [pow_succ]
    omega
  rcases Nat.eq_zero_or_pos z with rfl | hz
  · by_cases h0 : r = 0 ∧ e = 0
    · obtain ⟨rfl,rfl⟩ := h0
      obtain rfl := hH.eq_zero
      have hs : wrapStep b.length (number b) 0 0 0 = (0,0,1) := by simp [wrapStep]
      rw [hs]
      exact turn_skip hb hb0 hbelow hm
        ⟨hm,by simp,hbelow,fun h => absurd h one_ne_zero,fun _ => ⟨rfl,by simp⟩⟩
    · have hs : wrapStep b.length (number b) r 0 e =
          ((10*r+e)/number b,(10*r+e)%number b,0) := by simp [wrapStep, h0]
      rw [hs]
      exact turn_clean hb hb0 hfuel hrest hqs hH.fits (hH.clean_next h0) hw (by omega)
  · obtain ⟨rfl,hr⟩ := hH.led hz
    have hwl := lt_of_zeroLed hz hr he
    rcases Nat.lt_or_ge l b.length with hl | hl
    · have hsmall : 10*r+e < number b :=
        hwl.trans_le ((Nat.pow_le_pow_right (by decide) (by omega)).trans hlo)
      have hs : wrapStep b.length (number b) r l e = (0,10*r+e,l+1) := by
        simp [wrapStep, hz.ne', hl]
      rw [hs]
      exact turn_skip hb hb0 hsmall hl
        ⟨hl,hw,hsmall,fun h => absurd h (Nat.succ_ne_zero l),fun _ => ⟨rfl,hwl⟩⟩
    · obtain rfl : l = b.length := le_antisymm hH.fits hl
      have hs : wrapStep b.length (number b) r b.length e =
          (wrapped b.length (number b) (10*r+e)/number b,
            wrapped b.length (number b) (10*r+e)%number b,0) := by simp [wrapStep, hz.ne']
      rw [hs]
      exact turn_wrapped hb hb0 hfuel hrest hqs hwl

end Turns

include hb hb0 in
/-- The loop writes the digits of the division on numbers. -/
theorem divLoop_wrapDigits (sign : CChar) {ds : List CChar} (hne : ds ≠ []) (hds : Digits ds)
    {fuel : ℕ} (hfuel : 2570+ds.length < fuel) {pre qs : List CChar} {r l z : ℕ}
    (hqs : qs.length = pre.length+l) (hH : Head b.length (number b) r l z) :
    divLoop (b ++ [0]) (qs.length+ds.length) b.length fuel ⟨quotient sign qs ds.length,
        pre ++ (cells (place b.length r) l ++ (ds ++ [0])),pre.length,l+1⟩ =
      some (quotient sign (qs ++
        (wrapDigits b.length (number b) r z (digitWord ds)).map fun q : ℕ => digitChar q) 0) := by
  induction ds generalizing fuel pre qs r l z with
  | nil => exact absurd rfl hne
  | cons d ds ih =>
    obtain ⟨hd,hds⟩ := (digits_cons d ds).mp hds
    rw [List.length_cons] at hfuel ⊢
    obtain ⟨fuel,rfl⟩ : ∃ f, fuel = f+1 := ⟨fuel-1,by omega⟩
    have hrest : ds ++ [0] ≠ [] := by simp
    have hd10 : (digit d).toNat < 10 := by
      have := (isDigit_iff d).mp hd
      omega
    have hturn : Turn b fuel sign ds.length pre qs (ds ++ [0]) (10*r+(digit d).toNat) l
        (wrapStep b.length (number b) r z (digit d).toNat) :=
      turn_wrapStep hb hb0 (by omega) hrest hd10 hqs hH
    obtain ⟨pre',l',hlen,hH',hstep⟩ := hturn
    have hword : digitWord (d::ds) = (digit d).toNat::digitWord ds := rfl
    have hindex : pre.length < qs.length+(ds.length+1) := by omega
    rw [divLoop, if_pos hindex, List.cons_append, cells_bring_down hd hH.fits hH.lt, hstep, hword,
      wrapDigits]
    simp only [Option.bind_eq_bind, Option.bind_some, List.map_cons]
    generalize wrapStep b.length (number b) r z (digit d).toNat = s at hH' ⊢
    rcases List.eq_nil_or_concat ds with rfl | ⟨init,c,hlast⟩
    · rw [if_pos (by rw [List.length_nil]; omega)]
      rfl
    · have hdne : ds ≠ [] := by simp [hlast]
      have hpos := List.length_pos_of_ne_nil hdne
      have hqs' : (qs ++ [digitChar s.1]).length = pre'.length+l' := by
        rw [List.length_append, List.length_singleton]
        omega
      have hnext := ih hdne hds (show 2570+ds.length < fuel by omega) hqs' hH'
      have hsize : (qs ++ [digitChar s.1]).length+ds.length = qs.length+(ds.length+1) := by
        rw [List.length_append, List.length_singleton]
        omega
      rw [hsize] at hnext
      rw [if_neg (by omega), hnext, List.append_assoc]
      rfl

end Steps

section Division
variable {a b : List CChar} (ha : Canonical a) (hb : Canonical b) (hb0 : b ≠ [ch '0'])

/-- The characters `DIV` writes after the sign. -/
def quotientDigits (a b : List CChar) : List CChar :=
  (wrapDigits b.length (number b) 0 0 (digitWord a)).map fun q : ℕ => digitChar q

theorem quotientDigits_length (a b : List CChar) : (quotientDigits a b).length = a.length := by
  simp [quotientDigits, digitWord]

include ha hb hb0 in
theorem div_large {s1 s2 : CChar} (hle : number b ≤ number a) (fuel : ℕ) :
    div fuel a b s1 s2 = do
      let ret ← malloc (toInt (a.length+1))
      let ret ← fill ret (ch '0') (toInt (a.length+1)).toNat
      let ret ← put ret 0 (productSign s1 s2)
      let ret ← divLoop (b ++ [0]) a.length b.length fuel ⟨ret,a ++ [0],0,1⟩
      return some ret := by
  have hsmall : isSmaller a b = false := by
    rw [Bool.eq_false_iff]
    exact fun h => absurd ((isSmaller_iff ha hb).mp h) (not_lt.mpr hle)
  rw [div, if_neg (mt (strcmp_zero_iff hb.1).mp hb0), hsmall]
  rfl

include ha hb hb0 in
theorem div_small {s1 s2 : CChar} (hlt : number a < number b) (fuel : ℕ) :
    div fuel a b s1 s2 = some (some [some (ch '0')]) := by
  rw [div, if_neg (mt (strcmp_zero_iff hb.1).mp hb0), (isSmaller_iff ha hb).mpr hlt]
  rfl

include ha hb hb0 in
theorem div_eq_quotientDigits (s1 s2 : CChar) (hle : number b ≤ number a)
    (hlen : a.length+1 < 2^31) {fuel : ℕ} (hfuel : 2570+a.length < fuel) :
    div fuel a b s1 s2 = some (some ((productSign s1 s2::quotientDigits a b).map some)) := by
  have hstart : fill (List.replicate (a.length+1) none) (ch '0') (a.length+1) =
      some (some (ch '0')::(List.replicate a.length (ch '0')).map some) := fill_malloc _ _
  have hH : Head b.length (number b) 0 0 0 :=
    ⟨Nat.zero_le _,by simp,hb.number_pos hb0,fun _ h => absurd h (lt_irrefl 0),
      fun h => absurd h (lt_irrefl 0)⟩
  have hqs : ([] : List CChar).length = ([] : List CChar).length+0 := rfl
  have hloop := divLoop_wrapDigits hb hb0 (productSign s1 s2) ha.2.1 ha.1 hfuel hqs hH
  have hret : quotient (productSign s1 s2) [] a.length =
      some (productSign s1 s2)::(List.replicate a.length (ch '0')).map some := rfl
  rw [List.length_nil, Nat.zero_add, hret] at hloop
  have hmem : ([] : List CChar) ++ (cells (place b.length 0) 0 ++ (a ++ [0])) = a ++ [0] := rfl
  rw [hmem] at hloop
  rw [div_large ha hb hb0 hle, toInt_eq hlen, malloc_natCast]
  simp only [Option.bind_eq_bind, Option.bind_some, Int.toNat_natCast, hstart, put_zero_cons,
    hloop, Option.pure_def]
  simp [quotient, quotientDigits]

/-- `DIV` ends with a block that denotes the quotient truncated toward zero. -/
def DivRight (a b : List CChar) (s1 s2 : CChar) : Prop :=
  ∃ ret, (∃ enough, ∀ fuel ≥ enough, div fuel a b s1 s2 = some (some ret)) ∧
    Denotes ret ((signed s1 (number a)).tdiv (signed s2 (number b)))

include ha hb hb0 in
/-- The characters written denote the quotient exactly if they show the digits of long
division. -/
theorem quotientDigits_iff :
    (Digits (quotientDigits a b) ∧ number (quotientDigits a b) = number a/number b) ↔
      (wrapDigits b.length (number b) 0 0 (digitWord a)).map (·%256) =
        longDigits 10 (number b) 0 (digitWord a) := by
  have hpos := hb.number_pos hb0
  have hword := digitWord_lt ha.1
  have hlt := longDigits_lt hpos hword
  -- the digits of long division as characters
  have hshow : Digits ((longDigits 10 (number b) 0 (digitWord a)).map
      fun q : ℕ => digitChar q) := by
    intro c hc
    obtain ⟨q,hq,rfl⟩ := List.mem_map.mp hc
    have := hlt q hq
    exact isDigit_digitChar (by omega) (by omega)
  have hback : digitWord ((longDigits 10 (number b) 0 (digitWord a)).map
      fun q : ℕ => digitChar q) = longDigits 10 (number b) 0 (digitWord a) := by
    rw [digitWord, List.map_map]
    refine (List.map_congr_left fun q hq => ?_).trans (List.map_id _)
    have := hlt q hq
    simp only [Function.comp_apply, id]
    rw [digit_digitChar (by omega) (by omega), Int.toNat_natCast]
  have hvalue : number ((longDigits 10 (number b) 0 (digitWord a)).map
      fun q : ℕ => digitChar q) = number a/number b := by
    rw [number, hback, value_longDigits hpos, Nat.zero_mul, Nat.zero_add]
    rfl
  have hchars : quotientDigits a b =
      (longDigits 10 (number b) 0 (digitWord a)).map (fun q : ℕ => digitChar q) ↔
      (wrapDigits b.length (number b) 0 0 (digitWord a)).map (·%256) =
        longDigits 10 (number b) 0 (digitWord a) := by
    have hmod := longDigits_mod hpos hword
    have hsame (xs ys : List ℕ) : (xs.map fun q : ℕ => digitChar q) =
        (ys.map fun q : ℕ => digitChar q) ↔ xs.map (·%256) = ys.map (·%256) := by
      induction xs generalizing ys with
      | nil => cases ys <;> simp
      | cons x xs ih =>
        cases ys with
        | nil => simp
        | cons y ys =>
          have hxy : ((x : ℤ)%256 = (y : ℤ)%256) ↔ x%256 = y%256 := by omega
          simp only [List.map_cons, List.cons_eq_cons, digitChar_eq_iff, hxy, ih]
    rw [quotientDigits, hsame, hmod]
  rw [← hchars]
  constructor
  · rintro ⟨hd,hn⟩
    exact number_injective (by simp [quotientDigits]) hd hshow (hn.trans hvalue.symm)
  · intro h
    rw [h]
    exact ⟨hshow,hvalue⟩

include ha hb hb0 in
theorem divRight_iff_of_large {s1 s2 : CChar} (h1 : IsSign s1) (h2 : IsSign s2)
    (hle : number b ≤ number a) (hlen : a.length+1 < 2^31) :
    DivRight a b s1 s2 ↔ ∀ xs us vs, FirstTrap b.length (number b) (digitWord a) xs us vs →
      Harmless b.length (number b) us vs := by
  have hm := List.length_pos_of_ne_nil hb.2.1
  have hhead : (digitWord a).head? ≠ some 0 := by
    have ha0 : a ≠ [ch '0'] := by
      rintro rfl
      have hpos := hb.number_pos hb0
      have hz : number [ch '0'] = 0 := by decide
      omega
    obtain ⟨c,t,rfl,hc,hc0,-⟩ := ha.exists_cons ha0
    have := isDigit_pos hc hc0
    simp only [digitWord, List.map_cons, List.head?_cons, ne_eq, Option.some.injEq]
    omega
  rw [← wrapDigits_iff hm (hb.pow_le hb0) (number_lt hb.1) (digitWord_lt ha.1) hhead,
    ← quotientDigits_iff ha hb hb0]
  have hrun {fuel : ℕ} (h : 2570+a.length < fuel) :=
    div_eq_quotientDigits ha hb hb0 s1 s2 hle hlen h
  have hne : quotientDigits a b ≠ [] := by
    rw [← List.length_pos_iff_ne_nil, quotientDigits_length]
    exact List.length_pos_of_ne_nil ha.2.1
  have hread : readInt (productSign s1 s2::quotientDigits a b) =
      some ((signed s1 (number a)).tdiv (signed s2 (number b))) ↔
      Digits (quotientDigits a b) ∧ number (quotientDigits a b) = number a/number b := by
    rw [readInt_sign (isSign_productSign s1 s2), signed_tdiv h1 h2]
    split_ifs with hd
    · rw [Option.some.injEq]
      exact ⟨fun h => ⟨hd.2,signed_injective h⟩,fun h => by rw [h.2]⟩
    · exact iff_of_false (by simp) fun h => hd ⟨hne,h.1⟩
  rw [← hread, ← denotes_filled]
  constructor
  · rintro ⟨ret,⟨enough,hret⟩,hden⟩
    have hboth := hret (max enough (2571+a.length)) (le_max_left _ _)
    rw [hrun (by omega)] at hboth
    rwa [Option.some.inj (Option.some.inj hboth)]
  · exact fun hden => ⟨_,⟨2571+a.length,fun fuel h => hrun (by omega)⟩,hden⟩

end Division

section Long

/-- Stripping does not move the right end of the window. -/
theorem stripLoop_end {mem : List CChar} {off lsize : ℕ} {p : ℕ × ℕ}
    (h : stripLoop mem off lsize = some p) : p.1+p.2 = off+lsize := by
  induction lsize generalizing off with
  | zero =>
    simp only [stripLoop, Option.bind_eq_bind, Option.bind_eq_some_iff] at h
    obtain ⟨_,-,h⟩ := h
    rw [← Option.some.inj h]
  | succ lsize ih =>
    simp only [stripLoop, Option.bind_eq_bind, Option.bind_eq_some_iff] at h
    obtain ⟨_,-,h⟩ := h
    split_ifs at h
    · have hend := ih h
      omega
    · rw [← Option.some.inj h]

/-- A loop whose result block has lost cells: its window still begins inside the block, and a
divisor as long as the block has not been subtracted yet. -/
structure Narrow (a b : List CChar) (size : ℕ) (st : Division) : Prop where
  block : st.ret.length = size
  begins : st.index < size
  inside : st.index+st.datalen ≤ a.length
  untouched : size ≤ b.length → st.index = 0 ∧ st.mem = a ++ [0]

variable {a b : List CChar} (ha : Canonical a) (hb : Canonical b) (hb0 : b ≠ [ch '0'])

include ha hb in
theorem length_le_of_number_le (hle : number b ≤ number a) : b.length ≤ a.length := by
  by_contra hlt
  have hsmaller := (isSmaller_iff ha hb).mp (by simp [isSmaller, not_le.mp hlt])
  omega

include ha hb in
/-- The window does not reach the end of the dividend without a subtraction, and a subtraction
whose digit lies behind the block is a fault. -/
theorem divStep_narrow {fuel size : ℕ} {st st' : Division} (hle : number b ≤ number a)
    (hshort : size < 2^31) (hlost : size+2^32 ≤ a.length+1) (hst : Narrow a b size st)
    (h : divStep fuel (b ++ [0]) b.length st = some st') : Narrow a b size st' := by
  obtain ⟨hblock,hbegins,hinside,huntouched⟩ := hst
  unfold divStep at h
  split_ifs at h with hsmall
  · rw [← Option.some.inj h]
    refine ⟨hblock,hbegins,?_,huntouched⟩
    by_contra hlast
    change ¬st.index+(st.datalen+1) ≤ a.length at hlast
    unfold isLeftStrBig at hsmall
    split_ifs at hsmall with hbig
    · exact absurd hsmall (lt_irrefl 0)
    · obtain ⟨hlong,hsame⟩ := not_or.mp hbig
      rcases Nat.lt_or_ge b.length size with hb' | hb'
      · omega
      · obtain ⟨hindex,hmem⟩ := huntouched hb'
        have hlength := length_le_of_number_le ha hb hle
        have hequal : a.length = b.length := by omega
        have hcmp := strncmp_digits (u := [0]) (v := [0]) hequal ha.1 hb.1 le_rfl
          (by rw [Nat.sub_self]; rfl)
        rw [hindex, hmem, List.drop_zero, show st.datalen = a.length by omega] at hsame
        exact hsame ⟨hequal,not_lt.mp (mt hcmp.mp (not_lt.mpr hle))⟩
  · simp only [Option.bind_eq_bind, Option.bind_eq_some_iff, Option.pure_def] at h
    obtain ⟨⟨c,mem⟩,-,ret,hput,⟨index,datalen⟩,hstrip,h⟩ := h
    obtain ⟨hnonneg,hin,-⟩ := store_eq_some hput
    have hend := stripLoop_end hstrip
    have hlen := store_length hput
    rw [← Option.some.inj h]
    have hge : b.length ≤ st.datalen := by
      unfold isLeftStrBig at hsmall
      split_ifs at hsmall with hbig
      · omega
      · exact absurd (by decide) hsmall
    refine ⟨hlen.trans hblock,?_,?_,fun hb' => ?_⟩
    · change index < size
      omega
    · change index+(datalen+1) ≤ a.length
      omega
    · omega

include ha hb in
theorem divLoop_narrow {fuel size : ℕ} {st : Division} (hle : number b ≤ number a)
    (hshort : size < 2^31) (hlost : size+2^32 ≤ a.length+1) (hst : Narrow a b size st) :
    divLoop (b ++ [0]) a.length b.length fuel st = none := by
  induction fuel generalizing st with
  | zero => rfl
  | succ fuel ih =>
    have hindex : st.index < a.length := by
      have := hst.begins
      omega
    rw [divLoop, if_pos hindex]
    cases hstep : divStep fuel (b ++ [0]) b.length st with
    | none => rfl
    | some st' =>
      have hst' := divStep_narrow ha hb hle hshort hlost hst hstep
      rw [Option.bind_eq_bind, Option.bind_some, if_neg (not_lt.mpr hst'.inside)]
      exact ih hst'

include ha hb hb0 in
/-- When the length of the result does not fit an `int`, the block cannot be allocated or the
loop leaves it. -/
theorem div_long (hle : number b ≤ number a) (hlen : 2^31 ≤ a.length+1) (s1 s2 : CChar)
    (fuel : ℕ) : div fuel a b s1 s2 = none := by
  rw [Option.eq_none_iff_forall_ne_some]
  intro ret hrun
  rw [div_large ha hb hb0 hle] at hrun
  simp only [Option.bind_eq_bind, Option.bind_eq_some_iff, Option.pure_def] at hrun
  obtain ⟨ret1,hmalloc,ret2,hfill,ret3,hput,ret4,hloop,-⟩ := hrun
  obtain ⟨hnonneg,rfl⟩ : 0 ≤ toInt (a.length+1) ∧
      List.replicate (toInt (a.length+1)).toNat none = ret1 := by
    unfold malloc at hmalloc
    split_ifs at hmalloc with h0
    exact ⟨h0,Option.some.inj hmalloc⟩
  obtain ⟨hshort,hlost⟩ := toInt_of_long hlen hnonneg
  rw [fill_malloc] at hfill
  obtain rfl := Option.some.inj hfill
  have hpos := (store_eq_some hput).2.1
  have hlength := store_length hput
  rw [List.length_map, List.length_replicate] at hpos hlength
  have hstart : Narrow a b (toInt (a.length+1)).toNat ⟨ret3,a ++ [0],0,1⟩ :=
    ⟨hlength,(Nat.zero_le _).trans_lt hpos,List.length_pos_of_ne_nil ha.2.1,fun _ => ⟨rfl,rfl⟩⟩
  rw [divLoop_narrow ha hb hle hshort hlost hstart] at hloop
  cases hloop

include ha hb hb0 in
/-- The division is right if the quotient is zero, or if the length of the result fits an `int`
and the first trap of the dividend, where there is one, is harmless. -/
theorem divRight_iff {s1 s2 : CChar} (h1 : IsSign s1) (h2 : IsSign s2) :
    DivRight a b s1 s2 ↔ number a < number b ∨ a.length+1 < 2^31 ∧
      ∀ xs us vs, FirstTrap b.length (number b) (digitWord a) xs us vs →
        Harmless b.length (number b) us vs := by
  rcases Nat.lt_or_ge (number a) (number b) with hlt | hle
  · refine iff_of_true ⟨_,⟨0,fun fuel _ => div_small ha hb hb0 hlt fuel⟩,[ch '0'],rfl,?_⟩
      (.inl hlt)
    rw [signed_tdiv h1 h2, Nat.div_eq_of_lt hlt]
    unfold signed
    split_ifs <;> rfl
  · rcases Nat.lt_or_ge (a.length+1) (2^31) with hlen | hlen
    · rw [divRight_iff_of_large ha hb hb0 h1 h2 hle hlen]
      rw [and_iff_right hlen, or_iff_right (not_lt.mpr hle)]
    · refine iff_of_false ?_ (by omega)
      rintro ⟨ret,⟨enough,hret⟩,-⟩
      have hrun := hret enough le_rfl
      rw [div_long ha hb hb0 hle hlen] at hrun
      cases hrun

theorem divRight_84 : DivRight (cstr "84") (cstr "2") (ch '+') (ch '-') := by
  refine (divRight_iff (by decide) (by decide) (by decide) (by decide) (by decide)).mpr
    (.inr ⟨by decide,fun xs us vs h => ?_⟩)
  -- two digits leave no room for a trap
  have hx := List.length_pos_of_ne_nil h.2.1.1
  have hu : us.length = 2 := h.2.1.2.1
  have hl : 2 = (xs ++ us ++ vs).length := congrArg List.length h.1
  rw [List.length_append, List.length_append] at hl
  omega

/-- 400/4: after the 4 is used up the window is `00`, whose top cell wraps, and 640 subtractions
are counted into the last digit. -/
theorem not_divRight_400 : ¬DivRight (cstr "400") (cstr "4") (ch '+') (ch '+') := by
  rw [divRight_iff_of_large (by decide) (by decide) (by decide) (by decide) (by decide)
    (by decide) (by decide)]
  intro h
  have htrap : FirstTrap 1 4 [4,0,0] [4] [0,0] [] := by
    refine ⟨rfl,⟨by decide,rfl,by decide,by decide⟩,fun xs' _ _ _ ht => ?_⟩
    exact List.length_pos_of_ne_nil ht.1
  exact absurd (h [4] [0,0] [] htrap) (by decide)

end Long

end LibeventHttpd.MathCgi
