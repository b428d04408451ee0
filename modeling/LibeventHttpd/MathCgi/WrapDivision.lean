import LibeventHttpd.Library.LongDivision

/-! The division routine on numbers. A window that begins with a zero is taken for a large one
as soon as it is longer than the divisor; the subtraction then borrows from an 8-bit cell.
The main theorem says on which dividends the digits are still those of long division. -/
namespace LibeventHttpd.MathCgi
open Positional

/-- What a window with a zero in its top cell is divided as: taking the divisor from a smaller
number borrows from that cell, which then counts down from 255 to zero. -/
def wrapped (m B N : ℕ) : ℕ := if N < B then N+256*10^m else N

/-- One digit `d` is brought down to the remainder `r`; `z` is the length of a window that
begins with a zero, or 0. The result is the quotient digit and the next `r` and `z`. -/
def wrapStep (m B r z d : ℕ) : ℕ × ℕ × ℕ :=
  let w := 10*r+d
  if z = 0 then (if r = 0 ∧ d = 0 then (0,0,1) else (w/B,w%B,0))
  else if z < m then (0,w,z+1)
  else (wrapped m B w/B,wrapped m B w%B,0)

def wrapDigits (m B : ℕ) : ℕ → ℕ → List ℕ → List ℕ
  | _,_,[] => []
  | r,z,d::ds =>
    let s := wrapStep m B r z d
    s.1::wrapDigits m B s.2.1 s.2.2 ds

def wrapRest (m B : ℕ) : ℕ → ℕ → List ℕ → ℕ × ℕ
  | r,z,[] => (r,z)
  | r,z,d::ds =>
    let s := wrapStep m B r z d
    wrapRest m B s.2.1 s.2.2 ds

@[simp] theorem wrapDigits_length (m B r z : ℕ) (ds : List ℕ) :
    (wrapDigits m B r z ds).length = ds.length := by
  induction ds generalizing r z with
  | nil => rfl
  | cons d ds ih => simp [wrapDigits, ih]

theorem wrapDigits_append (m B r z : ℕ) (xs ys : List ℕ) :
    wrapDigits m B r z (xs ++ ys) =
      wrapDigits m B r z xs ++
        wrapDigits m B (wrapRest m B r z xs).1 (wrapRest m B r z xs).2 ys := by
  induction xs generalizing r z with
  | nil => rfl
  | cons x xs ih => simp [wrapDigits, wrapRest, ih]

theorem wrapRest_append (m B r z : ℕ) (xs ys : List ℕ) :
    wrapRest m B r z (xs ++ ys) =
      wrapRest m B (wrapRest m B r z xs).1 (wrapRest m B r z xs).2 ys := by
  induction xs generalizing r z with
  | nil => rfl
  | cons x xs ih => simp [wrapRest, ih]

/-- A word that starts with a zero is below the power of its tail. -/
theorem value_lt_of_head {us : List ℕ} (hd : ∀ d ∈ us, d < 10) (h0 : us.head? = some 0) :
    value 10 us < 10^(us.length-1) := by
  cases us with
  | nil => simp at h0
  | cons u us =>
    obtain rfl : u = 0 := by simpa using h0
    rw [value_cons, Nat.zero_mul, Nat.zero_add]
    exact value_lt (by decide) fun d h => hd d (by simp [h])

/-- A word below the power of its tail starts with a zero. -/
theorem head_of_value_lt {us : List ℕ} (hne : us ≠ []) (h : value 10 us < 10^(us.length-1)) :
    us.head? = some 0 := by
  obtain ⟨u,us,rfl⟩ := List.exists_cons_of_ne_nil hne
  rcases Nat.eq_zero_or_pos u with rfl | hu
  · rfl
  · exact absurd h (not_lt.mpr (pow_le_value hu))

/-- A prefix divides exactly and the next `m+1` digits are below the divisor: there the top
cell wraps. -/
def Trap (m B : ℕ) (xs us : List ℕ) : Prop :=
  xs ≠ [] ∧ us.length = m+1 ∧ B ∣ value 10 xs ∧ value 10 us < B

/-- Wrapping at the window `us` leaves all further quotient digits as they should be. -/
def Harmless (m B : ℕ) (us vs : List ℕ) : Prop :=
  (value 10 (us ++ vs)+256*10^(m+vs.length))/B ≡ value 10 (us ++ vs)/B [MOD 256*10^vs.length]

instance (m B : ℕ) (us vs : List ℕ) : Decidable (Harmless m B us vs) :=
  inferInstanceAs (Decidable (_ ≡ _ [MOD _]))

section Divisor
variable {m B : ℕ} (hm : 0 < m) (hlo : 10^(m-1) ≤ B)

theorem lt_of_zeroLed {z r d : ℕ} (hz : 0 < z) (hr : r < 10^(z-1)) (hd : d < 10) :
    10*r+d < 10^z := by
  obtain ⟨k,rfl⟩ : ∃ k, z = k+1 := ⟨z-1,by omega⟩
  rw [Nat.add_sub_cancel] at hr
  rw [pow_succ]
  omega

include hlo in
/-- As long as no zero-led window can grow beyond the divisor the digits are right. -/
theorem wrapDigits_quiet {r z : ℕ} {ds : List ℕ} (hr : r < B) (hz : 0 < z → r < 10^(z-1))
    (hd : ∀ d ∈ ds, d < 10) (hl : ds.length+z ≤ m) :
    wrapDigits m B r z ds = longDigits 10 B r ds := by
  induction ds generalizing r z with
  | nil => rfl
  | cons d ds ih =>
    have hd0 := hd d (by simp)
    have hds : ∀ e ∈ ds, e < 10 := fun e he => hd e (by simp [he])
    rw [List.length_cons] at hl
    rcases Nat.eq_zero_or_pos z with rfl | hpos
    · by_cases h0 : r = 0 ∧ d = 0
      · obtain ⟨rfl,rfl⟩ := h0
        have hi := ih (r := 0) (z := 1) hr (fun _ => by simp) hds (by omega)
        simpa [wrapDigits, wrapStep, longDigits] using hi
      · have hi := ih (r := (10*r+d)%B) (z := 0) (Nat.mod_lt _ (by omega)) (by simp) hds (by omega)
        simpa [wrapDigits, wrapStep, longDigits, h0] using hi
    · have hw := lt_of_zeroLed hpos (hz hpos) hd0
      have hwB : 10*r+d < B :=
        hw.trans_le ((Nat.pow_le_pow_right (by decide) (by omega)).trans hlo)
      have hi := ih (r := 10*r+d) (z := z+1) hwB (fun _ => hw) hds (by omega)
      simpa [wrapDigits, wrapStep, longDigits, hpos.ne', show z < m by omega,
        Nat.div_eq_of_lt hwB, Nat.mod_eq_of_lt hwB] using hi

include hm hlo in
/-- A divisor of the power of ten of its own length is never hurt by the wrap. -/
theorem wrapDigits_of_dvd (hdvd : B ∣ 10^m) {r z : ℕ} {ds : List ℕ} (hr : r < B) (hzm : z ≤ m)
    (hz : 0 < z → r < 10^(z-1)) (hd : ∀ d ∈ ds, d < 10) :
    (wrapDigits m B r z ds).map (·%256) = longDigits 10 B r ds := by
  induction ds generalizing r z with
  | nil => rfl
  | cons d ds ih =>
    have hd0 := hd d (by simp)
    have hds : ∀ e ∈ ds, e < 10 := fun e he => hd e (by simp [he])
    have hq : (10*r+d)/B < 256 := (step_lt hr hd0).trans (by decide)
    have hmod := Nat.mod_lt (10*r+d) (show B > 0 by omega)
    rcases Nat.eq_zero_or_pos z with rfl | hpos
    · by_cases h0 : r = 0 ∧ d = 0
      · obtain ⟨rfl,rfl⟩ := h0
        have hi := ih (r := 0) (z := 1) hr hm (fun _ => by simp) hds
        simpa [wrapDigits, wrapStep, longDigits] using hi
      · have hi := ih (r := (10*r+d)%B) (z := 0) hmod (Nat.zero_le _) (by simp) hds
        simpa [wrapDigits, wrapStep, longDigits, h0, Nat.mod_eq_of_lt hq]
          using hi
    · have hw := lt_of_zeroLed hpos (hz hpos) hd0
      rcases Nat.lt_or_ge z m with hzlt | hzge
      · have hwB : 10*r+d < B :=
          hw.trans_le ((Nat.pow_le_pow_right (by decide) (by omega)).trans hlo)
        have hi := ih (r := 10*r+d) (z := z+1) hwB hzlt (fun _ => hw) hds
        simpa [wrapDigits, wrapStep, longDigits, hpos.ne', hzlt,
          Nat.div_eq_of_lt hwB, Nat.mod_eq_of_lt hwB] using hi
      · obtain ⟨c,hc⟩ := hdvd
        have hwrap : wrapped m B (10*r+d)/B%256 = (10*r+d)/B ∧
            wrapped m B (10*r+d)%B = (10*r+d)%B := by
          unfold wrapped
          split_ifs with hlt
          · have he : 10*r+d+256*10^m = (10*r+d)+B*(256*c) := by rw [hc]; ring
            rw [he, Nat.add_mul_div_left _ _ (by omega), Nat.add_mul_mod_self_left,
              Nat.add_mul_mod_self_left]
            exact ⟨Nat.mod_eq_of_lt hq,rfl⟩
          · exact ⟨Nat.mod_eq_of_lt hq,rfl⟩
        have hi := ih (r := (10*r+d)%B) (z := 0) hmod (Nat.zero_le _) (by simp) hds
        simpa [wrapDigits, wrapStep, longDigits, hpos.ne', not_lt.mpr hzge, hwrap.1, hwrap.2]
          using hi

/-- What is known of the window after the digits `ys`. A positive `z` is the length of a pending
window that begins with a zero, and no longer word after an exact division begins with one. -/
structure Window (m B : ℕ) (ys : List ℕ) (r z : ℕ) : Prop where
  rest : r = value 10 ys%B
  short : z ≤ m
  clear : ∀ ps us, ys = ps ++ us → ps ≠ [] → z < us.length → us.length ≤ m →
    B ∣ value 10 ps → us.head? ≠ some 0
  led : 0 < z → ∃ ps us, ys = ps ++ us ∧ ps ≠ [] ∧ us.length = z ∧ B ∣ value 10 ps ∧
    us.head? = some 0 ∧ value 10 us = r

theorem head_snoc {us : List ℕ} (h : us ≠ []) (d : ℕ) : (us ++ [d]).head? = us.head? := by
  obtain ⟨u,us,rfl⟩ := List.exists_cons_of_ne_nil h
  rfl

/-- Splits of a longer word are splits of the shorter one. -/
theorem split_snoc {ys ps us : List ℕ} {d : ℕ} (h : ys ++ [d] = ps ++ us) (hl : 0 < us.length) :
    ∃ us0, us = us0 ++ [d] ∧ ys = ps ++ us0 := by
  obtain ⟨us0,e,rfl⟩ : ∃ us0 e, us = us0 ++ [e] :=
    ⟨us.dropLast,us.getLast (List.ne_nil_of_length_pos hl),(List.dropLast_append_getLast _).symm⟩
  rw [← List.append_assoc] at h
  obtain ⟨h1,h2⟩ := List.append_inj' h rfl
  obtain rfl : d = e := by simpa using h2
  exact ⟨us0,rfl,h1⟩

theorem value_mod_snoc (B : ℕ) (ys : List ℕ) (d : ℕ) :
    value 10 (ys ++ [d])%B = (10*(value 10 ys%B)+d)%B := by
  rw [value_snoc]
  exact (((Nat.mod_modEq (value 10 ys) B).mul_left 10).add_right d).symm

section Step
variable {ys : List ℕ} {r z d : ℕ}

/-- Bringing down a digit gives a window that begins with no zero. -/
theorem Window.plain (hW : Window m B ys r 0) (h0 : ¬(r = 0 ∧ d = 0)) :
    Window m B (ys ++ [d]) ((10*r+d)%B) 0 where
  rest := by rw [value_mod_snoc, hW.rest]
  short := Nat.zero_le m
  led := fun h => absurd h (lt_irrefl 0)
  clear := by
    intro ps us hsplit hps hl hle hdvd
    obtain ⟨us,rfl,hys⟩ := split_snoc hsplit hl
    cases us with
    | nil =>
      -- the word is `d` alone, so the division so far was exact
      rw [List.append_nil] at hys
      have hr : r = 0 := by rw [hW.rest, hys, Nat.mod_eq_zero_of_dvd hdvd]
      simpa using fun hd => h0 ⟨hr,hd⟩
    | cons u us =>
      rw [List.length_append] at hle
      exact hW.clear ps (u::us) hys hps (by simp) (by omega) hdvd

/-- A zero after an exact division begins a window. -/
theorem Window.first (hm : 0 < m) (hW : Window m B ys 0 0) (hys : ys ≠ []) :
    Window m B (ys ++ [0]) 0 1 where
  rest := by rw [value_mod_snoc, ← hW.rest, Nat.zero_mod]
  short := hm
  led := fun _ => ⟨ys,[0],rfl,hys,rfl,Nat.dvd_of_mod_eq_zero hW.rest.symm,rfl,rfl⟩
  clear := by
    intro ps us hsplit hps hl hle hdvd
    obtain ⟨us,rfl,hsp⟩ := split_snoc hsplit (by omega)
    rw [List.length_append, List.length_singleton] at hl hle
    have hne : us ≠ [] := List.ne_nil_of_length_pos (by omega)
    rw [head_snoc hne]
    exact hW.clear ps us hsp hps (by omega) (by omega) hdvd

/-- Such a window grows up to the length of the divisor. -/
theorem Window.grow (hlo : 10^(m-1) ≤ B) (hW : Window m B ys r z) (hy : ∀ y ∈ ys, y < 10)
    (hd : d < 10) (hz : 0 < z) (hzm : z < m) :
    10*r+d < B ∧ Window m B (ys ++ [d]) (10*r+d) (z+1) := by
  obtain ⟨ps,us,hsp,hps,hl,hdvd,hhead,hv⟩ := hW.led hz
  have hus : ∀ u ∈ us, u < 10 := fun u hu => hy u (by simp [hsp, hu])
  have hr : r < 10^(z-1) := by
    rw [← hv, ← hl]
    exact value_lt_of_head hus hhead
  have hw : 10*r+d < 10^z := lt_of_zeroLed hz hr hd
  have hwB : 10*r+d < B := hw.trans_le ((Nat.pow_le_pow_right (by decide) (by omega)).trans hlo)
  have hne : us ≠ [] := List.ne_nil_of_length_pos (by omega)
  have hrB : r%B = r := Nat.mod_eq_of_lt (by omega)
  refine ⟨hwB,?_,hzm,?_,fun _ => ?_⟩
  · rw [value_mod_snoc, ← hW.rest, Nat.mod_eq_of_lt hwB]
  · intro qs vs hsplit hqs hvl hvle hqdvd
    obtain ⟨vs,rfl,hsq⟩ := split_snoc hsplit (by omega)
    rw [List.length_append, List.length_singleton] at hvl hvle
    rw [head_snoc (List.ne_nil_of_length_pos (by omega))]
    exact hW.clear qs vs hsq hqs (by omega) (by omega) hqdvd
  · refine ⟨ps,us ++ [d],by rw [hsp, List.append_assoc],hps,by simp [hl],hdvd,?_,?_⟩
    · rw [head_snoc hne, hhead]
    · rw [value_snoc, hv]

/-- Between two exact divisions, the first of them followed by a zero, stand only zeros. -/
theorem value_between {ps us qs vs : List ℕ} (hlo : 10^(m-1) ≤ B) (hy : ∀ y ∈ ys, y < 10)
    (hsp : ys = ps ++ us) (hsq : ys = qs ++ vs) (hl : us.length = m) (hle : vs.length ≤ m)
    (hdvd : B ∣ value 10 ps) (hqdvd : B ∣ value 10 qs) (hhead : us.head? = some 0) :
    ∃ ts, us = ts ++ vs ∧ value 10 ts = 0 := by
  have hlen : ps.length ≤ qs.length := by
    have h1 := congrArg List.length hsp
    have h2 := congrArg List.length hsq
    rw [List.length_append] at h1 h2
    omega
  have hpre : ps <+: ys := ⟨us,hsp.symm⟩
  obtain ⟨ts,rfl⟩ := List.prefix_of_prefix_length_le hpre ⟨vs,hsq.symm⟩ hlen
  have hus : us = ts ++ vs := by
    rw [hsp, List.append_assoc] at hsq
    exact List.append_cancel_left hsq
  refine ⟨ts,hus,?_⟩
  cases ts with
  | nil => rfl
  | cons t ts =>
    -- what stands between is a multiple of the divisor below it
    have hmem : ∀ u ∈ t::ts, u < 10 := by
      intro u hu
      refine hy u ?_
      rw [hsq]
      exact List.mem_append_left _ (List.mem_append_right _ hu)
    have hlt : value 10 (t::ts) < 10^ts.length :=
      value_lt_of_head hmem (by simpa [hus] using hhead)
    have hshort : ts.length ≤ m-1 := by
      rw [hus, List.length_append, List.length_cons] at hl
      omega
    rw [value_append] at hqdvd
    refine Nat.eq_zero_of_dvd_of_lt ((Nat.dvd_add_right (hdvd.mul_right _)).mp hqdvd) ?_
    exact hlt.trans_le ((Nat.pow_le_pow_right (by decide) hshort).trans hlo)

/-- A window longer than the divisor holds at least the divisor, or it is a trap. -/
theorem Window.full (hm : 0 < m) (hlo : 10^(m-1) ≤ B) (hW : Window m B ys r m)
    (hy : ∀ y ∈ ys, y < 10) (hd : d < 10)
    (hno : ∀ xs us, ys ++ [d] = xs ++ us → ¬Trap m B xs us) :
    B ≤ 10*r+d ∧ Window m B (ys ++ [d]) ((10*r+d)%B) 0 := by
  obtain ⟨ps,us,hsp,hps,hl,hdvd,hhead,hv⟩ := hW.led hm
  have hge : B ≤ 10*r+d := by
    by_contra hlt
    refine hno ps (us ++ [d]) (by rw [hsp, List.append_assoc]) ⟨hps,by simp [hl],hdvd,?_⟩
    rw [value_snoc, hv]
    exact not_le.mp hlt
  refine ⟨hge,?_,Nat.zero_le m,?_,fun h => absurd h (lt_irrefl 0)⟩
  · rw [value_mod_snoc, ← hW.rest]
  · intro qs vs hsplit hqs hvl hvle hqdvd hz
    obtain ⟨vs,rfl,hsq⟩ := split_snoc hsplit hvl
    rw [List.length_append, List.length_singleton] at hvle
    obtain ⟨ts,rfl,hts⟩ := value_between hlo hy hsp hsq hl (by omega) hdvd hqdvd hhead
    have hvd : ∀ u ∈ vs ++ [d], u < 10 := by
      intro u hu
      rcases List.mem_append.mp hu with hu | hu
      · exact hy u (by simp [hsp, hu])
      · rw [List.mem_singleton.mp hu]
        exact hd
    have hsmall := value_lt_of_head hvd hz
    rw [List.length_append, List.length_singleton, Nat.add_sub_cancel, value_snoc] at hsmall
    have hr : r = value 10 vs := by rw [← hv, value_append, hts, Nat.zero_mul, Nat.zero_add]
    have hpow : 10^vs.length ≤ 10^(m-1) := Nat.pow_le_pow_right (by decide) (by omega)
    omega

end Step

/-- As long as no trap has ended the digits are those of long division. -/
theorem wrapDigits_of_no_trap {ys : List ℕ} (hm : 0 < m) (hlo : 10^(m-1) ≤ B)
    (hy : ∀ y ∈ ys, y < 10) (hhead : ys.head? ≠ some 0)
    (hno : ∀ xs us vs, ys = xs ++ us ++ vs → ¬Trap m B xs us) :
    wrapDigits m B 0 0 ys = longDigits 10 B 0 ys ∧
      Window m B ys (wrapRest m B 0 0 ys).1 (wrapRest m B 0 0 ys).2 := by
  induction ys using List.reverseRecOn with
  | nil =>
    refine ⟨rfl,by simp [wrapRest],Nat.zero_le m,?_,fun h => absurd h (lt_irrefl 0)⟩
    intro ps us hsp hps
    exact absurd (List.append_eq_nil_iff.mp hsp.symm).1 hps
  | append_singleton ys d ih =>
    have hys : ∀ y ∈ ys, y < 10 := fun y h => hy y (by simp [h])
    have hd : d < 10 := hy d (by simp)
    have hB : 0 < B := (Nat.pow_pos (by decide)).trans_le hlo
    have hne (h : d = 0) : ys ≠ [] := by
      rintro rfl
      simp [h] at hhead
    have hhead' : ys.head? ≠ some 0 := by
      cases ys with
      | nil => simp
      | cons y ys => simpa using hhead
    obtain ⟨hdig,hW⟩ := ih hys hhead' fun xs us vs h =>
      hno xs us (vs ++ [d]) (by rw [h]; simp)
    have hlast : ∀ xs us, ys ++ [d] = xs ++ us → ¬Trap m B xs us :=
      fun xs us h => hno xs us [] (by rw [h, List.append_nil])
    rw [wrapDigits_append, longDigits_append, wrapRest_append, hdig, longRest_eq hB, Nat.zero_mul,
      Nat.zero_add, ← hW.rest]
    generalize (wrapRest m B 0 0 ys).1 = r at hW ⊢
    generalize (wrapRest m B 0 0 ys).2 = z at hW ⊢
    have hout : (wrapStep m B r z d).1 = (10*r+d)/B ∧
        Window m B (ys ++ [d]) (wrapStep m B r z d).2.1 (wrapStep m B r z d).2.2 := by
      rcases Nat.eq_zero_or_pos z with rfl | hz
      · by_cases h0 : r = 0 ∧ d = 0
        · obtain ⟨rfl,rfl⟩ := h0
          simpa [wrapStep] using hW.first hm (hne rfl)
        · simpa [wrapStep, h0] using hW.plain h0
      · rcases Nat.lt_or_ge z m with hzm | hzm
        · obtain ⟨hwB,hnext⟩ := hW.grow hlo hys hd hz hzm
          simpa [wrapStep, hz.ne', hzm, Nat.div_eq_of_lt hwB] using hnext
        · obtain rfl : z = m := le_antisymm hW.short hzm
          obtain ⟨hge,hnext⟩ := hW.full hm hlo hys hd hlast
          simpa [wrapStep, hz.ne', wrapped, not_lt.mpr hge] using hnext
    simpa [wrapDigits, wrapRest, longDigits, hout.1] using hout.2

/-- The digits are right up to the trap; there the window is the one the trap names. -/
theorem wrapRest_of_trap {xs u : List ℕ} {d : ℕ} (hm : 0 < m) (hlo : 10^(m-1) ≤ B)
    (hhi : B < 10^m) (hy : ∀ y ∈ xs ++ u ++ [d], y < 10) (hhead : (xs ++ u).head? ≠ some 0)
    (htrap : Trap m B xs (u ++ [d]))
    (hno : ∀ xs' us vs, xs ++ u = xs' ++ us ++ vs → ¬Trap m B xs' us) :
    wrapDigits m B 0 0 (xs ++ u) = longDigits 10 B 0 (xs ++ u) ∧
      wrapRest m B 0 0 (xs ++ u) = (value 10 u,m) := by
  obtain ⟨hne,hl,hdvd,hlt⟩ := htrap
  have hu : u.length = m := by simpa using hl
  have hune : u ≠ [] := List.ne_nil_of_length_pos (by omega)
  obtain ⟨hdig,hW⟩ :=
    wrapDigits_of_no_trap hm hlo (fun y h => hy y (List.mem_append_left _ h)) hhead hno
  refine ⟨hdig,?_⟩
  have hhead0 : u.head? = some 0 := by
    rw [← head_snoc hune d]
    refine head_of_value_lt (by simp) (hlt.trans_le ?_)
    rw [hl, Nat.add_sub_cancel]
    exact hhi.le
  have hz : (wrapRest m B 0 0 (xs ++ u)).2 = m := by
    refine le_antisymm hW.short (not_lt.mp fun hz => ?_)
    exact hW.clear xs u rfl hne (by omega) hu.le hdvd hhead0
  obtain ⟨ps,us,hsp,-,hus,-,-,hv⟩ := hW.led (by omega)
  obtain ⟨-,rfl⟩ := List.append_inj' hsp (by omega)
  exact Prod.ext hv.symm hz

theorem longDigits_mod {r : ℕ} (hr : r < B) {ds : List ℕ} (hd : ∀ d ∈ ds, d < 10) :
    (longDigits 10 B r ds).map (·%256) = longDigits 10 B r ds := by
  refine (List.map_congr_left fun q hq => ?_).trans (List.map_id _)
  exact Nat.mod_eq_of_lt ((longDigits_lt hr hd q hq).trans (by decide))

/-- Two different remainders show in the next `m` quotient digits. -/
theorem longDigits_ne {r r' : ℕ} (hhi : B < 10^m) (hr : r < B) (hr' : r' < B) (hne : r ≠ r')
    {vs : List ℕ} (hl : m ≤ vs.length) : longDigits 10 B r vs ≠ longDigits 10 B r' vs := by
  intro h
  have hv := congrArg (value 10) h
  rw [value_longDigits hr, value_longDigits hr'] at hv
  have hB : B ≤ 10^vs.length := hhi.le.trans (Nat.pow_le_pow_right (by decide) hl)
  have key {x y : ℕ} (hxy : x < y) :
      (x*10^vs.length+value 10 vs)/B < (y*10^vs.length+value 10 vs)/B := by
    have hstep : x*10^vs.length+value 10 vs+B ≤ y*10^vs.length+value 10 vs := by nlinarith
    have h1 := Nat.div_le_div_right (c := B) hstep
    rw [Nat.add_div_right _ (by omega)] at h1
    exact h1
  rcases Nat.lt_or_gt_of_ne hne with h | h
  · exact absurd hv (key h).ne
  · exact absurd hv (key h).ne'

/-- From a clean window with remainder `r'`, the digits agree modulo 256 with those from `w` only
if long division from both agrees, given that `r'` came about by a harmless wrap. -/
theorem wrapDigits_agree_iff {r' w : ℕ} (hm : 0 < m) (hlo : 10^(m-1) ≤ B) (hhi : B < 10^m)
    (hr' : r' < B) (hw : w < B) (hsame : r' = w → B ∣ 10^m) {vs : List ℕ}
    (hd : ∀ d ∈ vs, d < 10) :
    (wrapDigits m B r' 0 vs).map (·%256) = longDigits 10 B w vs ↔
      longDigits 10 B r' vs = longDigits 10 B w vs := by
  have quiet {ts : List ℕ} (ht : ∀ d ∈ ts, d < 10) (hl : ts.length ≤ m) :
      (wrapDigits m B r' 0 ts).map (·%256) = longDigits 10 B r' ts := by
    rw [wrapDigits_quiet hlo hr' (fun h => absurd h (lt_irrefl 0)) ht hl, longDigits_mod hr' ht]
  by_cases he : r' = w
  · rw [wrapDigits_of_dvd hm hlo (hsame he) hr' (Nat.zero_le m) (fun h => absurd h (lt_irrefl 0))
      hd]
  · rcases Nat.le_total vs.length m with hl | hl
    · rw [quiet hd hl]
    · refine iff_of_false (fun h => ?_) (longDigits_ne hhi hr' hw he hl)
      have hsplit := (List.take_append_drop m vs).symm
      have ht : (vs.take m).length = m := List.length_take_of_le hl
      rw [hsplit, wrapDigits_append, longDigits_append, List.map_append] at h
      have hpre := (List.append_inj h (by simp)).1
      rw [quiet (fun d hd' => hd d (List.mem_of_mem_take hd')) ht.le] at hpre
      exact longDigits_ne hhi hr' hw he ht.ge hpre

theorem modEq_iff_of_lt {x y k P : ℕ} (hx : x < P) (hy : y < P) :
    x+k*P ≡ y [MOD 256*P] ↔ k%256 = 0 ∧ x = y := by
  have hP : 0 < P := by omega
  have hleft : (x+k*P)%(256*P) = x+k%256*P := by
    rw [Nat.mul_comm 256 P, Nat.mod_mul, Nat.add_mul_mod_self_right, Nat.mod_eq_of_lt hx,
      Nat.add_mul_div_right _ _ hP, Nat.div_eq_of_lt hx, Nat.zero_add, Nat.mul_comm P]
  rw [Nat.ModEq, hleft, Nat.mod_eq_of_lt (by omega : y < 256*P)]
  constructor
  · intro h
    by_cases hk : k%256 = 0
    · exact ⟨hk,by simpa [hk] using h⟩
    · have := Nat.le_mul_of_pos_left P (Nat.pos_of_ne_zero hk)
      omega
  · rintro ⟨hk,hxy⟩
    simp [hk, hxy]

theorem harmless_iff {w : ℕ} {us vs : List ℕ} (hB : 0 < B) (hv : value 10 us = w) (hw : w < B)
    (hd : ∀ d ∈ vs, d < 10) :
    Harmless m B us vs ↔ (w+256*10^m)/B%256 = 0 ∧
      longDigits 10 B ((w+256*10^m)%B) vs = longDigits 10 B w vs := by
  have hr : (w+256*10^m)%B < B := Nat.mod_lt _ hB
  have hbound {r : ℕ} (h : r < B) : value 10 (longDigits 10 B r vs) < 10^vs.length := by
    have := value_lt (b := 10) (by decide) (longDigits_lt h hd)
    rwa [longDigits_length] at this
  have hnum : w*10^vs.length+value 10 vs+256*10^(m+vs.length) =
      ((w+256*10^m)%B*10^vs.length+value 10 vs)+B*((w+256*10^m)/B*10^vs.length) := by
    have hsplit := Nat.mod_add_div (w+256*10^m) B
    calc
      w*10^vs.length+value 10 vs+256*10^(m+vs.length) =
          (w+256*10^m)*10^vs.length+value 10 vs := by rw [pow_add]; ring
      _ = ((w+256*10^m)%B+B*((w+256*10^m)/B))*10^vs.length+value 10 vs := by rw [hsplit]
      _ = _ := by ring
  have hleft : (value 10 (us ++ vs)+256*10^(m+vs.length))/B =
      value 10 (longDigits 10 B ((w+256*10^m)%B) vs)+(w+256*10^m)/B*10^vs.length := by
    rw [value_append, hv, hnum, Nat.add_mul_div_left _ _ hB, value_longDigits hr]
  have hright : value 10 (us ++ vs)/B = value 10 (longDigits 10 B w vs) := by
    rw [value_append, hv, value_longDigits hw]
  have hsame : longDigits 10 B ((w+256*10^m)%B) vs = longDigits 10 B w vs ↔
      value 10 (longDigits 10 B ((w+256*10^m)%B) vs) = value 10 (longDigits 10 B w vs) :=
    ⟨congrArg _,value_injective (by decide) (by simp) (longDigits_lt hr hd) (longDigits_lt hw hd)⟩
  rw [Harmless, hleft, hright, hsame]
  rw [modEq_iff_of_lt (hbound hr) (hbound hw)]

/-- `us` is the first trap of the dividend, `xs` stands before and `vs` after it. -/
def FirstTrap (m B : ℕ) (as xs us vs : List ℕ) : Prop :=
  as = xs ++ us ++ vs ∧ Trap m B xs us ∧
    ∀ xs' us' vs', as = xs' ++ us' ++ vs' → Trap m B xs' us' → xs.length ≤ xs'.length

theorem exists_firstTrap {as xs us vs : List ℕ} (h : as = xs ++ us ++ vs) (ht : Trap m B xs us) :
    ∃ xs us vs, FirstTrap m B as xs us vs := by
  classical
  have hex : ∃ n, ∃ xs us vs, as = xs ++ us ++ vs ∧ Trap m B xs us ∧ xs.length = n :=
    ⟨xs.length,xs,us,vs,h,ht,rfl⟩
  obtain ⟨xs,us,vs,h,ht,hl⟩ := Nat.find_spec hex
  refine ⟨xs,us,vs,h,ht,fun xs' us' vs' h' ht' => ?_⟩
  rw [hl]
  exact Nat.find_min' hex ⟨xs',us',vs',h',ht',rfl⟩

theorem FirstTrap.unique {as xs us vs xs' us' vs' : List ℕ} (h : FirstTrap m B as xs us vs)
    (h' : FirstTrap m B as xs' us' vs') : us = us' ∧ vs = vs' := by
  have hx := le_antisymm (h.2.2 _ _ _ h'.1 h'.2.1) (h'.2.2 _ _ _ h.1 h.2.1)
  have hu : us.length = us'.length := h.2.1.2.1.trans h'.2.1.2.1.symm
  have heq := h.1.symm.trans h'.1
  obtain ⟨hxu,hv⟩ := List.append_inj heq (by simp [hx, hu])
  exact ⟨(List.append_inj hxu hx).2,hv⟩

/-- After an exact division the remainder is what the next digits denote. -/
theorem longRest_of_dvd {xs u : List ℕ} (hB : 0 < B) (hdvd : B ∣ value 10 xs)
    (hu : value 10 u < B) : longRest 10 B 0 (xs ++ u) = value 10 u := by
  obtain ⟨k,hk⟩ := hdvd
  rw [longRest_eq hB, Nat.zero_mul, Nat.zero_add, value_append, hk, Nat.mul_assoc,
    Nat.mul_add_mod, Nat.mod_eq_of_lt hu]

/-- At the first trap the digits go on as those of long division exactly if it is harmless. -/
theorem FirstTrap.digits_iff {as xs us vs : List ℕ} (hm : 0 < m) (hlo : 10^(m-1) ≤ B)
    (hhi : B < 10^m) (hd : ∀ d ∈ as, d < 10) (hhead : as.head? ≠ some 0)
    (h : FirstTrap m B as xs us vs) :
    (wrapDigits m B 0 0 as).map (·%256) = longDigits 10 B 0 as ↔ Harmless m B us vs := by
  have hB : 0 < B := (Nat.pow_pos (by decide)).trans_le hlo
  obtain ⟨rfl,htrap,hmin⟩ := h
  obtain ⟨u,d,rfl⟩ : ∃ u d, us = u ++ [d] := by
    have hne : us ≠ [] := List.ne_nil_of_length_pos (by rw [htrap.2.1]; omega)
    exact ⟨us.dropLast,us.getLast hne,(List.dropLast_append_getLast hne).symm⟩
  have hvs : ∀ y ∈ vs, y < 10 := fun y hy => hd y (by simp [hy])
  have hxu : ∀ y ∈ xs ++ u ++ [d], y < 10 := fun y hy => by
    refine hd y ?_
    rw [← List.append_assoc]
    exact List.mem_append_left _ hy
  have hhead' : (xs ++ u).head? ≠ some 0 := by
    obtain ⟨x,xs,rfl⟩ := List.exists_cons_of_ne_nil htrap.1
    simpa using hhead
  have hno : ∀ xs' us vs, xs ++ u = xs' ++ us ++ vs → ¬Trap m B xs' us := by
    intro xs' us' vs' h ht
    have hle := hmin xs' us' (vs' ++ [d] ++ vs) (by rw [← List.append_assoc xs, h]; simp) ht
    have hlen := congrArg List.length h
    have hul : u.length = m := by simpa using htrap.2.1
    simp only [List.length_append, ht.2.1] at hlen
    omega
  obtain ⟨hdig,hrest⟩ := wrapRest_of_trap hm hlo hhi hxu hhead' htrap hno
  have hw : 10*value 10 u+d < B := by
    rw [← value_snoc]
    exact htrap.2.2.2
  have htrue : longRest 10 B 0 (xs ++ u) = value 10 u :=
    longRest_of_dvd hB htrap.2.2.1 (by omega)
  have hstep : wrapStep m B (value 10 u) m d =
      ((10*value 10 u+d+256*10^m)/B,(10*value 10 u+d+256*10^m)%B,0) := by
    simp [wrapStep, wrapped, hm.ne', hw]
  have hlong : longDigits 10 B (value 10 u) (d::vs) =
      0::longDigits 10 B (10*value 10 u+d) vs := by
    rw [longDigits, Nat.div_eq_of_lt hw, Nat.mod_eq_of_lt hw]
  have has : xs ++ (u ++ [d]) ++ vs = (xs ++ u) ++ d::vs := by simp
  rw [has, wrapDigits_append, longDigits_append, hrest, htrue, hdig, hlong, List.map_append,
    longDigits_mod hB fun y hy => hxu y (List.mem_append_left _ hy),
    List.append_right_inj, wrapDigits, hstep, List.map_cons, List.cons_eq_cons,
    harmless_iff hB (value_snoc u d) hw hvs]
  apply and_congr_right
  intro hk
  refine wrapDigits_agree_iff hm hlo hhi (Nat.mod_lt _ hB) hw (fun he => ?_) hvs
  -- the wrap left the remainder as it was, so it took away a multiple of 256 divisors
  obtain ⟨c,hc⟩ : 256 ∣ (10*value 10 u+d+256*10^m)/B := Nat.dvd_of_mod_eq_zero hk
  have hsum := Nat.mod_add_div (10*value 10 u+d+256*10^m) B
  rw [he, hc] at hsum
  refine ⟨c,?_⟩
  have hc' : 256*10^m = 256*(B*c) := by linarith
  exact Nat.eq_of_mul_eq_mul_left (by decide) hc'

/-- The digits of the routine are those of long division exactly if the first trap, where there
is one, is harmless. -/
theorem wrapDigits_iff {as : List ℕ} (hm : 0 < m) (hlo : 10^(m-1) ≤ B) (hhi : B < 10^m)
    (hd : ∀ d ∈ as, d < 10) (hhead : as.head? ≠ some 0) :
    (wrapDigits m B 0 0 as).map (·%256) = longDigits 10 B 0 as ↔
      ∀ xs us vs, FirstTrap m B as xs us vs → Harmless m B us vs := by
  have hB : 0 < B := (Nat.pow_pos (by decide)).trans_le hlo
  by_cases hex : ∃ xs us vs, FirstTrap m B as xs us vs
  · obtain ⟨xs,us,vs,hfirst⟩ := hex
    rw [hfirst.digits_iff hm hlo hhi hd hhead]
    constructor
    · intro h xs' us' vs' h'
      obtain ⟨rfl,rfl⟩ := hfirst.unique h'
      exact h
    · exact fun h => h xs us vs hfirst
  · have hnone : ∀ xs us vs, as = xs ++ us ++ vs → ¬Trap m B xs us :=
      fun xs us vs h ht => hex (exists_firstTrap h ht)
    refine iff_of_true ?_ fun xs us vs h => absurd ⟨xs,us,vs,h⟩ hex
    rw [(wrapDigits_of_no_trap hm hlo hd hhead hnone).1, longDigits_mod hB hd]

end Divisor
end LibeventHttpd.MathCgi
