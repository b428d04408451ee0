import LibeventHttpd.Library.Positional
import Mathlib.Algebra.BigOperators.Ring.Finset
import Mathlib.Data.List.GetD

/-! C `char` values, digit characters and the string functions of the C library that the
server and its programs use. A C string is the list of its characters without the NUL. -/
namespace LibeventHttpd

/-- `char` is 8-bit and signed; arithmetic is done in `int` and wraps when stored back. -/
abbrev CChar := Int8

/-- The code of an ASCII character literal. -/
def ch (c : Char) : CChar := Int8.ofNat c.toNat

/-- The characters of an ASCII string literal. -/
def cstr (s : String) : List CChar := s.toList.map ch

-- what holds of all characters in a string is tested on the string, not on all characters
instance (p : CChar → Prop) [DecidablePred p] (s : List CChar) : Decidable (∀ c ∈ s, p c) :=
  List.decidableBAll p s

instance (p : CChar → Prop) [DecidablePred p] (o : Option CChar) : Decidable (∀ c ∈ o, p c) :=
  Option.decidableForallMem o

/-- `c - '0'` as the code computes it, in `int`. -/
def digit (c : CChar) : ℤ := c.toInt-48

/-- `d + '0'` stored into a `char`. -/
def digitChar (d : ℤ) : CChar := Int8.ofInt (d+48)

/-- `c >= '0' && c <= '9'` -/
def IsDigit (c : CChar) : Prop := ch '0' ≤ c ∧ c ≤ ch '9'

instance : DecidablePred IsDigit := fun c => inferInstanceAs (Decidable (ch '0' ≤ c ∧ c ≤ ch '9'))

def Digits (s : List CChar) : Prop := ∀ c ∈ s, IsDigit c

instance (s : List CChar) : Decidable (Digits s) :=
  inferInstanceAs (Decidable (∀ c ∈ s, IsDigit c))

@[simp] theorem digits_nil : Digits [] := fun _ h => by simp at h

@[simp] theorem digits_cons (c : CChar) (s : List CChar) :
    Digits (c::s) ↔ IsDigit c ∧ Digits s := by simp [Digits]

@[simp] theorem digits_append (s t : List CChar) : Digits (s ++ t) ↔ Digits s ∧ Digits t := by
  simp [Digits, or_imp, forall_and]

theorem ch_zero_toInt : (ch '0').toInt = 48 := by decide
theorem ch_nine_toInt : (ch '9').toInt = 57 := by decide

theorem isDigit_iff (c : CChar) : IsDigit c ↔ 0 ≤ digit c ∧ digit c < 10 := by
  simp only [IsDigit, Int8.le_iff_toInt_le, ch_zero_toInt, ch_nine_toInt, digit]
  omega

theorem digit_injective {c d : CChar} (h : digit c = digit d) : c = d :=
  Int8.toInt_inj.mp (by simpa [digit] using h)

@[simp] theorem digitChar_digit (c : CChar) : digitChar (digit c) = c := by
  simp [digitChar, digit]

/-- Storing a small number as a character and reading it back loses nothing. -/
theorem digit_digitChar {d : ℤ} (hl : -176 ≤ d) (hu : d < 80) : digit (digitChar d) = d := by
  rw [digit, digitChar, Int8.toInt_ofInt_of_le (by omega) (by omega)]
  omega

theorem isDigit_digitChar {d : ℤ} (hl : 0 ≤ d) (hu : d < 10) : IsDigit (digitChar d) := by
  rw [isDigit_iff, digit_digitChar (by omega) (by omega)]
  exact ⟨hl,hu⟩

@[simp] theorem digit_ch_zero : digit (ch '0') = 0 := by decide
@[simp] theorem isDigit_ch_zero : IsDigit (ch '0') := by decide
theorem digitChar_zero : digitChar 0 = ch '0' := by decide

theorem digit_eq_zero {c : CChar} : digit c = 0 ↔ c = ch '0' :=
  ⟨fun h => digit_injective (h.trans digit_ch_zero.symm), fun h => h ▸ digit_ch_zero⟩

theorem not_isDigit_plus : ¬ IsDigit (ch '+') := by decide
theorem not_isDigit_minus : ¬ IsDigit (ch '-') := by decide

/-- The digit word of a string of digit characters. -/
def digitWord (s : List CChar) : List ℕ := s.map fun c => (digit c).toNat

/-- The number a string of digit characters denotes. -/
def number (s : List CChar) : ℕ := Positional.value 10 (digitWord s)

@[simp] theorem number_nil : number [] = 0 := rfl

theorem digitWord_lt {s : List CChar} (h : Digits s) : ∀ d ∈ digitWord s, d < 10 := by
  intro d hd
  obtain ⟨c,hc,rfl⟩ := List.mem_map.mp hd
  have := (isDigit_iff c).mp (h c hc)
  omega

theorem number_cons (c : CChar) (s : List CChar) :
    number (c::s) = (digit c).toNat*10^s.length + number s := by
  simp [number, digitWord, Positional.value_cons]

theorem number_cons_lt {c d : CChar} {s t : List CChar} (hl : s.length = t.length) (hs : Digits s)
    (h : (digit c).toNat < (digit d).toNat) : number (c::s) < number (d::t) :=
  Positional.value_cons_lt (by decide) (by simpa [digitWord] using hl) (digitWord_lt hs) h

theorem number_snoc (s : List CChar) (c : CChar) :
    number (s ++ [c]) = 10*number s + (digit c).toNat := by
  simp [number, digitWord, Positional.value_snoc]

theorem number_lt {s : List CChar} (h : Digits s) : number s < 10^s.length := by
  simpa [number, digitWord] using Positional.value_lt (by decide) (digitWord_lt h)

theorem number_zeros_append (n : ℕ) (s : List CChar) :
    number (List.replicate n (ch '0') ++ s) = number s := by
  simp [number, digitWord, Positional.value_zero_append]

theorem number_injective {s t : List CChar} (hl : s.length = t.length) (hs : Digits s)
    (ht : Digits t) (h : number s = number t) : s = t := by
  have hw := Positional.value_injective (by decide) (by simpa [digitWord] using hl)
    (digitWord_lt hs) (digitWord_lt ht) h
  refine List.ext_getElem hl fun i hi hi' => digit_injective ?_
  have he : (digit s[i]).toNat = (digit t[i]).toNat := by
    have := congrArg (fun w : List ℕ => w[i]?) hw
    simpa [digitWord, hi, hi'] using this
  have h1 := (isDigit_iff _).mp (hs _ (List.getElem_mem hi))
  have h2 := (isDigit_iff _).mp (ht _ (List.getElem_mem hi'))
  omega

theorem isDigit_pos {c : CChar} (h : IsDigit c) (hc : c ≠ ch '0') : 0 < (digit c).toNat := by
  have h1 := (isDigit_iff c).mp h
  have h2 := mt digit_eq_zero.mp hc
  omega

/-- A digit string without a leading zero is at least the power of ten of its tail. -/
theorem pow_le_number {c : CChar} {s : List CChar} (h : IsDigit c) (hc : c ≠ ch '0') :
    10^s.length ≤ number (c::s) := by
  have hp : 10^(digitWord s).length ≤ Positional.value 10 ((digit c).toNat::digitWord s) :=
    Positional.pow_le_value (isDigit_pos h hc)
  simpa [number, digitWord] using hp

/-- A canonical digit string: not empty and without a leading zero unless it is `"0"`. -/
def Canonical (s : List CChar) : Prop :=
  Digits s ∧ s ≠ [] ∧ (s.head? = some (ch '0') → s = [ch '0'])

instance (s : List CChar) : Decidable (Canonical s) :=
  inferInstanceAs (Decidable (Digits s ∧ s ≠ [] ∧ (s.head? = some (ch '0') → s = [ch '0'])))

/-- A canonical string other than `"0"` starts with a nonzero digit. -/
theorem Canonical.exists_cons {s : List CChar} (h : Canonical s) (h0 : s ≠ [ch '0']) :
    ∃ c t, s = c::t ∧ IsDigit c ∧ c ≠ ch '0' ∧ Digits t := by
  obtain ⟨hd,hne,hz⟩ := h
  cases s with
  | nil => exact absurd rfl hne
  | cons c t =>
    rw [digits_cons] at hd
    exact ⟨c,t,rfl,hd.1,fun hc => h0 (hz (by simp [hc])),hd.2⟩

theorem Canonical.pow_le {s : List CChar} (h : Canonical s) (h0 : s ≠ [ch '0']) :
    10^(s.length-1) ≤ number s := by
  obtain ⟨c,t,rfl,hc,hc0,-⟩ := h.exists_cons h0
  simpa using pow_le_number hc hc0

theorem Canonical.number_pos {s : List CChar} (h : Canonical s) (h0 : s ≠ [ch '0']) :
    0 < number s := (Nat.pow_pos (by decide)).trans_le (h.pow_le h0)

/-- The digit of place `i` counted from the right, zero beyond the left end. -/
def digitAt (s : List CChar) (i : ℕ) : ℤ := digit (s.reverse.getD i (ch '0'))

theorem digitAt_of_length_le {s : List CChar} {i : ℕ} (h : s.length ≤ i) : digitAt s i = 0 := by
  simp [digitAt, List.getD_eq_getElem?_getD, h]

theorem digitAt_bounds {s : List CChar} (h : Digits s) (i : ℕ) :
    0 ≤ digitAt s i ∧ digitAt s i ≤ 9 := by
  rcases lt_or_ge i s.length with hi | hi
  · have hm : s.reverse.getD i (ch '0') ∈ s := by
      rw [List.getD_eq_getElem _ _ (by simpa using hi), ← List.mem_reverse]
      exact List.getElem_mem _
    have := (isDigit_iff _).mp (h _ hm)
    unfold digitAt
    omega
  · rw [digitAt_of_length_le hi]
    omega

/-- Reading `data[size-index]` with `index = i+1`. -/
theorem getElem?_sub_succ {s : List CChar} {i : ℕ} (hi : i < s.length) :
    s[s.length-(i+1)]? = some (s.reverse.getD i (ch '0')) := by
  rw [List.getD_eq_getElem _ _ (by simpa using hi), List.getElem_reverse]
  rw [List.getElem?_eq_getElem (by omega)]
  congr 2
  omega

open scoped BigOperators in
theorem number_eq_sum {s : List CChar} (h : Digits s) {n : ℕ} (hn : s.length ≤ n) :
    (number s : ℤ) = ∑ i ∈ Finset.range n, digitAt s i*10^i := by
  have hs : digitWord s = Positional.fromRight (fun i => (digitAt s i).toNat) s.length := by
    conv_lhs => rw [digitWord, Positional.eq_fromRight s (ch '0')]
    rw [Positional.fromRight_map]
    rfl
  rw [number, hs, Positional.value_fromRight]
  push_cast
  have hsub : Finset.range s.length ⊆ Finset.range n := Finset.range_subset_range.mpr hn
  have hz : ∀ i ∈ Finset.range n, i ∉ Finset.range s.length → digitAt s i*(10 : ℤ)^i = 0 := by
    intro i _ hi
    rw [digitAt_of_length_le (not_lt.mp (mt Finset.mem_range.mpr hi)), zero_mul]
  rw [← Finset.sum_subset hsub hz]
  apply Finset.sum_congr rfl
  intro i _
  rw [Int.toNat_of_nonneg (digitAt_bounds h i).1]

theorem digits_fromRight {g : ℕ → ℤ} (h0 : ∀ i, 0 ≤ g i) (h9 : ∀ i, g i < 10) (n : ℕ) :
    Digits (Positional.fromRight (fun i => digitChar (g i)) n) := by
  intro c hc
  obtain ⟨i,-,rfl⟩ := Positional.mem_fromRight.mp hc
  exact isDigit_digitChar (h0 i) (h9 i)

open scoped BigOperators in
theorem number_fromRight {g : ℕ → ℤ} (h0 : ∀ i, 0 ≤ g i) (h9 : ∀ i, g i < 10) (n : ℕ) :
    (number (Positional.fromRight (fun i => digitChar (g i)) n) : ℤ) =
      ∑ i ∈ Finset.range n, g i*10^i := by
  rw [number, digitWord, Positional.fromRight_map, Positional.value_fromRight]
  push_cast
  apply Finset.sum_congr rfl
  intro i _
  have h1 := h0 i
  have h2 := h9 i
  rw [digit_digitChar (by omega) (by omega), Int.toNat_of_nonneg h1]

/-- `isspace` in the C locale. -/
def IsSpace (c : CChar) : Prop := c = ch ' ' ∨ ch '\t' ≤ c ∧ c ≤ ch '\r'

instance : DecidablePred IsSpace :=
  fun c => inferInstanceAs (Decidable (c = ch ' ' ∨ ch '\t' ≤ c ∧ c ≤ ch '\r'))

theorem not_isSpace_of_isDigit {c : CChar} (h : IsDigit c) : ¬IsSpace c := by
  obtain ⟨h0,-⟩ := (isDigit_iff c).mp h
  rintro (rfl | ⟨-,hs⟩)
  · exact absurd h (by decide)
  · rw [Int8.le_iff_toInt_le] at hs
    have hr : (ch '\r').toInt = 13 := by decide
    unfold digit at h0
    omega

/-- `strtol` saturates at the bounds of `long`, and `atoi` keeps the low 32 bits of the result. -/
def atoi (s : List CChar) : ℤ :=
  let s := s.dropWhile (fun c => IsSpace c)
  let digits := if s.head? = some (ch '-') ∨ s.head? = some (ch '+') then s.tail else s
  let n : ℤ := number (digits.takeWhile (fun c => IsDigit c))
  let long := if s.head? = some (ch '-') then max (-n) (-2^63) else min n (2^63-1)
  long.bmod (2^32)

/-- The value of a character as `unsigned char`, which is what `strcmp` compares. -/
def uchar (c : CChar) : ℤ := c.toInt%256

/-- The end of a list stands for the terminating NUL. -/
def strncmp : ℕ → List CChar → List CChar → ℤ
  | 0,_,_ => 0
  | n+1,s,t =>
    let c := s.headD 0
    let d := t.headD 0
    if c = d then (if c = 0 then 0 else strncmp n s.tail t.tail) else uchar c-uchar d

def strcmp (s t : List CChar) : ℤ := strncmp (s.length+1) s t

theorem strncmp_cons (n : ℕ) (c d : CChar) (s t : List CChar) :
    strncmp (n+1) (c::s) (d::t) =
      if c = d then (if c = 0 then 0 else strncmp n s t) else uchar c-uchar d := rfl

theorem uchar_of_isDigit {c : CChar} (h : IsDigit c) : uchar c = digit c+48 := by
  have := (isDigit_iff c).mp h
  unfold uchar digit at *
  omega

theorem isDigit_ne_nul {c : CChar} (h : IsDigit c) : c ≠ 0 := by
  rintro rfl
  exact absurd h (by decide)

/-- On digit strings of one length the comparison is the numeric one, provided that what
follows them does not compare as different. -/
theorem strncmp_digits {s t u v : List CChar} {k : ℕ} (hl : s.length = t.length) (hs : Digits s)
    (ht : Digits t) (hk : s.length ≤ k) (hr : strncmp (k-s.length) u v = 0) :
    strncmp k (s ++ u) (t ++ v) < 0 ↔ number s < number t := by
  induction s generalizing t k with
  | nil =>
    obtain rfl := List.length_eq_zero_iff.mp hl.symm
    simp only [List.nil_append, List.length_nil, Nat.sub_zero] at hr ⊢
    simp [hr]
  | cons c s ih =>
    cases t with
    | nil => simp at hl
    | cons d t =>
      obtain ⟨hc,hs⟩ := (digits_cons c s).mp hs
      obtain ⟨hd,ht⟩ := (digits_cons d t).mp ht
      simp only [List.length_cons, Nat.add_right_cancel_iff] at hl
      obtain ⟨k,rfl⟩ : ∃ m, k = m+1 := ⟨k-1,by simp at hk; omega⟩
      simp only [List.length_cons, Nat.add_le_add_iff_right, Nat.add_sub_add_right] at hk hr
      have hstep := ih hl hs ht hk hr
      simp only [List.cons_append, strncmp_cons]
      split_ifs with hcd hc0
      · exact absurd hc0 (isDigit_ne_nul hc)
      · subst hcd
        rw [hstep, number_cons, number_cons, hl]
        omega
      · have hc' := (isDigit_iff c).mp hc
        have hd' := (isDigit_iff d).mp hd
        have hne := mt digit_injective hcd
        rw [uchar_of_isDigit hc, uchar_of_isDigit hd]
        constructor
        · intro h
          exact number_cons_lt hl hs (by omega)
        · intro h
          by_contra hge
          exact Nat.lt_asymm h (number_cons_lt hl.symm ht (by omega))

theorem strcmp_digits {s t : List CChar} (hl : s.length = t.length) (hs : Digits s)
    (ht : Digits t) : strcmp s t < 0 ↔ number s < number t := by
  have h := strncmp_digits (u := []) (v := []) (k := s.length+1) hl hs ht (by omega)
    (by simp [strncmp])
  simpa [strcmp] using h

theorem uchar_injective {c d : CChar} (h : uchar c = uchar d) : c = d := by
  have h1 := c.toInt_lt
  have h2 := c.le_toInt
  have h3 := d.toInt_lt
  have h4 := d.le_toInt
  refine Int8.toInt_inj.mp ?_
  unfold uchar at h
  omega

/-- `strncmp` returns zero exactly on strings that agree on their first `n` characters. -/
theorem strncmp_eq_zero {s t : List CChar} (hs : 0 ∉ s) (ht : 0 ∉ t) {n : ℕ} :
    strncmp n s t = 0 ↔ s.take n = t.take n := by
  have hu {c d : CChar} (h : c ≠ d) : uchar c-uchar d ≠ 0 :=
    fun he => h (uchar_injective (by omega))
  induction n generalizing s t with
  | zero => simp [strncmp]
  | succ n ih =>
    cases s with
    | nil =>
      cases t with
      | nil => simp [strncmp]
      | cons d t =>
        simp only [List.mem_cons, not_or] at ht
        simpa [strncmp, ht.1] using hu ht.1
    | cons c s =>
      simp only [List.mem_cons, not_or] at hs
      cases t with
      | nil => simpa [strncmp, Ne.symm hs.1] using hu (Ne.symm hs.1)
      | cons d t =>
        simp only [List.mem_cons, not_or] at ht
        simp only [strncmp_cons, List.take_succ_cons, List.cons.injEq]
        split_ifs with hcd hc0
        · exact absurd hc0.symm hs.1
        · exact (ih hs.2 ht.2).trans (by simp [hcd])
        · simp [hu hcd, hcd]

theorem strcmp_eq_zero {s t : List CChar} (hs : 0 ∉ s) (ht : 0 ∉ t) : strcmp s t = 0 ↔ s = t := by
  rw [strcmp, strncmp_eq_zero hs ht, List.take_of_length_le (Nat.le_succ _)]
  constructor
  · intro h
    have hl := congrArg List.length h
    rw [List.length_take] at hl
    rwa [List.take_of_length_le (by omega)] at h
  · rintro rfl
    exact (List.take_of_length_le (Nat.le_succ _)).symm

theorem nul_notMem_of_digits {s : List CChar} (h : Digits s) : 0 ∉ s :=
  fun h0 => isDigit_ne_nul (h 0 h0) rfl

/-- The test for the operand `"0"`. -/
theorem strcmp_zero_iff {s : List CChar} (h : Digits s) :
    strcmp s (cstr "0") = 0 ↔ s = [ch '0'] :=
  strcmp_eq_zero (nul_notMem_of_digits h) (by decide)

/-- `tolower` in the C locale. -/
def tolower (c : CChar) : CChar := if ch 'A' ≤ c ∧ c ≤ ch 'Z' then c+32 else c

/-- `strcasecmp(s, t) == 0` -/
def strcaseeq (s t : List CChar) : Bool := s.map tolower = t.map tolower

theorem strcaseeq_self (s : List CChar) : strcaseeq s s = true := decide_eq_true rfl

theorem strcaseeq_length {s t : List CChar} (h : strcaseeq s t = true) : s.length = t.length := by
  have hl := congrArg List.length (decide_eq_true_iff.mp h)
  rwa [List.length_map, List.length_map] at hl

theorem post_ne_get {m : List CChar} (h : strcaseeq m (cstr "GET") = true) :
    strcaseeq m (cstr "POST") = false := by
  apply Bool.eq_false_of_not_eq_true
  intro hpost
  exact absurd ((strcaseeq_length hpost).symm.trans (strcaseeq_length h)) (by decide)

end LibeventHttpd
