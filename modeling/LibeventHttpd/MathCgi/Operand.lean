import LibeventHttpd.CChar
import Mathlib.Data.List.TakeWhile

/-! Operands and results of the calculator as text: sign extraction, leading zeros and the
normalisation of a result. -/
namespace LibeventHttpd.MathCgi

/-- What a call of `ExtractData` leaves behind: the string it returns, the sign variable, and
the operand's own buffer, which is cut in place at the first character that is no digit. -/
structure Operand where
  data : List CChar
  sybom : CChar
  text : List CChar
  deriving DecidableEq

/-- `while(*data == '0') ++data;` -/
def skipZeros (data : List CChar) : List CChar := data.dropWhile (· = ch '0')

def extractData (data : List CChar) (sybom : CChar) : Operand :=
  let start : List CChar × CChar × Bool :=
    if sybom = ch '+' ∨ sybom = ch '-' then (data.tail,sybom,true)
    else if IsDigit (data.headD 0) then (data,ch '+',true)
    -- the pointer now leaves the operand's buffer
    else (cstr "0",sybom,false)
  let rest := skipZeros start.1
  let kept := rest.takeWhile (fun c => IsDigit c)
  { data := if kept = [] then cstr "0" else kept
    sybom := start.2.1
    text := if start.2.2 then data.take (data.length-rest.length) ++ kept else data }

def adjustmentData (data : List CChar) : List CChar :=
  let sybom := data.headD 0
  let rest := skipZeros (if sybom = ch '-' ∨ sybom = ch '+' then data.tail else data)
  if rest = [] then cstr "0"
  else if sybom = ch '-' then ch '-'::rest
  else rest

/-- A sign character in front of a magnitude. -/
def signed (sybom : CChar) (n : ℕ) : ℤ := if sybom = ch '-' then -n else n

@[simp] theorem signed_plus (n : ℕ) : signed (ch '+') n = n := rfl
@[simp] theorem signed_minus (n : ℕ) : signed (ch '-') n = -n := rfl

def IsSign (sybom : CChar) : Prop := sybom = ch '+' ∨ sybom = ch '-'

instance : DecidablePred IsSign := fun c => inferInstanceAs (Decidable (c = ch '+' ∨ c = ch '-'))

/-- The integer written as a sign character and at least one digit. -/
def readSigned : List CChar → Option ℤ
  | [] => none
  | s::ds => if IsSign s ∧ ds ≠ [] ∧ Digits ds then some (signed s (number ds)) else none

/-- The integer written as an optional sign and at least one digit. -/
def readInt (text : List CChar) : Option ℤ :=
  if text ≠ [] ∧ Digits text then some (number text) else readSigned text

/-- The sign the multiplication and the division give their result. -/
def productSign (sybom1 sybom2 : CChar) : CChar := if sybom1 = sybom2 then ch '+' else ch '-'

theorem isSign_productSign (s1 s2 : CChar) : IsSign (productSign s1 s2) := by
  unfold productSign
  split_ifs
  · exact .inl rfl
  · exact .inr rfl

theorem signed_mul {s1 s2 : CChar} (h1 : IsSign s1) (h2 : IsSign s2) (x y : ℕ) :
    signed s1 x*signed s2 y = signed (productSign s1 s2) (x*y) := by
  have hne : ch '+' ≠ ch '-' := by decide
  rcases h1 with rfl | rfl <;> rcases h2 with rfl | rfl <;>
    simp [productSign, signed, hne, hne.symm]

theorem signed_tdiv {s1 s2 : CChar} (h1 : IsSign s1) (h2 : IsSign s2) (x y : ℕ) :
    (signed s1 x).tdiv (signed s2 y) = signed (productSign s1 s2) (x/y) := by
  have hne : ch '+' ≠ ch '-' := by decide
  rcases h1 with rfl | rfl <;> rcases h2 with rfl | rfl <;>
    simp [productSign, signed, hne, hne.symm, Int.tdiv_eq_ediv_of_nonneg]

theorem signed_injective {s : CChar} {x y : ℕ} (h : signed s x = signed s y) : x = y := by
  unfold signed at h
  split_ifs at h <;> omega

theorem signed_natAbs {s : CChar} (n : ℕ) : (signed s n).natAbs = n := by
  unfold signed
  split_ifs
  · rw [Int.natAbs_neg, Int.natAbs_natCast]
  · rw [Int.natAbs_natCast]

theorem signed_opposite {s t : CChar} (hs : IsSign s) (ht : IsSign t) (h : s ≠ t) (n : ℕ) :
    signed t n = -signed s n := by
  rcases hs with rfl | rfl <;> rcases ht with rfl | rfl
  · exact absurd rfl h
  · rfl
  · rw [signed_minus, neg_neg, signed_plus]
  · exact absurd rfl h

theorem signed_add (s : CChar) (m n : ℕ) : signed s (m+n) = signed s m+signed s n := by
  unfold signed
  split_ifs <;> omega

theorem signed_sub {s : CChar} {m n : ℕ} (h : n ≤ m) :
    signed s (m-n) = signed s m-signed s n := by
  unfold signed
  split_ifs <;> omega

theorem readInt_sign {s : CChar} (hs : IsSign s) (ds : List CChar) :
    readInt (s::ds) = if ds ≠ [] ∧ Digits ds then some (signed s (number ds)) else none := by
  have hn : ¬ IsDigit s := by
    rcases hs with rfl | rfl
    · exact not_isDigit_plus
    · exact not_isDigit_minus
  simp [readInt, readSigned, hs, hn]

def numeralNat (n : ℕ) : List CChar :=
  if n = 0 then cstr "0" else (Nat.digits 10 n).reverse.map fun d : ℕ => digitChar d

/-- The canonical decimal numeral of an integer. -/
def numeral (z : ℤ) : List CChar :=
  if z < 0 then ch '-'::numeralNat z.natAbs else numeralNat z.natAbs

example : numeral (-120) = cstr "-120" := by decide +kernel

theorem skipZeros_eq (s : List CChar) :
    ∃ k, s = List.replicate k (ch '0') ++ skipZeros s := by
  induction s with
  | nil => exact ⟨0,rfl⟩
  | cons c s ih =>
    obtain ⟨k,hk⟩ := ih
    by_cases hc : c = ch '0'
    · refine ⟨k+1,?_⟩
      simp only [skipZeros, List.dropWhile_cons, hc, decide_true, if_true, List.replicate_succ,
        List.cons_append, List.cons.injEq, true_and]
      exact hk
    · exact ⟨0,by simp [skipZeros, hc]⟩

theorem skipZeros_head (s : List CChar) : (skipZeros s).head? ≠ some (ch '0') := by
  have h := List.head?_dropWhile_not (fun c => decide (c = ch '0')) s
  intro he
  unfold skipZeros at he
  rw [he] at h
  simp at h

theorem number_skipZeros (s : List CChar) : number (skipZeros s) = number s := by
  obtain ⟨k,hk⟩ := skipZeros_eq s
  conv_rhs => rw [hk, number_zeros_append]

theorem digits_skipZeros {s : List CChar} (h : Digits s) : Digits (skipZeros s) := by
  obtain ⟨k,hk⟩ := skipZeros_eq s
  rw [hk, digits_append] at h
  exact h.2

/-- Stripping leading zeros, with `"0"` for what has no other digit. -/
def strip (s : List CChar) : List CChar := if skipZeros s = [] then cstr "0" else skipZeros s

theorem canonical_strip {s : List CChar} (h : Digits s) : Canonical (strip s) := by
  unfold strip
  split_ifs with he
  · decide
  · exact ⟨digits_skipZeros h,he,fun h0 => absurd h0 (skipZeros_head s)⟩

theorem number_strip (s : List CChar) : number (strip s) = number s := by
  rw [← number_skipZeros s]
  unfold strip
  split_ifs with he
  · rw [he]; decide
  · rfl

theorem takeWhile_digits {s : List CChar} (h : Digits s) :
    s.takeWhile (fun c => IsDigit c) = s := by
  rw [List.takeWhile_eq_self_iff]
  exact fun c hc => decide_eq_true (h c hc)

theorem numeralNat_number {s : List CChar} (h : Canonical s) : numeralNat (number s) = s := by
  by_cases h0 : s = [ch '0']
  · subst h0; decide
  · have hpos := h.number_pos h0
    obtain ⟨c,t,rfl,hc,hc0,ht⟩ := h.exists_cons h0
    have hlast : ∀ hne, ((digitWord (c::t)).reverse).getLast hne ≠ 0 := by
      intro hne
      rw [List.getLast_reverse]
      exact (isDigit_pos hc hc0).ne'
    have hd := Nat.digits_ofDigits 10 (by decide) (digitWord (c::t)).reverse
      (by simpa using digitWord_lt h.1) hlast
    rw [numeralNat, if_neg hpos.ne', number, Positional.value, hd, List.reverse_reverse,
      digitWord, List.map_map]
    conv_rhs => rw [← List.map_id (c::t)]
    apply List.map_congr_left
    intro x hx
    have := (isDigit_iff x).mp (h.1 x hx)
    simp [Int.toNat_of_nonneg this.1]

theorem numeralNat_strip {s : List CChar} (h : Digits s) : numeralNat (number s) = strip s := by
  rw [← number_strip s, numeralNat_number (canonical_strip h)]

theorem adjustmentData_signed {s : CChar} {ds : List CChar} (hs : IsSign s) (hd : Digits ds) :
    adjustmentData (s::ds) = numeral (signed s (number ds)) := by
  have hn := numeralNat_strip hd
  have hz : skipZeros ds = [] ↔ number ds = 0 := by
    constructor
    · intro he
      rw [← number_skipZeros, he, number_nil]
    · intro h0
      by_contra hne
      have hp := (canonical_strip hd).number_pos (by
        intro he
        rw [strip, if_neg hne] at he
        exact skipZeros_head ds (by rw [he]; rfl))
      rw [number_strip, h0] at hp
      exact absurd hp (lt_irrefl 0)
  unfold strip at hn
  rcases hs with rfl | rfl
  · simp only [adjustmentData, List.headD_cons, or_true, if_true, List.tail_cons, numeral,
      signed_plus, Int.natAbs_natCast, hn]
    simp [show ch '+' ≠ ch '-' by decide]
  · simp only [adjustmentData, List.headD_cons, true_or, if_true, List.tail_cons, numeral,
      signed_minus, Int.natAbs_neg, Int.natAbs_natCast, hn]
    by_cases h0 : number ds = 0
    · simp [hz.mpr h0, h0]
    · simp [mt hz.mp h0, Nat.pos_of_ne_zero h0]

/-- The sign of an operand as it is written. -/
def writtenSign (text : List CChar) : CChar := if text.head? = some (ch '-') then ch '-' else ch '+'

theorem isSign_writtenSign (text : List CChar) : IsSign (writtenSign text) := by
  unfold writtenSign
  split_ifs
  · exact .inr rfl
  · exact .inl rfl

theorem readSigned_eq_some {text : List CChar} {z : ℤ} (h : readSigned text = some z) :
    ∃ s ds, text = s::ds ∧ IsSign s ∧ ds ≠ [] ∧ Digits ds ∧ z = signed s (number ds) := by
  cases text with
  | nil => simp [readSigned] at h
  | cons s ds =>
    simp only [readSigned] at h
    split_ifs at h with hc
    exact ⟨s,ds,rfl,hc.1,hc.2.1,hc.2.2,(Option.some.inj h).symm⟩

/-- The digits a string starts with. -/
def leadingDigits (s : List CChar) : List CChar := s.takeWhile fun c => IsDigit c

/-- The digits of an operand, behind its sign where it has one. -/
def operandDigits : List CChar → List CChar
  | [] => []
  | c::t => if IsSign c then leadingDigits t else leadingDigits (c::t)

/-- The longest prefix of an operand of the form optional sign and digits. -/
def signedPrefix : List CChar → List CChar
  | [] => []
  | c::t => if IsSign c then c::leadingDigits t else leadingDigits (c::t)

/-- An operand starts as a number does. -/
def StartsNumber (text : List CChar) : Prop := ∃ c ∈ text.head?, IsSign c ∨ IsDigit c

theorem digits_leadingDigits (s : List CChar) : Digits (leadingDigits s) := by
  intro c hc
  exact of_decide_eq_true (List.mem_takeWhile_imp (p := fun c => decide (IsDigit c)) hc)

theorem digits_operandDigits (text : List CChar) : Digits (operandDigits text) := by
  cases text with
  | nil => exact digits_nil
  | cons c t =>
    rw [operandDigits]
    split_ifs
    · exact digits_leadingDigits t
    · exact digits_leadingDigits (c::t)

theorem leadingDigits_eq_self {s : List CChar} (h : Digits s) : leadingDigits s = s :=
  takeWhile_digits h

theorem not_isDigit_of_isSign {s : CChar} (h : IsSign s) : ¬IsDigit s := by
  rcases h with rfl | rfl
  · exact not_isDigit_plus
  · exact not_isDigit_minus

/-- Zeros are digits: they may be skipped before or after cutting. -/
theorem leadingDigits_skipZeros (s : List CChar) :
    leadingDigits (skipZeros s) = skipZeros (leadingDigits s) := by
  induction s with
  | nil => rfl
  | cons c s ih =>
    by_cases h0 : c = ch '0'
    · subst h0
      exact ih
    · by_cases hc : IsDigit c <;> simp [skipZeros, leadingDigits, h0, hc]

/-- The buffer, cut at the first character that is no digit. -/
theorem take_leadingDigits (u s : List CChar) :
    (u ++ s).take ((u ++ s).length-(skipZeros s).length) ++ leadingDigits (skipZeros s) =
      u ++ leadingDigits s := by
  induction s generalizing u with
  | nil => simp [skipZeros, leadingDigits]
  | cons c s ih =>
    by_cases h0 : c = ch '0'
    · subst h0
      have hstep := ih (u ++ [ch '0'])
      rw [List.append_assoc, List.append_assoc, List.singleton_append, List.singleton_append]
        at hstep
      exact hstep
    · have hs : skipZeros (c::s) = c::s := by simp [skipZeros, h0]
      rw [hs, List.length_append, Nat.add_sub_cancel, List.take_left]

theorem extractData_sign {s : CChar} (hs : IsSign s) (t : List CChar) :
    extractData (s::t) s = ⟨strip (leadingDigits t),s,s::leadingDigits t⟩ := by
  have hs' : s = ch '+' ∨ s = ch '-' := hs
  have hbuffer := take_leadingDigits [s] t
  rw [List.singleton_append, List.singleton_append] at hbuffer
  rw [strip, ← leadingDigits_skipZeros, ← hbuffer]
  simp only [extractData, hs', if_true, List.tail_cons]
  rfl

theorem extractData_digit {c : CChar} (hc : IsDigit c) (t : List CChar) :
    extractData (c::t) c = ⟨strip (leadingDigits (c::t)),ch '+',leadingDigits (c::t)⟩ := by
  have hs : ¬(c = ch '+' ∨ c = ch '-') := fun hs => not_isDigit_of_isSign hs hc
  have hbuffer := take_leadingDigits [] (c::t)
  rw [List.nil_append, List.nil_append] at hbuffer
  rw [strip, ← leadingDigits_skipZeros]
  conv_rhs => rw [← hbuffer]
  simp only [extractData, hs, if_false, List.headD_cons, hc, if_true]
  rfl

/-- An operand that starts with another character counts as zero, and neither the sign variable
nor the buffer is touched. -/
theorem extractData_other {text : List CChar} (h : ¬StartsNumber text) :
    extractData text (text.headD 0) = ⟨cstr "0",text.headD 0,text⟩ := by
  have hhead : ¬(IsSign (text.headD 0) ∨ IsDigit (text.headD 0)) := by
    cases text with
    | nil => decide
    | cons c t => exact fun hc => h ⟨c,rfl,hc⟩
  obtain ⟨hs,hd⟩ := not_or.mp hhead
  have hs' : ¬(text.headD 0 = ch '+' ∨ text.headD 0 = ch '-') := hs
  simp only [extractData, hs', if_false, hd]
  rfl

/-- The magnitude is always the digits of the operand without their leading zeros. -/
theorem extractData_data (text : List CChar) :
    (extractData text (text.headD 0)).data = strip (operandDigits text) := by
  cases text with
  | nil => rfl
  | cons c t =>
    rw [operandDigits, List.headD_cons]
    by_cases hs : IsSign c
    · rw [extractData_sign hs, if_pos hs]
    · rw [if_neg hs]
      by_cases hd : IsDigit c
      · rw [extractData_digit hd]
      · have hstart : ¬StartsNumber (c::t) := by
          rintro ⟨d,hc,h⟩
          obtain rfl := Option.some.inj hc
          exact h.elim hs hd
        have hnone : leadingDigits (c::t) = [] := by simp [leadingDigits, hd]
        have hother := extractData_other hstart
        rw [List.headD_cons] at hother
        rw [hother, hnone]
        rfl

/-- What the written sign and the digits behind it denote; zero where there is no digit. -/
def leadingInt (text : List CChar) : ℤ := (readInt (signedPrefix text)).getD 0

/-- The pair `ExtractData` leaves is a normal form of the number the operand starts with. -/
def ExtractRight (text : List CChar) : Prop :=
  let o := extractData text (text.headD 0)
  Canonical o.data ∧ IsSign o.sybom ∧ signed o.sybom (number o.data) = leadingInt text

theorem writtenSign_sign {s : CChar} (hs : IsSign s) (t : List CChar) :
    writtenSign (s::t) = s := by
  rcases hs with rfl | rfl <;> rfl

theorem writtenSign_digit {c : CChar} (hc : IsDigit c) (t : List CChar) :
    writtenSign (c::t) = ch '+' := by
  have hm : c ≠ ch '-' := fun he => not_isDigit_minus (he ▸ hc)
  simp [writtenSign, hm]

theorem readInt_digits {s : List CChar} (h : Digits s) :
    (readInt s).getD 0 = number s := by
  cases s with
  | nil => rfl
  | cons c t => rw [readInt, if_pos ⟨List.cons_ne_nil c t,h⟩, Option.getD_some]

theorem leadingInt_eq (text : List CChar) :
    leadingInt text = signed (writtenSign text) (number (operandDigits text)) := by
  cases text with
  | nil => rfl
  | cons c t =>
    rw [leadingInt, signedPrefix, operandDigits]
    by_cases hs : IsSign c
    · rw [if_pos hs, if_pos hs, writtenSign_sign hs, readInt_sign hs]
      split_ifs with hd
      · rfl
      · have hnil : leadingDigits t = [] := by
          by_contra hne
          exact hd ⟨hne,digits_leadingDigits t⟩
        rw [hnil]
        unfold signed
        split_ifs <;> rfl
    · rw [if_neg hs, if_neg hs, readInt_digits (digits_leadingDigits _)]
      have hm : c ≠ ch '-' := fun he => hs (.inr he)
      simp [writtenSign, hm]

/-- The sign variable is set, to the written sign, exactly where the operand starts as a number
does. -/
theorem extractData_sybom {text : List CChar} (h : StartsNumber text) :
    (extractData text (text.headD 0)).sybom = writtenSign text := by
  obtain ⟨c,hc,hstart⟩ := h
  cases text with
  | nil => cases hc
  | cons d t =>
    obtain rfl := Option.some.inj hc
    rw [List.headD_cons]
    cases hstart with
    | inl hs => rw [extractData_sign hs, writtenSign_sign hs]
    | inr hd => rw [extractData_digit hd, writtenSign_digit hd]

/-- The normal form is reached exactly on operands that start with a sign or a digit: before any
other character the sign variable keeps that character. -/
theorem extractRight_iff (text : List CChar) : ExtractRight text ↔ StartsNumber text := by
  have hdata := extractData_data text
  constructor
  · rintro ⟨-,hs,-⟩
    by_contra hstart
    rw [extractData_other hstart] at hs
    cases text with
    | nil => exact absurd hs (by decide)
    | cons c t => exact hstart ⟨c,rfl,.inl hs⟩
  · intro hstart
    have hsybom := extractData_sybom hstart
    refine ⟨?_,?_,?_⟩
    · rw [hdata]
      exact canonical_strip (digits_operandDigits text)
    · rw [hsybom]
      exact isSign_writtenSign text
    · rw [hdata, hsybom, number_strip, leadingInt_eq]

/-- The sign of `abc` is left to be the character `a`. -/
theorem not_extractRight_abc : ¬ExtractRight (cstr "abc") := by
  rintro ⟨-,hs,-⟩
  exact absurd hs (by decide)

/-- On a well-formed operand `ExtractData` returns a canonical magnitude and the written
sign, and leaves the buffer as it was. -/
theorem extractData_of_readInt {text : List CChar} {z : ℤ} (h : readInt text = some z) :
    ∃ a, extractData text (text.headD 0) = ⟨a,writtenSign text,text⟩ ∧ Canonical a ∧
      z = signed (writtenSign text) (number a) := by
  unfold readInt at h
  split_ifs at h with hd
  · obtain ⟨hne,hd⟩ := hd
    obtain ⟨c,t,rfl⟩ := List.exists_cons_of_ne_nil hne
    have hc := ((digits_cons c t).mp hd).1
    refine ⟨strip (c::t),?_,canonical_strip hd,?_⟩
    · rw [List.headD_cons, extractData_digit hc, leadingDigits_eq_self hd, writtenSign_digit hc]
    · rw [writtenSign_digit hc, number_strip, ← Option.some.inj h]
      rfl
  · obtain ⟨s,ds,rfl,hs,-,hds,rfl⟩ := readSigned_eq_some h
    refine ⟨strip ds,?_,canonical_strip hds,by rw [writtenSign_sign hs, number_strip]⟩
    rw [List.headD_cons, extractData_sign hs, leadingDigits_eq_self hds, writtenSign_sign hs]

end LibeventHttpd.MathCgi
