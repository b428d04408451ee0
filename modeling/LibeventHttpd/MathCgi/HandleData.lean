import LibeventHttpd.MathCgi.Div

/-! The switch of `handle_data`: which routine computes the result of an operation on two
written operands, and what the result block then says. -/
namespace LibeventHttpd.MathCgi
open Cells

/-- `sybom = *val` and then `ExtractData(val, &sybom)`. -/
def extract (val : List CChar) : Operand := extractData val (val.headD 0)

/-- `case 'a'` -/
def caseAdd (o1 o2 : Operand) : Option (Block CChar) :=
  if o1.sybom = o2.sybom then add o1.data o2.data o1.sybom o2.sybom
  else sub o1.data o2.data o1.sybom o2.sybom

/-- `case 's'` -/
def caseSub (o1 o2 : Operand) : Option (Block CChar) :=
  if o1.sybom = o2.sybom then sub o1.data o2.data o1.sybom o2.sybom
  else add o1.data o2.data o1.sybom o2.sybom

/-- `res` after the switch on `op[0]`; `some none` is `NULL`. -/
def res (fuel : ℕ) (op : CChar) (val0 val1 : List CChar) : Option (Option (Block CChar)) :=
  let o1 := extract val0
  let o2 := extract val1
  if op = ch 'a' then (caseAdd o1 o2).map some
  else if op = ch 's' then (caseSub o1 o2).map some
  else if op = ch 'm' then (mul o1.data o2.data o1.sybom o2.sybom).map some
  else if op = ch 'd' then div fuel o1.data o2.data o1.sybom o2.sybom
  else some none

section Operands
variable {val0 val1 : List CChar} {x y : ℤ}

theorem readSigned_sign {s : CChar} {ds : List CChar} (hs : IsSign s) (hne : ds ≠ [])
    (hd : Digits ds) : readSigned (s::ds) = some (signed s (number ds)) :=
  if_pos ⟨hs,hne,hd⟩

/-- The block a routine of two magnitudes fills, read as a signed number. -/
theorem HoldsSigned.read {ret : Option (Block CChar)} {s : CChar} {len n : ℕ} (hs : IsSign s)
    (hpos : 0 < len) (h : HoldsSigned ret s len n) :
    ∃ text, ret = some (text.map some) ∧ readSigned text = some (signed s n) ∧
      adjustmentData text = numeral (signed s n) := by
  obtain ⟨ds,hret,hl,hd,rfl⟩ := h
  have hne : ds ≠ [] := List.ne_nil_of_length_pos (by omega)
  exact ⟨s::ds,hret,readSigned_sign hs hne hd,adjustmentData_signed hs hd⟩

/-- The addition is right whatever the signs and magnitudes. -/
theorem caseAdd_read (hx : readInt val0 = some x) (hy : readInt val1 = some y) :
    ∃ text, caseAdd (extract val0) (extract val1) = some (text.map some) ∧
      readSigned text = some (x+y) ∧ adjustmentData text = numeral (x+y) := by
  obtain ⟨a,hea,ha,rfl⟩ := extractData_of_readInt hx
  obtain ⟨b,heb,hb,rfl⟩ := extractData_of_readInt hy
  have hs := isSign_writtenSign val0
  have ht := isSign_writtenSign val1
  have hpos : 0 < max a.length b.length :=
    lt_max_of_lt_left (List.length_pos_of_ne_nil ha.2.1)
  rw [extract, extract, hea, heb, caseAdd]
  generalize writtenSign val0 = s at *
  generalize writtenSign val1 = t at *
  by_cases h : s = t
  · subst h
    rw [if_pos rfl, ← signed_add]
    exact (add_holds ha.1 hb.1 s s).read hs (by omega)
  · rw [if_neg h]
    have hsub := sub_holds ha hb s t
    split_ifs at hsub with hlt
    · have he : signed s (number a)+signed t (number b) = signed t (number b-number a) := by
        rw [signed_sub hlt.le, signed_opposite hs ht h (number a)]
        ring
      rw [he]
      exact hsub.read ht hpos
    · have he : signed s (number a)+signed t (number b) = signed s (number a-number b) := by
        rw [signed_sub (not_lt.mp hlt), signed_opposite hs ht h (number b)]
        ring
      rw [he]
      exact hsub.read hs hpos

/-- The subtraction case fills a block with the difference of the magnitudes under the written
sign of the larger one, or with their sum under the first sign. -/
theorem caseSub_read (hx : readInt val0 = some x) (hy : readInt val1 = some y) :
    ∃ text z, caseSub (extract val0) (extract val1) = some (text.map some) ∧
      readSigned text = some z ∧
      (z = x-y ↔ writtenSign val0 ≠ writtenSign val1 ∨ y.natAbs ≤ x.natAbs) := by
  obtain ⟨a,hea,ha,rfl⟩ := extractData_of_readInt hx
  obtain ⟨b,heb,hb,rfl⟩ := extractData_of_readInt hy
  have hs := isSign_writtenSign val0
  have ht := isSign_writtenSign val1
  have hpos : 0 < max a.length b.length :=
    lt_max_of_lt_left (List.length_pos_of_ne_nil ha.2.1)
  rw [extract, extract, hea, heb, caseSub, signed_natAbs, signed_natAbs]
  generalize writtenSign val0 = s at *
  generalize writtenSign val1 = t at *
  by_cases h : s = t
  · subst h
    rw [if_pos rfl]
    have hsub := sub_holds ha hb s s
    rw [ite_self] at hsub
    obtain ⟨text,hret,hread,-⟩ := hsub.read hs hpos
    refine ⟨text,_,hret,hread,?_⟩
    rw [or_iff_right (not_not.mpr rfl)]
    split_ifs with hlt
    · -- the sign of the larger operand is kept although it was subtracted
      rw [signed_sub hlt.le]
      refine iff_of_false (fun he => ?_) (by omega)
      have hne := mt (signed_injective (s := s)) hlt.ne
      omega
    · rw [signed_sub (not_lt.mp hlt)]
      exact iff_of_true rfl (not_lt.mp hlt)
  · rw [if_neg h]
    obtain ⟨text,hret,hread,-⟩ := (add_holds ha.1 hb.1 s t).read hs (by omega)
    refine ⟨text,_,hret,hread,iff_of_true ?_ (.inl h)⟩
    rw [signed_add, signed_opposite hs ht h]
    ring

end Operands

/-- The result of `'a'`, normalised, is the canonical numeral of the sum. -/
theorem res_add {val0 val1 : List CChar} {x y : ℤ} (hx : readInt val0 = some x)
    (hy : readInt val1 = some y) (fuel : ℕ) :
    ∃ text, res fuel (ch 'a') val0 val1 = some (some (text.map some)) ∧
      adjustmentData text = numeral (x+y) := by
  obtain ⟨text,hret,-,hadj⟩ := caseAdd_read hx hy
  refine ⟨text,?_,hadj⟩
  rw [res, if_pos rfl, hret]
  rfl

theorem res_add_120 : ∃ text,
    res 0 (ch 'a') (cstr "-0125") (cstr "+5") = some (some (text.map some)) ∧
      adjustmentData text = numeral (-125+5) :=
  res_add rfl rfl 0

/-- The result block of `'s'`, read over its whole size, is the difference. -/
def SubRight (val0 val1 : List CChar) (z : ℤ) : Prop :=
  ∃ text, (∀ fuel, res fuel (ch 's') val0 val1 = some (some (text.map some))) ∧
    readSigned text = some z

/-- `'s'` gives the difference unless both operands have one sign and the second is larger. -/
theorem subRight_iff {val0 val1 : List CChar} {x y : ℤ} (hx : readInt val0 = some x)
    (hy : readInt val1 = some y) :
    SubRight val0 val1 (x-y) ↔ writtenSign val0 ≠ writtenSign val1 ∨ y.natAbs ≤ x.natAbs := by
  obtain ⟨text,z,hret,hread,hz⟩ := caseSub_read hx hy
  have hrun (fuel : ℕ) : res fuel (ch 's') val0 val1 = some (some (text.map some)) := by
    rw [res, if_neg (by decide), if_pos rfl, hret]
    rfl
  rw [← hz]
  constructor
  · rintro ⟨text',hrun',hread'⟩
    have hsame := (hrun 0).symm.trans (hrun' 0)
    have hmap := Option.some.inj (Option.some.inj hsame)
    rw [List.map_injective_iff.mpr (Option.some_injective _) hmap, hread'] at hread
    exact (Option.some.inj hread).symm
  · rintro rfl
    exact ⟨text,hrun,hread⟩

theorem subRight_5_3 : SubRight (cstr "5") (cstr "3") (5-3) :=
  (subRight_iff rfl rfl).mpr (.inr (by decide))

/-- 3-5 comes out as `+2`. -/
theorem not_subRight_3_5 : ¬SubRight (cstr "3") (cstr "5") (3-5) := by
  rintro ⟨text,hrun,hread⟩
  have h0 : res 0 (ch 's') (cstr "3") (cstr "5") = some (some ((cstr "+2").map some)) := by decide
  have hmap := Option.some.inj (Option.some.inj (h0.symm.trans (hrun 0)))
  rw [← List.map_injective_iff.mpr (Option.some_injective _) hmap] at hread
  exact absurd hread (by decide)

end LibeventHttpd.MathCgi
