import LibeventHttpd.MathCgi.HandleData

/-! The blocks of the calculator's routines: what is written to them, and what `AdjustmentData`
reads of the one it is given. -/
namespace LibeventHttpd.MathCgi
open Cells

/-- `strcpy` into a block from cell `i` on, the NUL included. -/
def strcpyFrom (block : Block CChar) (i : ℕ) : List CChar → Option (Block CChar)
  | [] => put block i 0
  | c::s => do strcpyFrom (← put block i c) (i+1) s

/-- A copy of an operand in a block of its own. -/
def copy (size : ℤ) (data : List CChar) : Option (List CChar) := do
  let block ← malloc size
  contents (← strcpyFrom block 0 data)

/-- `DIV` with the blocks of its two copies, which have `room` cells more than the operands have
characters. The code leaves them no room. -/
def divCopied (room fuel : ℕ) (data1 data2 : List CChar) (sybom1 sybom2 : CChar) :
    Option (Option (Block CChar)) :=
  if strcmp data2 (cstr "0") = 0 then some none
  else if isSmaller data1 data2 then do
    let ret ← malloc 1
    return some (← put ret 0 (ch '0'))
  else do
    let retlen := toInt (data1.length+1)
    let ret ← malloc retlen
    let ret ← fill ret (ch '0') retlen.toNat
    let ret ← put ret 0 (productSign sybom1 sybom2)
    let pleft ← copy (data1.length+room) data1
    let pright ← copy (data2.length+room) data2
    let ret ← divLoop pright data1.length data2.length fuel ⟨ret,pleft,0,1⟩
    return some ret

/-- How many cells show `'0'` before the first that does not, which is read too. -/
def zerosFrom : Block CChar → Option ℕ
  | [] => none
  | cell::cells => do
    if (← cell) = ch '0' then return (← zerosFrom cells)+1 else return 0

/-- `AdjustmentData` from the test for the NUL on: the block and where the text starts in it;
`some none` is the constant `"0"`. -/
def adjustAt (sybom : CChar) (block : Block CChar) (data : ℕ) :
    Option (Option (Block CChar × ℕ)) := do
  if (← load block data) = 0 then return none
  else if sybom = ch '-' then
    let block ← put block ((data : ℤ)-1) (ch '-')
    return some (block,data-1)
  else return some (block,data)

/-- `AdjustmentData` on a block. -/
def adjustBlock (block : Block CChar) : Option (Option (Block CChar × ℕ)) := do
  let sybom ← load block 0
  let data := if sybom = ch '-' ∨ sybom = ch '+' then 1 else 0
  let data := data+(← zerosFrom (block.drop data))
  adjustAt sybom block data

/-- The string at a pointer that `AdjustmentData` returns. -/
def adjustedText : Option (Block CChar × ℕ) → Block CChar
  | none => (cstr "0").map some
  | some (block,start) => (block.drop start).takeWhile (· ≠ some 0)

inductive Routine where
  | add
  | sub
  | mul
  | div
  deriving DecidableEq

def Routine.run (fuel : ℕ) (data1 data2 : List CChar) (sybom1 sybom2 : CChar) :
    Routine → Option (Option (Block CChar))
  | add => (MathCgi.add data1 data2 sybom1 sybom2).map some
  | sub => (MathCgi.sub data1 data2 sybom1 sybom2).map some
  | mul => (MathCgi.mul data1 data2 sybom1 sybom2).map some
  | div => divCopied 0 fuel data1 data2 sybom1 sybom2

/-- All accesses of a routine to its blocks and of `AdjustmentData` to the one returned are
inside, and that block holds a NUL. -/
def KeepsBlocks (r : Routine) (data1 data2 : List CChar) (sybom1 sybom2 : CChar) : Prop :=
  ∃ enough, ∀ fuel ≥ enough, ∃ ret, r.run fuel data1 data2 sybom1 sybom2 = some ret ∧
    ∀ block ∈ ret, (adjustBlock block).isSome ∧ some 0 ∈ block

section Copies

theorem strcpyFrom_eq (data done : List CChar) (free : ℕ) :
    strcpyFrom (done.map some ++ List.replicate free none) done.length data =
      if data.length < free then some ((done ++ (data ++ [0])).map some ++
        List.replicate (free-(data.length+1)) none) else none := by
  have hput (done : List CChar) (free : ℕ) (c : CChar) :
      put (done.map some ++ List.replicate (free+1) none) done.length c =
        some ((done ++ [c]).map some ++ List.replicate free none) := by
    rw [put, List.replicate_succ, store_append _ (by simp)]
    simp
  have hfull (done : List CChar) (c : CChar) :
      put (done.map some ++ List.replicate 0 none) done.length c = none := by
    simp [put, store]
  induction data generalizing done free with
  | nil =>
    cases free with
    | zero => exact hfull done 0
    | succ free => exact (hput done free 0).trans (by simp)
  | cons c data ih =>
    cases free with
    | zero =>
      rw [strcpyFrom, hfull]
      rfl
    | succ free =>
      have hnext := ih (done ++ [c]) free
      rw [List.length_append, List.length_singleton, List.append_assoc] at hnext
      rw [strcpyFrom, hput, Option.bind_eq_bind, Option.bind_some, hnext]
      simp

variable {data : List CChar}

/-- A copy succeeds in a block with a cell for the NUL. -/
theorem copy_one : copy (data.length+(1 : ℕ)) data = some (data ++ [0]) := by
  have hcopy := strcpyFrom_eq data [] (data.length+1)
  rw [if_pos (Nat.lt_succ_self _), Nat.sub_self, List.replicate_zero, List.append_nil,
    List.nil_append, List.map_nil, List.nil_append, List.length_nil] at hcopy
  rw [copy, ← Nat.cast_add, malloc_natCast, Option.bind_eq_bind, Option.bind_some, hcopy,
    Option.bind_some, contents_filled]

/-- Without such a cell it is a fault. -/
theorem copy_zero : copy (data.length+(0 : ℕ)) data = none := by
  have hcopy := strcpyFrom_eq data [] data.length
  rw [if_neg (lt_irrefl _), List.map_nil, List.nil_append, List.length_nil] at hcopy
  rw [copy, ← Nat.cast_add, malloc_natCast, Option.bind_eq_bind, Option.bind_some, Nat.add_zero,
    hcopy]
  rfl

/-- With room for the NULs the copies change nothing. -/
theorem divCopied_one (fuel : ℕ) (a b : List CChar) (s1 s2 : CChar) :
    divCopied 1 fuel a b s1 s2 = div fuel a b s1 s2 := by
  simp only [divCopied, copy_one, Option.bind_eq_bind, Option.bind_some]
  rfl

end Copies

section Adjust
variable {t : List CChar}

theorem zerosFrom_terminated (t : List CChar) :
    zerosFrom ((t ++ [0]).map some) = some (t.length-(skipZeros t).length) := by
  induction t with
  | nil => rfl
  | cons c t ih =>
    have hle : (skipZeros t).length ≤ t.length := List.length_dropWhile_le _ t
    by_cases hc : c = ch '0'
    · have hskip : skipZeros (c::t) = skipZeros t := by simp [skipZeros, hc]
      rw [List.cons_append, List.map_cons, zerosFrom, ih, hskip, List.length_cons,
        Nat.succ_sub hle]
      simp [hc]
    · have hskip : skipZeros (c::t) = c::t := by simp [skipZeros, hc]
      rw [List.cons_append, List.map_cons, zerosFrom, hskip, Nat.sub_self]
      simp [hc]

theorem takeWhile_terminated {t : List CChar} (ht : 0 ∉ t) :
    ((t ++ [0]).map some).takeWhile (· ≠ some 0) = t.map some := by
  induction t with
  | nil => rfl
  | cons c t ih =>
    obtain ⟨hc,ht⟩ := not_or.mp (mt List.mem_cons.mpr ht)
    simp only [List.cons_append, List.map_cons, ne_eq, Option.some.injEq, Ne.symm hc,
      not_false_eq_true, decide_true, List.takeWhile_cons_of_pos, List.cons.injEq, true_and]
    exact ih ht

theorem adjustAt_terminated (pre : List CChar) (sybom : CChar) {rest : List CChar}
    (hrest : 0 ∉ rest) (hpre : sybom = ch '-' → pre ≠ []) :
    (adjustAt sybom ((pre ++ (rest ++ [0])).map some) pre.length).map adjustedText =
      some ((if rest = [] then cstr "0" else if sybom = ch '-' then ch '-'::rest
        else rest).map some) := by
  have hload : load ((pre ++ (rest ++ [0])).map some) pre.length =
      some ((rest ++ [0]).headD 0) := by
    rw [load, fetch_natCast, List.getElem?_map, List.getElem?_append_right le_rfl, Nat.sub_self]
    cases rest <;> rfl
  rw [adjustAt, hload]
  cases rest with
  | nil => rfl
  | cons c rest =>
    have hc : c ≠ 0 := fun he => hrest (he ▸ List.mem_cons_self)
    rw [Option.bind_eq_bind, Option.bind_some, List.cons_append, List.headD_cons, if_neg hc,
      if_neg (List.cons_ne_nil c rest)]
    split_ifs with hsign
    · obtain ⟨init,x,rfl⟩ := (List.eq_nil_or_concat pre).resolve_left (hpre hsign)
      have hput : put ((init.concat x ++ c::(rest ++ [0])).map some)
          (((init.concat x).length : ℤ)-1) (ch '-') =
          some ((init ++ ch '-'::c::(rest ++ [0])).map some) := by
        rw [put, List.concat_eq_append, List.append_assoc, List.map_append, List.singleton_append,
          List.map_cons, store_append _ (by simp), List.map_append]
        rfl
      have hdrop : (init ++ ch '-'::c::(rest ++ [0])).drop ((init.concat x).length-1) =
          (ch '-'::c::rest) ++ [0] := by
        rw [List.length_concat, Nat.add_sub_cancel, List.drop_left]
        rfl
      rw [hput, Option.bind_eq_bind, Option.bind_some, Option.pure_def, Option.map_some,
        adjustedText, ← List.map_drop, hdrop, takeWhile_terminated]
      exact fun h0 => (List.mem_cons.mp h0).elim (by decide) hrest
    · rw [Option.pure_def, Option.map_some, adjustedText, ← List.map_drop, List.drop_left,
        ← List.cons_append, takeWhile_terminated hrest]

/-- The zeros in front, which `AdjustmentData` passes. -/
theorem exists_zeros (s : List CChar) :
    ∃ zs, s = zs ++ skipZeros s ∧ zs.length = s.length-(skipZeros s).length := by
  obtain ⟨k,hk⟩ := skipZeros_eq s
  have hlen := congrArg List.length hk
  rw [List.length_append] at hlen
  exact ⟨_,hk,by omega⟩

/-- On a block whose text is terminated `AdjustmentData` stays inside and gives the text it is
meant to. -/
theorem adjustBlock_terminated (ht : 0 ∉ t) :
    (adjustBlock ((t ++ [0]).map some)).map adjustedText =
      some ((adjustmentData t).map some) := by
  cases t with
  | nil => decide
  | cons c t =>
    have hload : load (((c::t) ++ [0]).map some) 0 = some c := rfl
    rw [adjustBlock, hload, Option.bind_eq_bind, Option.bind_some, adjustmentData, List.headD_cons,
      List.tail_cons]
    by_cases hs : c = ch '-' ∨ c = ch '+'
    · obtain ⟨zs,hzs,hlen⟩ := exists_zeros t
      have hdrop : (((c::t) ++ [0]).map some).drop 1 = (t ++ [0]).map some := rfl
      have hsplit : (c::t) ++ [0] = (c::zs) ++ (skipZeros t ++ [0]) := by
        conv_lhs => rw [hzs]
        simp
      have hrest : 0 ∉ skipZeros t := by
        intro h0
        rw [hzs] at ht
        exact ht (List.mem_cons_of_mem c (List.mem_append_right zs h0))
      have hadjust := adjustAt_terminated (c::zs) c hrest
        fun _ => List.cons_ne_nil c zs
      simp only [if_pos hs]
      rw [hdrop, zerosFrom_terminated, ← hlen, hsplit, Option.bind_eq_bind, Option.bind_some,
        Nat.add_comm 1]
      exact hadjust
    · obtain ⟨zs,hzs,hlen⟩ := exists_zeros (c::t)
      have hrest : 0 ∉ skipZeros (c::t) := by
        intro h0
        rw [hzs] at ht
        exact ht (List.mem_append_right zs h0)
      have hadjust := adjustAt_terminated zs c hrest
        fun h => absurd (.inl h) hs
      rw [← List.append_assoc, ← hzs] at hadjust
      simp only [if_neg hs]
      rw [List.drop_zero, zerosFrom_terminated, ← hlen, Option.bind_eq_bind, Option.bind_some,
        Nat.zero_add]
      exact hadjust

end Adjust

section Routines
variable {a b : List CChar} {s1 s2 : CChar}

/-- A block that a sign and digits fill has no NUL. -/
theorem HoldsSigned.unterminated {ret : Option (Block CChar)} {s : CChar} {len n : ℕ}
    (hs : IsSign s) (h : HoldsSigned ret s len n) :
    ∃ block, ret = some block ∧ some 0 ∉ block := by
  obtain ⟨ds,hret,-,hds,-⟩ := h
  refine ⟨_,hret,fun hnul => ?_⟩
  obtain ⟨c,hc,h0⟩ := List.mem_map.mp hnul
  obtain rfl := Option.some.inj h0
  cases List.mem_cons.mp hc with
  | inl hsign => exact absurd (hsign ▸ hs) (by decide)
  | inr hdigit => exact nul_notMem_of_digits hds hdigit

theorem not_keepsBlocks_of_unterminated {r : Routine} {block : Block CChar}
    (hrun : ∀ fuel, r.run fuel a b s1 s2 = some (some block)) (hnul : some 0 ∉ block) :
    ¬KeepsBlocks r a b s1 s2 := by
  rintro ⟨enough,h⟩
  obtain ⟨ret,hret,hkept⟩ := h enough le_rfl
  rw [hrun, Option.some.injEq] at hret
  exact hnul (hkept block hret.symm).2

theorem not_keepsBlocks_of_fault {r : Routine}
    (hrun : ∀ fuel, r.run fuel a b s1 s2 = none) : ¬KeepsBlocks r a b s1 s2 := by
  rintro ⟨enough,h⟩
  obtain ⟨ret,hret,-⟩ := h enough le_rfl
  rw [hrun] at hret
  cases hret

/-- Of two nonzero operands the dividend's copy is a fault unless the quotient is zero. -/
theorem divCopied_zero (ha : Canonical a) (hb : Canonical b) (hb0 : b ≠ [ch '0']) (fuel : ℕ) :
    divCopied 0 fuel a b s1 s2 =
      if number a < number b then some (some [some (ch '0')]) else none := by
  rw [divCopied, if_neg (mt (strcmp_zero_iff hb.1).mp hb0)]
  by_cases h : number a < number b
  · rw [(isSmaller_iff ha hb).mpr h, if_pos h]
    rfl
  · rw [Bool.eq_false_iff.mpr (mt (isSmaller_iff ha hb).mp h), if_neg h,
      Option.eq_none_iff_forall_ne_some]
    intro ret hrun
    simp only [copy_zero, Option.bind_eq_bind, Option.bind_none, Option.bind_eq_some_iff,
      Bool.false_eq_true, if_false, reduceCtorEq, and_false, exists_false] at hrun

/-- The blocks are respected only by a division by zero, which uses none. -/
theorem keepsBlocks_iff (ha : Canonical a) (hb : Canonical b) (h1 : IsSign s1) (h2 : IsSign s2)
    (r : Routine) : KeepsBlocks r a b s1 s2 ↔ r = .div ∧ b = [ch '0'] := by
  have hzero : some 0 ∉ (cstr "0").map some := by decide
  cases r with
  | add =>
    obtain ⟨block,hret,hnul⟩ := (add_holds ha.1 hb.1 s1 s2).unterminated h1
    refine iff_of_false (not_keepsBlocks_of_unterminated (fun _ => ?_) hnul) (by simp)
    rw [Routine.run, hret]
    rfl
  | sub =>
    have hsign : IsSign (if number a < number b then s2 else s1) := by
      split_ifs
      · exact h2
      · exact h1
    obtain ⟨block,hret,hnul⟩ := (sub_holds ha hb s1 s2).unterminated hsign
    refine iff_of_false (not_keepsBlocks_of_unterminated (fun _ => ?_) hnul) (by simp)
    rw [Routine.run, hret]
    rfl
  | mul =>
    refine iff_of_false ?_ (by simp)
    by_cases h0 : a = [ch '0'] ∨ b = [ch '0']
    · refine not_keepsBlocks_of_unterminated (fun _ => ?_) hzero
      rw [Routine.run, mul_zero_case ha hb s1 s2 h0]
      rfl
    · obtain ⟨ha0,hb0⟩ := not_or.mp h0
      rcases Nat.lt_or_ge (a.length+b.length) (2^31-1) with hlen | hlen
      · obtain ⟨block,hret,hnul⟩ :=
          (mul_holds ha hb hlen s1 s2 ha0 hb0).unterminated (isSign_productSign s1 s2)
        refine not_keepsBlocks_of_unterminated (fun _ => ?_) hnul
        rw [Routine.run, hret]
        rfl
      · refine not_keepsBlocks_of_fault fun _ => ?_
        rw [Routine.run, mul_long ha hb ha0 hb0 hlen]
        rfl
  | div =>
    by_cases hb0 : b = [ch '0']
    · refine iff_of_true ⟨0,fun fuel _ => ⟨none,?_,by simp⟩⟩ ⟨rfl,hb0⟩
      rw [Routine.run, divCopied, if_pos ((strcmp_zero_iff hb.1).mpr hb0)]
    · refine iff_of_false ?_ (fun h => hb0 h.2)
      by_cases hlt : number a < number b
      · refine not_keepsBlocks_of_unterminated (fun fuel => ?_) hzero
        rw [Routine.run, divCopied_zero ha hb hb0, if_pos hlt]
        rfl
      · refine not_keepsBlocks_of_fault fun fuel => ?_
        rw [Routine.run, divCopied_zero ha hb hb0, if_neg hlt]

theorem keepsBlocks_5_0 : KeepsBlocks .div (cstr "5") (cstr "0") (ch '+') (ch '-') :=
  (keepsBlocks_iff (by decide) (by decide) (by decide) (by decide) .div).mpr ⟨rfl,rfl⟩

/-- 1+2 fills its block with `+03`, and whoever reads the text runs on behind the block. -/
theorem not_keepsBlocks_1_2 : ¬KeepsBlocks .add (cstr "1") (cstr "2") (ch '+') (ch '+') := by
  have hrun : (MathCgi.add (cstr "1") (cstr "2") (ch '+') (ch '+')).map some =
      some (some ((cstr "+03").map some)) := by decide
  exact not_keepsBlocks_of_unterminated (fun _ => hrun) (by decide)

end Routines

end LibeventHttpd.MathCgi
