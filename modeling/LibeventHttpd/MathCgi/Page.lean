import LibeventHttpd.MathCgi.Parameters

/-! `handle_data` of the calculator as a whole, from the query string to the page: the operands
are cut in place, and the buffers are read again when the page is printed. -/
namespace LibeventHttpd.MathCgi
open Cells
open MySql (Ordinary text_ordinary)

def textAt (mem : List CChar) (pos : ℕ) : List CChar := text (mem.drop pos)

/-- The query string after `ExtractData` on the parameter at `pos`: a NUL stands behind what is
left of the operand. -/
def cutOperand (mem : List CChar) (pos : ℕ) : List CChar :=
  mem.set (pos+(extract (textAt mem pos)).text.length) 0

/-- The arguments of `echo_result`. -/
structure Echo where
  data1 : List CChar
  data2 : List CChar
  op : List CChar
  res : List CChar
  deriving DecidableEq

/-- `op` after the switch. -/
def opSign (op : List CChar) : List CChar :=
  if op.headD 0 = ch 'a' then cstr "+"
  else if op.headD 0 = ch 's' then cstr "-"
  else if op.headD 0 = ch 'm' then cstr "*"
  else if op.headD 0 = ch 'd' then cstr "/"
  else op

section Result
-- what lies behind the block of the result, before the next NUL
variable (heap : List CChar)

/-- `AdjustmentData(res)` dereferences its argument without a test. No routine ends its block with a
NUL, so that the text may go on behind it. -/
def adjustedRes : Option (Block CChar) → Option (List CChar)
  | none => none
  | some block => (contents block).map fun cells => adjustmentData (text (cells ++ heap))

/-- The call of `echo_result`, which an empty query does not reach. -/
def echoed (fuel : ℕ) (query : List CChar) : Option (Option Echo) := do
  match ← parameters query with
  | none => return none
  | some p =>
    let val0 := textAt p.query p.data1
    let mem := cutOperand p.query p.data1
    let val1 := textAt mem p.data2
    let mem := cutOperand mem p.data2
    let op := textAt mem p.op
    let ret ← res fuel (op.headD 0) val0 val1
    let text ← adjustedRes heap ret
    return some ⟨adjustmentData (textAt mem p.data1),adjustmentData (textAt mem p.data2),
      opSign op,text⟩

end Result

/-- The message that the divisor must not be zero, in UTF-8. -/
def zeroDivisor : List CChar :=
  cstr "\t<p>ERROR: " ++ [-23,-103,-92,-26,-107,-80,-28,-72,-115,-24,-125,-67,-28,-72,-70] ++
    cstr "0" ++ [-17,-68,-127] ++ cstr "</p>"

def pageHead : List CChar :=
  cstr "HTTP/1.1 200 OK\r\n\r\n" ++ cstr "<html>\n" ++ cstr "<head>\n" ++
    cstr "\t<h1>Calculation result:</h1>\n" ++ cstr "</head>\n" ++ cstr "<body>\n"

def pageTail : List CChar := cstr "</body>\n" ++ cstr "</html>\n"

/-- The page `echo_result` prints. -/
def echoResult (e : Echo) : List CChar :=
  pageHead ++
    (if strcmp e.op (cstr "/") = 0 ∧ strcmp e.data2 (cstr "0") = 0 then zeroDivisor
      else cstr "\t<p> " ++ e.data1 ++ cstr " " ++ e.op ++ cstr " " ++ e.data2 ++ cstr " = " ++
        e.res ++ cstr " </p>") ++ pageTail

/-- What is printed; `none` is a crash or lack of fuel. -/
def handleData (heap : List CChar) (fuel : ℕ) (query : List CChar) : Option (List CChar) :=
  (echoed heap fuel query).map fun call => call.elim [] echoResult

section Memory
variable {v tail : List CChar} {n : ℕ}

/-- A buffer that was cut after `n` characters. -/
theorem text_cut (hv : ∀ c ∈ v, Ordinary c) (htail : ∀ c ∈ tail.head?, c = 0)
    (hn : n ≤ v.length) : text (v.set n 0 ++ tail) = v.take n := by
  rcases Nat.eq_or_lt_of_le hn with rfl | hlt
  · rw [List.set_eq_of_length_le le_rfl, List.take_length]
    exact text_ordinary hv htail
  · have hsplit : v.set n 0 ++ tail = v.take n ++ (0::(v.drop (n+1) ++ tail)) := by
      rw [List.set_eq_take_append_cons_drop, if_pos hlt]
      simp
    rw [hsplit]
    refine text_ordinary (fun c hc => hv c (List.mem_of_mem_take hc)) fun c hc => ?_
    exact (Option.some.inj hc).symm

/-- Cutting a value changes nothing else; behind it a NUL stands already. -/
theorem set_value (done : List CChar) (htail : ∀ c ∈ tail.head?, c = 0) (hn : n ≤ v.length) :
    (done ++ (v ++ tail)).set (done.length+n) 0 = done ++ (v.set n 0 ++ tail) := by
  rw [List.set_append_right _ _ (Nat.le_add_right _ _), Nat.add_sub_cancel_left]
  congr 1
  rcases Nat.eq_or_lt_of_le hn with rfl | hlt
  · rw [List.set_append_right _ _ le_rfl, Nat.sub_self, List.set_eq_of_length_le le_rfl]
    cases tail with
    | nil => rfl
    | cons c tail => rw [htail c rfl, List.set_cons_zero]
  · rw [List.set_append_left _ _ hlt]

theorem textAt_append (done s : List CChar) {pos : ℕ} (hpos : pos = done.length) :
    textAt (done ++ s) pos = text s := by
  rw [textAt, hpos, List.drop_left]

/-- What is left of the operand is where it started. -/
theorem extract_text (t : List CChar) : (extract t).text = t.take (extract t).text.length := by
  have hprefix : (extract t).text <+: t := by
    by_cases hstart : StartsNumber t
    · obtain ⟨c,hc,h⟩ := hstart
      obtain ⟨t,rfl⟩ := List.head?_eq_some_iff.mp hc
      rw [extract, List.headD_cons]
      cases h with
      | inl hs =>
        rw [extractData_sign hs]
        exact List.cons_prefix_cons.mpr ⟨rfl,List.takeWhile_prefix _⟩
      | inr hd =>
        rw [extractData_digit hd]
        exact List.takeWhile_prefix _
    · rw [extract, extractData_other hstart]
  exact List.prefix_iff_eq_take.mp hprefix

end Memory

section Form
variable {names : Names} {x o y : List CChar}

/-- A query with three parameters whose separators are overwritten, with the operands cut after
`n` and `m` characters. -/
def queryMem (names : Names) (x o y : List CChar) (n m : ℕ) : List CChar :=
  names.toData1 ++ (x.set n 0 ++ (cut names.toOp ++ (o ++ (cut names.toData2 ++ y.set m 0))))

/-- Where the parameters start. -/
def queryStarts (names : Names) (x o : List CChar) : ℕ × ℕ × ℕ :=
  (names.toData1.length,(names.toData1 ++ x ++ names.toOp).length,
    (names.toData1 ++ x ++ names.toOp ++ o ++ names.toData2).length)

theorem cut_query (hx : ∀ c ∈ x, Ordinary c) (ho : ∀ c ∈ o, Ordinary c)
    (hy : ∀ c ∈ y, Ordinary c) :
    cut (names.query x o y) = queryMem names x o y x.length y.length := by
  have hdata1 : cut names.toData1 = names.toData1 := by
    rw [Names.toData1, cut_append, cut_ordinary names.ordinary_data1]
    rfl
  rw [Names.query, queryMem, List.set_eq_of_length_le le_rfl, List.set_eq_of_length_le le_rfl]
  simp only [cut_append, cut_ordinary hx, cut_ordinary ho, cut_ordinary hy, hdata1,
    List.append_assoc]

section Positions
variable {n m : ℕ} (hx : ∀ c ∈ x, Ordinary c) (ho : ∀ c ∈ o, Ordinary c)
  (hy : ∀ c ∈ y, Ordinary c)

theorem length_cut (s : List CChar) : (cut s).length = s.length := List.length_map _

theorem head_cut_toOp (names : Names) (s : List CChar) :
    ∀ c ∈ (cut names.toOp ++ s).head?, c = 0 := fun _ hc => (Option.some.inj hc).symm

theorem head_cut_toData2 (names : Names) (s : List CChar) :
    ∀ c ∈ (cut names.toData2 ++ s).head?, c = 0 := fun _ hc => (Option.some.inj hc).symm

include hx in
theorem queryMem_data1 (hn : n ≤ x.length) :
    textAt (queryMem names x o y n m) (queryStarts names x o).1 = x.take n := by
  rw [queryMem, textAt_append]
  · exact text_cut hx (head_cut_toOp names _) hn
  · rfl

include ho in
theorem queryMem_op : textAt (queryMem names x o y n m) (queryStarts names x o).2.1 = o := by
  have hsplit : queryMem names x o y n m = (names.toData1 ++ x.set n 0 ++ cut names.toOp) ++
      (o ++ (cut names.toData2 ++ y.set m 0)) := by
    simp only [queryMem, List.append_assoc]
  rw [hsplit, textAt_append]
  · exact text_ordinary ho (head_cut_toData2 names _)
  · simp only [queryStarts, List.length_append, List.length_set, length_cut]

/-- The second operand stands at the end. -/
theorem queryMem_eq (names : Names) (x o y : List CChar) (n m : ℕ) :
    queryMem names x o y n m =
      (names.toData1 ++ x.set n 0 ++ cut names.toOp ++ o ++ cut names.toData2) ++
        (y.set m 0 ++ []) := by
  simp only [queryMem, List.append_assoc, List.append_nil]

theorem queryStarts_data2 (names : Names) (x o : List CChar) (n : ℕ) :
    (queryStarts names x o).2.2 =
      (names.toData1 ++ x.set n 0 ++ cut names.toOp ++ o ++ cut names.toData2).length := by
  simp only [queryStarts, List.length_append, List.length_set, length_cut]

include hy in
theorem queryMem_data2 (hm : m ≤ y.length) :
    textAt (queryMem names x o y n m) (queryStarts names x o).2.2 = y.take m := by
  rw [queryMem_eq, textAt_append _ _ (queryStarts_data2 names x o n)]
  exact text_cut hy (fun c hc => by cases hc) hm

theorem queryMem_cut_data1 (hn : n ≤ x.length) :
    (queryMem names x o y x.length m).set ((queryStarts names x o).1+n) 0 =
      queryMem names x o y n m := by
  rw [queryMem, List.set_eq_of_length_le le_rfl]
  exact set_value names.toData1 (head_cut_toOp names _) hn

theorem queryMem_cut_data2 (hm : m ≤ y.length) :
    (queryMem names x o y n y.length).set ((queryStarts names x o).2.2+m) 0 =
      queryMem names x o y n m := by
  rw [queryMem_eq, queryMem_eq, queryStarts_data2 names x o n,
    List.set_eq_of_length_le (le_refl y.length)]
  exact set_value _ (fun c hc => by cases hc) hm

end Positions

/-- The operand's text as the page shows it. -/
def shown (t : List CChar) : List CChar := adjustmentData (extract t).text

/-- The call of `echo_result` for three parameters. -/
theorem echoed_query (hx : ∀ c ∈ x, Ordinary c) (ho : ∀ c ∈ o, Ordinary c)
    (hy : ∀ c ∈ y, Ordinary c) (hne : y ≠ []) (heap : List CChar) (fuel : ℕ) :
    echoed heap fuel (names.query x o y) = do
      let ret ← res fuel (o.headD 0) x y
      let text ← adjustedRes heap ret
      return some ⟨shown x,shown y,opSign o,text⟩ := by
  have hlx : (extract x).text.length ≤ x.length := by
    rw [extract_text x]
    exact List.length_take_le' _ _
  have hly : (extract y).text.length ≤ y.length := by
    rw [extract_text y]
    exact List.length_take_le' _ _
  have hpar : parameters (names.query x o y) = some (some ⟨queryMem names x o y x.length y.length,
      (queryStarts names x o).1,(queryStarts names x o).2.1,(queryStarts names x o).2.2⟩) := by
    rw [names.parameters_query hx ho hy hne, cut_query hx ho hy]
    rfl
  have hval0 : textAt (queryMem names x o y x.length y.length) (queryStarts names x o).1 = x := by
    rw [queryMem_data1 hx le_rfl, List.take_length]
  have hval1 : textAt (queryMem names x o y (extract x).text.length y.length)
      (queryStarts names x o).2.2 = y := by
    rw [queryMem_data2 hy le_rfl, List.take_length]
  have hcut0 : cutOperand (queryMem names x o y x.length y.length) (queryStarts names x o).1 =
      queryMem names x o y (extract x).text.length y.length := by
    rw [cutOperand, hval0, queryMem_cut_data1 hlx]
  have hcut1 : cutOperand (queryMem names x o y (extract x).text.length y.length)
      (queryStarts names x o).2.2 =
      queryMem names x o y (extract x).text.length (extract y).text.length := by
    rw [cutOperand, hval1, queryMem_cut_data2 hly]
  simp only [echoed, hpar, Option.bind_eq_bind, Option.bind_some, hcut0, hcut1, hval0, hval1,
    queryMem_op ho, queryMem_data1 hx hlx, queryMem_data2 hy hly, ← extract_text]
  rfl

end Form

section Numerals
variable {names : Names} {x o y : List CChar}

/-- The integer the routines compute with. -/
def used (t : List CChar) : ℤ := signed (extract t).sybom (number (extract t).data)

theorem adjustmentData_digits {ds : List CChar} (hd : Digits ds) :
    adjustmentData ds = numeral (number ds) := by
  have hsame : adjustmentData ds = adjustmentData (ch '+'::ds) := by
    have hne : ¬(ds.headD 0 = ch '-' ∨ ds.headD 0 = ch '+') := by
      cases ds with
      | nil => decide
      | cons c t =>
        have hc := ((digits_cons c t).mp hd).1
        exact fun h => not_isDigit_of_isSign (Or.comm.mp h) hc
    obtain ⟨hminus,hplus⟩ := not_or.mp hne
    have hsigns : ch '+' ≠ ch '-' := by decide
    simp only [adjustmentData, hminus, hplus, hsigns, List.headD_cons, List.tail_cons, or_self,
      if_false, or_true, if_true]
  rw [hsame, adjustmentData_signed (.inl rfl) hd, signed_plus]

/-- The page shows the number that was computed with unless the operand starts with a character
that is neither a sign nor a digit. -/
theorem shown_iff (t : List CChar) : shown t = numeral (used t) ↔ t = [] ∨ StartsNumber t := by
  by_cases hstart : StartsNumber t
  · refine iff_of_true ?_ (.inr hstart)
    obtain ⟨c,hc,h⟩ := hstart
    obtain ⟨t,rfl⟩ := List.head?_eq_some_iff.mp hc
    rw [shown, used, extract, List.headD_cons]
    cases h with
    | inl hs =>
      rw [extractData_sign hs, number_strip]
      exact adjustmentData_signed hs (digits_leadingDigits t)
    | inr hd =>
      rw [extractData_digit hd, number_strip, signed_plus]
      exact adjustmentData_digits (digits_leadingDigits (c::t))
  · rw [or_iff_left hstart, shown, used, extract, extractData_other hstart]
    have hzero (s : CChar) : numeral (signed s (number (cstr "0"))) = cstr "0" := by
      unfold signed
      split_ifs <;> decide
    rw [hzero]
    cases t with
    | nil => exact iff_of_true (by decide) rfl
    | cons c t =>
      have hs : ¬IsSign c := fun hs => hstart ⟨c,rfl,.inl hs⟩
      have hd : ¬IsDigit c := fun hd => hstart ⟨c,rfl,.inr hd⟩
      have h0 : c ≠ ch '0' := fun he => hd (he ▸ isDigit_ch_zero)
      obtain ⟨hplus,hminus⟩ := not_or.mp hs
      have hraw : adjustmentData (c::t) = c::t := by
        simp [adjustmentData, skipZeros, h0, hplus, hminus]
      refine iff_of_false ?_ (List.cons_ne_nil c t)
      rw [hraw]
      exact fun he => h0 (List.cons.inj he).1

/-- The operands on the page are canonical numerals of the numbers computed with, and the operator
between them is a constant. -/
def EchoesNumerals (x y : List CChar) (e : Echo) : Prop :=
  e.data1 = numeral (used x) ∧ e.data2 = numeral (used y) ∧
    e.op ∈ [cstr "+",cstr "-",cstr "*",cstr "/"]

/-- An unknown operator leaves the result `NULL`. -/
theorem opSign_of_res {fuel : ℕ} {block : Block CChar}
    (h : res fuel (o.headD 0) x y = some (some block)) :
    opSign o ∈ [cstr "+",cstr "-",cstr "*",cstr "/"] := by
  unfold res at h
  unfold opSign
  split_ifs at h ⊢ <;> simp at h ⊢

/-- Whenever a page is printed for three parameters, its operands are the numerals of what was
computed with unless one of them starts with some other character, in which case it is printed
raw. -/
theorem echoesNumerals_iff (hx : ∀ c ∈ x, Ordinary c) (ho : ∀ c ∈ o, Ordinary c)
    (hy : ∀ c ∈ y, Ordinary c) {heap : List CChar} {fuel : ℕ} {e : Echo}
    (h : echoed heap fuel (names.query x o y) = some (some e)) :
    EchoesNumerals x y e ↔ (x = [] ∨ StartsNumber x) ∧ (y = [] ∨ StartsNumber y) := by
  have hne : y ≠ [] := by
    rintro rfl
    rw [echoed, names.parameters_query_nil hx ho] at h
    cases h
  rw [echoed_query hx ho hy hne] at h
  simp only [Option.bind_eq_bind, Option.bind_eq_some_iff, Option.pure_def,
    Option.some.injEq] at h
  obtain ⟨ret,hret,text,htext,rfl⟩ := h
  cases ret with
  | none => cases htext
  | some block =>
    rw [EchoesNumerals, shown_iff, shown_iff, and_iff_left (opSign_of_res hret)]

theorem echoesNumerals_12_5 : EchoesNumerals (cstr "12") (cstr "+5")
    ⟨cstr "12",cstr "5",cstr "+",cstr "17"⟩ := by
  have hcall : echoed [] 0 (formNames.query (cstr "12") (cstr "add") (cstr "+5")) =
      some (some ⟨cstr "12",cstr "5",cstr "+",cstr "17"⟩) := by decide
  exact (echoesNumerals_iff (by decide) (by decide) (by decide) hcall).mpr
    ⟨.inr ⟨ch '1',rfl,by decide⟩,.inr ⟨ch '+',rfl,by decide⟩⟩

/-- A tag is copied into the page, where the computation used 0. -/
theorem not_echoesNumerals_tag :
    echoed [] 0 (formNames.query (cstr "<b>") (cstr "add") (cstr "5")) =
      some (some ⟨cstr "<b>",cstr "5",cstr "+",cstr "5"⟩) ∧
    ¬EchoesNumerals (cstr "<b>") (cstr "5") ⟨cstr "<b>",cstr "5",cstr "+",cstr "5"⟩ := by
  constructor
  · decide
  · rintro ⟨h,-⟩
    exact absurd h (by decide +kernel)

end Numerals

section Answer
variable {names : Names} {x o y heap : List CChar}

/-- The digits of an operand without their leading zeros. -/
def magnitude (t : List CChar) : List CChar := strip (operandDigits t)

/-- `handle_data` ends with a page, and if it divides by a number that is zero, with the page that
says so. -/
def Answers (heap : List CChar) (names : Names) (x o y : List CChar) : Prop :=
  ∃ page, (∃ enough, ∀ fuel ≥ enough, handleData heap fuel (names.query x o y) = some page) ∧
    (o.headD 0 = ch 'd' → leadingInt y = 0 → page = pageHead ++ zeroDivisor ++ pageTail)

/-- The operations that have a result block: the sizes of the products and quotients are `int`s. -/
def Answerable (op : CChar) (a b : List CChar) : Prop :=
  op = ch 'a' ∨ op = ch 's' ∨
    op = ch 'm' ∧ (a = cstr "0" ∨ b = cstr "0" ∨ a.length+b.length+1 < 2^31) ∨
    op = ch 'd' ∧ b ≠ cstr "0" ∧ (number a < number b ∨ a.length+1 < 2^31)

theorem extract_data (t : List CChar) : (extract t).data = magnitude t := extractData_data t

theorem canonical_magnitude (t : List CChar) : Canonical (magnitude t) :=
  canonical_strip (digits_operandDigits t)

theorem HoldsSigned.filled {ret : Option (Block CChar)} {s : CChar} {len n : ℕ}
    (h : HoldsSigned ret s len n) : ∃ text : List CChar, ret = some (text.map some) := by
  obtain ⟨ds,hret,-⟩ := h
  exact ⟨s::ds,hret⟩

theorem caseAdd_filled (x y : List CChar) :
    ∃ text : List CChar, caseAdd (extract x) (extract y) = some (text.map some) := by
  have ha := canonical_magnitude x
  have hb := canonical_magnitude y
  rw [caseAdd, extract_data, extract_data]
  split_ifs
  · exact (add_holds ha.1 hb.1 _ _).filled
  · exact (sub_holds ha hb _ _).filled

theorem caseSub_filled (x y : List CChar) :
    ∃ text : List CChar, caseSub (extract x) (extract y) = some (text.map some) := by
  have ha := canonical_magnitude x
  have hb := canonical_magnitude y
  rw [caseSub, extract_data, extract_data]
  split_ifs
  · exact (sub_holds ha hb _ _).filled
  · exact (add_holds ha.1 hb.1 _ _).filled

theorem mul_filled {a b : List CChar} (ha : Canonical a) (hb : Canonical b)
    (h : a = cstr "0" ∨ b = cstr "0" ∨ a.length+b.length+1 < 2^31) (s1 s2 : CChar) :
    ∃ text : List CChar, mul a b s1 s2 = some (text.map some) := by
  by_cases h0 : a = cstr "0" ∨ b = cstr "0"
  · exact ⟨cstr "0",mul_zero_case ha hb s1 s2 h0⟩
  · obtain ⟨ha0,hb0⟩ := not_or.mp h0
    have hlen := (h.resolve_left ha0).resolve_left hb0
    exact (mul_holds ha hb (by omega) s1 s2 ha0 hb0).filled

theorem div_filled {a b : List CChar} (ha : Canonical a) (hb : Canonical b)
    (hb0 : b ≠ cstr "0") (h : number a < number b ∨ a.length+1 < 2^31) (s1 s2 : CChar) :
    ∃ text : List CChar, ∀ fuel ≥ 2571+a.length,
      div fuel a b s1 s2 = some (some (text.map some)) := by
  rcases Nat.lt_or_ge (number a) (number b) with hlt | hle
  · exact ⟨cstr "0",fun fuel _ => div_small ha hb hb0 hlt fuel⟩
  · have hlen := h.resolve_left (not_lt.mpr hle)
    exact ⟨_,fun fuel hfuel => div_eq_quotientDigits ha hb hb0 s1 s2 hle hlen (by omega)⟩

theorem res_of_answerable {op : CChar} (h : Answerable op (magnitude x) (magnitude y)) :
    ∃ text : List CChar, ∃ enough, ∀ fuel ≥ enough,
      res fuel op x y = some (some (text.map some)) := by
  have ha := canonical_magnitude x
  have hb := canonical_magnitude y
  rcases h with rfl | rfl | ⟨rfl,hm⟩ | ⟨rfl,hb0,hd⟩
  · obtain ⟨text,hret⟩ := caseAdd_filled x y
    refine ⟨text,0,fun fuel _ => ?_⟩
    rw [res, if_pos rfl, hret]
    rfl
  · obtain ⟨text,hret⟩ := caseSub_filled x y
    refine ⟨text,0,fun fuel _ => ?_⟩
    rw [res, if_neg (by decide), if_pos rfl, hret]
    rfl
  · obtain ⟨text,hret⟩ := mul_filled ha hb hm (extract x).sybom (extract y).sybom
    refine ⟨text,0,fun fuel _ => ?_⟩
    rw [res, if_neg (by decide), if_neg (by decide), if_pos rfl, extract_data, extract_data, hret]
    rfl
  · obtain ⟨text,hret⟩ := div_filled ha hb hb0 hd (extract x).sybom (extract y).sybom
    refine ⟨text,2571+(magnitude x).length,fun fuel hfuel => ?_⟩
    rw [res, if_neg (by decide), if_neg (by decide), if_neg (by decide), if_pos rfl, extract_data,
      extract_data, hret fuel hfuel]

theorem answerable_of_res {op : CChar} {fuel : ℕ} {block : Block CChar}
    (h : res fuel op x y = some (some block)) : Answerable op (magnitude x) (magnitude y) := by
  have ha := canonical_magnitude x
  have hb := canonical_magnitude y
  simp only [res, extract_data] at h
  split_ifs at h with hadd hsub hmul hdiv
  · exact .inl hadd
  · exact .inr (.inl hsub)
  · refine .inr (.inr (.inl ⟨hmul,?_⟩))
    by_contra hlong
    obtain ⟨ha0,hlong⟩ := not_or.mp hlong
    obtain ⟨hb0,hlong⟩ := not_or.mp hlong
    rw [mul_long ha hb ha0 hb0 (by omega)] at h
    cases h
  · refine .inr (.inr (.inr ⟨hdiv,?_,?_⟩))
    · intro hb0
      rw [div, if_pos ((strcmp_zero_iff hb.1).mpr hb0)] at h
      cases h
    · by_contra hlong
      obtain ⟨hle,hlong⟩ := not_or.mp hlong
      by_cases hb0 : magnitude y = cstr "0"
      · rw [div, if_pos ((strcmp_zero_iff hb.1).mpr hb0)] at h
        cases h
      · rw [div_long ha hb hb0 (not_lt.mp hle) (not_lt.mp hlong)] at h
        cases h
  · cases h

/-- The second operand evaluates to zero exactly if no digit but zeros is left of it. -/
theorem leadingInt_eq_zero (t : List CChar) : leadingInt t = 0 ↔ magnitude t = cstr "0" := by
  have hnumber : number (magnitude t) = number (operandDigits t) := number_strip _
  have hzero : leadingInt t = 0 ↔ number (magnitude t) = 0 := by
    rw [leadingInt_eq, hnumber]
    unfold signed
    split_ifs <;> omega
  rw [hzero]
  constructor
  · intro h0
    by_contra hne
    have hpos := (canonical_magnitude t).number_pos hne
    omega
  · intro h
    rw [h]
    decide

/-- A page comes exactly if there is a second operand, the operator is known, the divisor is not
zero, and the size of a product or quotient is an `int`: a `NULL` result is dereferenced. -/
theorem answers_iff (hx : ∀ c ∈ x, Ordinary c) (ho : ∀ c ∈ o, Ordinary c)
    (hy : ∀ c ∈ y, Ordinary c) :
    Answers heap names x o y ↔ y ≠ [] ∧ Answerable (o.headD 0) (magnitude x) (magnitude y) := by
  constructor
  · rintro ⟨page,⟨enough,hpage⟩,-⟩
    have hrun := hpage enough le_rfl
    have hne : y ≠ [] := by
      rintro rfl
      rw [handleData, echoed, names.parameters_query_nil hx ho] at hrun
      cases hrun
    refine ⟨hne,?_⟩
    rw [handleData, echoed_query hx ho hy hne] at hrun
    simp only [Option.bind_eq_bind, Option.map_eq_some_iff, Option.bind_eq_some_iff] at hrun
    obtain ⟨call,⟨ret,hret,text,htext,-⟩,-⟩ := hrun
    cases ret with
    | none => cases htext
    | some block => exact answerable_of_res hret
  · rintro ⟨hne,h⟩
    obtain ⟨cells,enough,hret⟩ := res_of_answerable h
    refine ⟨echoResult ⟨shown x,shown y,opSign o,adjustmentData (text (cells ++ heap))⟩,
      ⟨enough,fun fuel hfuel => ?_⟩,?_⟩
    · rw [handleData, echoed_query hx ho hy hne, hret fuel hfuel]
      simp only [Option.bind_eq_bind, Option.bind_some, adjustedRes, contents_filled,
        Option.map_some, Option.pure_def]
      rfl
    · intro hop hzero
      rw [leadingInt_eq_zero] at hzero
      rw [hop] at h
      rcases h with hd | hd | ⟨hd,-⟩ | ⟨-,hb0,-⟩
      · exact absurd hd (by decide)
      · exact absurd hd (by decide)
      · exact absurd hd (by decide)
      · exact absurd hzero hb0

theorem answers_84_2 : Answers [] formNames (cstr "84") (cstr "div") (cstr "-2") :=
  (answers_iff (by decide) (by decide) (by decide)).mpr
    ⟨by decide,.inr (.inr (.inr ⟨rfl,by decide,.inr (by decide)⟩))⟩

/-- Dividing by `000`. -/
theorem not_answers_zero : ¬Answers [] formNames (cstr "5") (cstr "div") (cstr "000") := by
  rintro ⟨page,⟨enough,hpage⟩,-⟩
  have hrun := hpage enough le_rfl
  rw [handleData, echoed_query (by decide) (by decide) (by decide) (by decide)] at hrun
  have hret : res enough ((cstr "div").headD 0) (cstr "5") (cstr "000") = some none := rfl
  rw [hret] at hrun
  cases hrun

end Answer

end LibeventHttpd.MathCgi
