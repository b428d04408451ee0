import LibeventHttpd.Delivery
import LibeventHttpd.MathCgi.Page
import LibeventHttpd.Submission

/-! The calculator as its users see it: a form goes in, a page with the result comes out. -/
namespace LibeventHttpd.MathCgi
open Cells Transition
open MySql (Ordinary)

/-- What the calculator prints, with fuel for every quotient. A crash leaves nothing printed. -/
def calculator (heap : List CChar) (child : Child) : List CChar :=
  ((main child.env child.stdin).bind fun query =>
    handleData heap (2571+query.length) query).getD []

/-- No window of the division is mistaken for a smaller one, or none that matters. -/
def NoTrap (a b : List CChar) : Prop :=
  ∀ xs us vs, FirstTrap b.length (number b) (digitWord a) xs us vs →
    Harmless b.length (number b) us vs

/-- The results that come out right for operands written `x` and `y`. -/
inductive Result (x y : List CChar) (X Y : ℤ) : CChar → ℤ → Prop
  | add : Result x y X Y (ch 'a') (X+Y)
  | sub (h : writtenSign x ≠ writtenSign y ∨ Y.natAbs ≤ X.natAbs) : Result x y X Y (ch 's') (X-Y)
  | mul : Result x y X Y (ch 'm') (X*Y)
  | div (hzero : Y ≠ 0) (h : X.natAbs < Y.natAbs ∨ NoTrap (magnitude x) (magnitude y)) :
      Result x y X Y (ch 'd') (X.tdiv Y)

section Read
variable {t : List CChar} {z : ℤ}

theorem readInt_of_readSigned (h : readSigned t = some z) : readInt t = some z := by
  obtain ⟨s,ds,rfl,hs,hne,hd,rfl⟩ := readSigned_eq_some h
  rw [readInt_sign hs, if_pos ⟨hne,hd⟩]

/-- The result of a routine is shown as a canonical numeral. -/
theorem adjustmentData_of_readInt (h : readInt t = some z) : adjustmentData t = numeral z := by
  unfold readInt at h
  split_ifs at h with hd
  · obtain rfl := Option.some.inj h
    exact adjustmentData_digits hd.2
  · obtain ⟨s,ds,rfl,hs,-,hds,rfl⟩ := readSigned_eq_some h
    exact adjustmentData_signed hs hds

/-- An operand that is an integer is read whole. -/
theorem extract_of_readInt (h : readInt t = some z) :
    extract t = ⟨magnitude t,writtenSign t,t⟩ ∧
      z = signed (writtenSign t) (number (magnitude t)) := by
  obtain ⟨a,ha,-,hz⟩ := extractData_of_readInt h
  have hdata : magnitude t = a := by rw [← extract_data, extract, ha]
  rw [hdata]
  exact ⟨ha,hz⟩

theorem shown_of_readInt (h : readInt t = some z) : shown t = numeral z := by
  rw [shown, (extract_of_readInt h).1]
  exact adjustmentData_of_readInt h

theorem ordinary_of_isDigit {c : CChar} (h : IsDigit c) : Ordinary c := by
  refine ⟨?_,?_,?_⟩ <;> rintro rfl <;> exact absurd h (by decide)

theorem ordinary_of_readInt (h : readInt t = some z) : ∀ c ∈ t, Ordinary c := by
  unfold readInt at h
  split_ifs at h with hd
  · exact fun c hc => ordinary_of_isDigit (hd.2 c hc)
  · obtain ⟨s,ds,rfl,hs,-,hds,-⟩ := readSigned_eq_some h
    have hsign : Ordinary s := by
      rcases hs with rfl | rfl <;> decide
    exact List.forall_mem_cons.mpr ⟨hsign,fun c hc => ordinary_of_isDigit (hds c hc)⟩

theorem adjustedRes_of_denotes {block : Block CChar} (h : Denotes block z) :
    adjustedRes [] (some block) = some (numeral z) := by
  obtain ⟨cells,hblock,hread⟩ := h
  have hnul : 0 ∉ cells := fun h0 => (ordinary_of_readInt hread 0 h0).2.2 rfl
  rw [adjustedRes, hblock, Option.map_some, List.append_nil, text_of_nul_notMem hnul,
    adjustmentData_of_readInt hread]

theorem ne_nil_of_readInt (h : readInt t = some z) : t ≠ [] := by
  rintro rfl
  cases h

theorem length_strip_le (s : List CChar) : (strip s).length ≤ max 1 s.length := by
  unfold strip
  split_ifs
  · exact le_max_left _ _
  · exact le_max_of_le_right (List.dropWhile_sublist _).length_le

theorem length_operandDigits_le (s : List CChar) : (operandDigits s).length ≤ s.length := by
  cases s with
  | nil => exact le_rfl
  | cons c s =>
    rw [operandDigits]
    split_ifs
    · exact (List.takeWhile_prefix _).length_le.trans (Nat.le_succ _)
    · exact (List.takeWhile_prefix _).length_le

theorem magnitude_length_le (h : readInt t = some z) : (magnitude t).length ≤ t.length := by
  have hpos := List.length_pos_of_ne_nil (ne_nil_of_readInt h)
  have hle := (length_strip_le _).trans (max_le_max_left 1 (length_operandDigits_le t))
  rwa [max_eq_right hpos] at hle

end Read

section Routines
variable {x y : List CChar} {X Y z : ℤ} {op : CChar}

theorem mul_read (hx : readInt x = some X) (hy : readInt y = some Y)
    (hlen : x.length+y.length < 2^31-1) :
    ∃ block, mul (magnitude x) (magnitude y) (writtenSign x) (writtenSign y) = some block ∧
      Denotes block (X*Y) := by
  have ha := canonical_magnitude x
  have hb := canonical_magnitude y
  have hla := magnitude_length_le hx
  have hlb := magnitude_length_le hy
  obtain ⟨-,rfl⟩ := extract_of_readInt hx
  obtain ⟨-,rfl⟩ := extract_of_readInt hy
  rw [signed_mul (isSign_writtenSign x) (isSign_writtenSign y)]
  by_cases h0 : magnitude x = [ch '0'] ∨ magnitude y = [ch '0']
  · have hzero : number (magnitude x)*number (magnitude y) = 0 := by
      rcases h0 with h | h
      · rw [h]
        exact Nat.zero_mul _
      · rw [h]
        exact Nat.mul_zero _
    refine ⟨_,mul_zero_case ha hb _ _ h0,cstr "0",contents_filled _,?_⟩
    rw [hzero]
    unfold signed
    split_ifs <;> rfl
  · obtain ⟨ha0,hb0⟩ := not_or.mp h0
    have hpos : 0 < (magnitude x).length+(magnitude y).length := by
      have := List.length_pos_of_ne_nil ha.2.1
      omega
    obtain ⟨text,hret,hread,-⟩ := (mul_holds ha hb (by omega) _ _ ha0 hb0).read
      (isSign_productSign (writtenSign x) (writtenSign y)) hpos
    exact ⟨_,hret,denotes_filled.mpr (readInt_of_readSigned hread)⟩

theorem div_read (hx : readInt x = some X) (hy : readInt y = some Y)
    (hlen : x.length+1 < 2^31) (hzero : Y ≠ 0)
    (h : X.natAbs < Y.natAbs ∨ NoTrap (magnitude x) (magnitude y)) :
    ∃ block, (∀ fuel ≥ 2571+x.length, div fuel (magnitude x) (magnitude y) (writtenSign x)
      (writtenSign y) = some (some block)) ∧ Denotes block (X.tdiv Y) := by
  have ha := canonical_magnitude x
  have hb := canonical_magnitude y
  have hla := magnitude_length_le hx
  have hs := isSign_writtenSign x
  have ht := isSign_writtenSign y
  obtain ⟨-,rfl⟩ := extract_of_readInt hx
  obtain ⟨-,rfl⟩ := extract_of_readInt hy
  rw [signed_natAbs, signed_natAbs] at h
  have hb0 : magnitude y ≠ [ch '0'] := by
    intro he
    rw [he] at hzero
    apply hzero
    unfold signed
    split_ifs <;> rfl
  rcases Nat.lt_or_ge (number (magnitude x)) (number (magnitude y)) with hlt | hle
  · refine ⟨_,fun fuel _ => div_small ha hb hb0 hlt fuel,cstr "0",rfl,?_⟩
    rw [signed_tdiv hs ht, Nat.div_eq_of_lt hlt]
    unfold signed
    split_ifs <;> rfl
  · have hright : DivRight (magnitude x) (magnitude y) (writtenSign x) (writtenSign y) :=
      (divRight_iff_of_large ha hb hb0 hs ht hle (by omega)).mpr (h.resolve_left (not_lt.mpr hle))
    obtain ⟨block,⟨enough,hret⟩,hdenotes⟩ := hright
    have hrun {fuel : ℕ} (hfuel : 2571+x.length ≤ fuel) :=
      div_eq_quotientDigits ha hb hb0 (writtenSign x) (writtenSign y) hle (by omega)
        (show 2570+(magnitude x).length < fuel by omega)
    have hsame := (hrun (le_max_right enough _)).symm.trans (hret _ (le_max_left _ _))
    rw [← Option.some.inj (Option.some.inj hsame)] at hdenotes
    exact ⟨_,fun fuel hfuel => hrun hfuel,hdenotes⟩

/-- The switch fills a block with the right result. -/
theorem res_of_result (hx : readInt x = some X) (hy : readInt y = some Y)
    (hlen : x.length+y.length < 2^31-1) (h : Result x y X Y op z) :
    ∃ block, (∀ fuel ≥ 2571+x.length, res fuel op x y = some (some block)) ∧ Denotes block z := by
  cases h with
  | add =>
    obtain ⟨text,hret,hread,-⟩ := caseAdd_read hx hy
    refine ⟨_,fun fuel _ => ?_,denotes_filled.mpr (readInt_of_readSigned hread)⟩
    rw [res, if_pos rfl, hret]
    rfl
  | sub h =>
    obtain ⟨text,z,hret,hread,hz⟩ := caseSub_read hx hy
    rw [← hz.mpr h]
    refine ⟨_,fun fuel _ => ?_,denotes_filled.mpr (readInt_of_readSigned hread)⟩
    rw [res, if_neg (by decide), if_pos rfl, hret]
    rfl
  | mul =>
    obtain ⟨block,hret,hdenotes⟩ := mul_read hx hy hlen
    refine ⟨block,fun fuel _ => ?_,hdenotes⟩
    rw [res, if_neg (by decide), if_neg (by decide), if_pos rfl, (extract_of_readInt hx).1,
      (extract_of_readInt hy).1, hret]
    rfl
  | div hzero h =>
    have hpos := List.length_pos_of_ne_nil (ne_nil_of_readInt hy)
    obtain ⟨block,hret,hdenotes⟩ := div_read hx hy (by omega) hzero h
    refine ⟨block,fun fuel hfuel => ?_,hdenotes⟩
    rw [res, if_neg (by decide), if_neg (by decide), if_neg (by decide), if_pos rfl,
      (extract_of_readInt hx).1, (extract_of_readInt hy).1, hret fuel hfuel]

end Routines

section Page
variable {names : Names} {x o y : List CChar} {X Y z : ℤ}

/-- What is printed for a result that comes out right. -/
def resultPage (o : List CChar) (X Y z : ℤ) : List CChar :=
  echoResult ⟨numeral X,numeral Y,opSign o,numeral z⟩

theorem handleData_of_result (hx : readInt x = some X) (hy : readInt y = some Y)
    (ho : ∀ c ∈ o, Ordinary c) (hlen : x.length+y.length < 2^31-1)
    (h : Result x y X Y (o.headD 0) z) {fuel : ℕ} (hfuel : 2571+x.length ≤ fuel) :
    handleData [] fuel (names.query x o y) = some (resultPage o X Y z) := by
  obtain ⟨block,hret,hdenotes⟩ := res_of_result hx hy hlen h
  rw [handleData, echoed_query (ordinary_of_readInt hx) ho (ordinary_of_readInt hy)
    (ne_nil_of_readInt hy), hret fuel hfuel]
  simp only [Option.bind_eq_bind, Option.bind_some, adjustedRes_of_denotes hdenotes,
    shown_of_readInt hx, shown_of_readInt hy]
  rfl

theorem digits_numeralNat (n : ℕ) : Digits (numeralNat n) := by
  unfold numeralNat
  split_ifs
  · decide
  · intro c hc
    obtain ⟨d,hd,rfl⟩ := List.mem_map.mp hc
    have hlt : d < 10 := Nat.digits_lt_base (by decide) (List.mem_reverse.mp hd)
    exact isDigit_digitChar (by omega) (by omega)

theorem nul_notMem_numeral (z : ℤ) : 0 ∉ numeral z := by
  have hdigits : 0 ∉ numeralNat z.natAbs :=
    fun h => absurd (digits_numeralNat _ 0 h) (by decide)
  unfold numeral
  split_ifs
  · rw [List.mem_cons, not_or]
    exact ⟨by decide,hdigits⟩
  · exact hdigits

theorem nul_notMem_opSign (h : Result x y X Y (o.headD 0) z) : 0 ∉ opSign o := by
  have hop : o.headD 0 ∈ [ch 'a',ch 's',ch 'm',ch 'd'] := by
    generalize o.headD 0 = op at h
    cases h <;> simp
  unfold opSign
  split_ifs with ha hs hm hd
  · decide
  · decide
  · decide
  · decide
  · simp only [List.mem_cons, ha, hs, hm, hd, List.not_mem_nil, or_self] at hop

theorem nul_notMem_resultPage (h : Result x y X Y (o.headD 0) z) : 0 ∉ resultPage o X Y z := by
  have hop := nul_notMem_opSign h
  have hhead : 0 ∉ pageHead := by decide
  have htail : 0 ∉ pageTail := by decide
  have hzero : 0 ∉ zeroDivisor := by decide
  have hp : 0 ∉ cstr "\t<p> " := by decide
  have hblank : 0 ∉ cstr " " := by decide
  have heq : 0 ∉ cstr " = " := by decide
  have hend : 0 ∉ cstr " </p>" := by decide
  unfold resultPage echoResult
  split_ifs
  · simp [hhead, hzero, htail]
  · simp [hhead, htail, hp, hblank, heq, hend, nul_notMem_numeral, hop]

theorem nul_notMem_query (hx : readInt x = some X) (hy : readInt y = some Y)
    (ho : ∀ c ∈ o, Ordinary c) : 0 ∉ names.query x o y := by
  have hnul {v : List CChar} (hv : ∀ c ∈ v, Ordinary c) : 0 ∉ v := fun h0 => (hv 0 h0).2.2 rfl
  have heq : 0 ∉ cstr "=" := by decide
  have hamp : 0 ∉ cstr "&" := by decide
  simp [Names.query, Names.toData1, Names.toOp, Names.toData2, heq, hamp, hnul ho,
    hnul (ordinary_of_readInt hx), hnul (ordinary_of_readInt hy), hnul names.ordinary_data1,
    hnul names.ordinary_op, hnul names.ordinary_data2]

/-- The request submits two integers and an operator to the program at `path`, and `z` is a result
that comes out right. -/
structure Asks (stat : Stat) (path : List CChar) (m : Message) (o : List CChar) (X Y z : ℤ) :
    Prop where
  operands : ∃ (names : Names) (x y : List CChar), m.Submits stat path (names.query x o y) ∧
    readInt x = some X ∧ readInt y = some Y ∧ Result x y X Y (o.headD 0) z
  operator : ∀ c ∈ o, Ordinary c
  fits : m.Fits stat

/-- The page is sent if it leaves room for a NUL in the buffer. -/
theorem outcome_of_asks {site : Site} {path : List CChar} {m : Message}
    (hcgi : ∀ child : Child, child.path = path → site.cgi child = calculator [] child)
    (hasks : Asks site.stat path m o X Y z) (env : Env) (fd : ℕ) :
    ∃ x : Exchange, x.sent = resultPage o X Y z ∧ x.child ≠ none ∧ outcome site env fd m.stream =
      if (resultPage o X Y z).length < 20480 then some x else none := by
  obtain ⟨⟨names,x,y,hsub,hx,hy,h⟩,ho,hfits⟩ := hasks
  have hlen := hsub.length_lt
  have hxy : x.length+y.length ≤ (names.query x o y).length := by
    simp only [Names.query, List.length_append]
    omega
  have hsize : size < 2^31-1 := by decide
  obtain ⟨child,hpath,hmain,hrun⟩ := outcome_of_submits hsub (nul_notMem_query hx hy ho) hfits fd
  have hprint : site.cgi child = resultPage o X Y z := by
    rw [hcgi child hpath, calculator, MathCgi.main, hmain, Option.bind_some,
      handleData_of_result hx hy ho (by omega) h (by omega)]
    rfl
  have hnul := nul_notMem_resultPage h
  refine ⟨⟨resultPage o X Y z,m.body.drop child.stdin.length,child.env,some child⟩,rfl,
    Option.some_ne_none child,?_⟩
  rw [hrun, hprint, relayed, text_of_nul_notMem hnul]
  simp only [hnul, and_false, or_false]
  split_ifs <;> rfl

end Page

section Clients
variable {σ τ : Type} {p : Programs σ τ} {env₀ : Env} {state₀ : σ} {s : Server × σ} {c : ℕ}

/-- Whoever submits two integers, by either method and beside any other clients, gets the page with
the result and nothing else, where a NUL lies right behind the block of the result. -/
theorem result_of_apart {path : List CChar} {m : Message} {o : List CChar} {X Y z : ℤ}
    (hcgi : ∀ state now child, child.path = path →
      (p.at state now).cgi child = calculator [] child)
    (h : Reaches (live p) Apart (listening env₀,state₀) s) (hc : c < s.1.conns)
    (hclosed : ¬s.1.outside.connected c) (hm : s.1.request c = m.stream)
    (hasks : Asks p.stat path m o X Y z) : s.1.received c = resultPage o X Y z := by
  obtain ⟨turns,hs⟩ := exists_delivering h
  obtain ⟨-,⟨fd,now,sock⟩,-,w,-,-,hsock,w',x,hserve,hsent,-⟩ :=
    hs.explains.answered c hc hclosed
  obtain rfl : sock = m.stream := hsock.trans hm
  obtain ⟨x',hx,hserve⟩ := Option.bind_eq_some_iff.mp hserve
  obtain ⟨state,-,hserve⟩ := Option.bind_eq_some_iff.mp hserve
  obtain rfl : x' = x := (Prod.mk.inj (Option.some.inj hserve)).2
  obtain ⟨x',hpage,-,hrun⟩ := outcome_of_asks (hcgi w.state now) hasks w.env fd
  rw [hx] at hrun
  split_ifs at hrun
  obtain rfl := Option.some.inj hrun
  exact hsent.trans hpage

/-- A site with the calculator alone. -/
def calculation : Site := ⟨fun _ => some 0o100755,id,calculator []⟩

def minusMessage : Message where
  line := cstr "POST /cgi_bin/math_cgi HTTP/1.0"
  headers := [cstr "Host: a", cstr "Content-Length: 31"]
  body := cstr "data1=12&operation=sub&data2=-5\r\n"
  line_plain := by decide
  line_fits := by decide
  header_line := by decide

theorem asks_minus : Asks calculation.stat (root ++ cstr "/cgi_bin/math_cgi") minusMessage
    (cstr "sub") 12 (-5) 17 where
  operands := by
    have hreq : requestOf minusMessage.line =
        some ⟨cstr "POST",cstr "/cgi_bin/math_cgi",[],true⟩ := rfl
    have hvalue : lengthValue minusMessage.headers = some (cstr " 31") := rfl
    have hsub : minusMessage.Submits calculation.stat (root ++ cstr "/cgi_bin/math_cgi")
        (formNames.query (cstr "12") (cstr "sub") (cstr "-5")) :=
      .post hreq (by decide) rfl hvalue rfl (by decide) ⟨cstr "\r\n",rfl⟩
    exact ⟨formNames,_,_,hsub,rfl,rfl,.sub (.inr (by decide))⟩
  operator := by decide
  fits := by decide

theorem result_of_apart_17 : ∃ s, Reaches (live calculation.programs) Apart
    (listening ⟨none,none,none⟩,()) (s,()) ∧
      s.received 0 = resultPage (cstr "sub") 12 (-5) 17 := by
  obtain ⟨x,-,hprogram,hx⟩ := outcome_of_asks (fun _ _ => rfl) asks_minus ⟨none,none,none⟩ 5
  rw [if_pos (by decide +kernel)] at hx
  have hserve : calculation.programs.serve ⟨⟨none,none,none⟩,()⟩ ⟨5,(),minusMessage.stream⟩ =
      some (⟨x.env,()⟩,x) := by
    have hsite : calculation.programs.at () () = calculation := rfl
    simp only [Programs.serve, hsite, hx, after_programs, Option.bind_eq_bind, Option.bind_some]
    rfl
  obtain ⟨s,h,hconns,hrequest,hclosed⟩ := reaches_alone hserve hprogram
  refine ⟨s,h,result_of_apart (fun _ _ _ _ => rfl) h ?_ (not_exists.mpr hclosed) hrequest
    asks_minus⟩
  rw [hconns]
  exact Nat.zero_lt_one

end Clients

end LibeventHttpd.MathCgi
