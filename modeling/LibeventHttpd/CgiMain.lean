import LibeventHttpd.ExecResponse

/-! `main` of the two programs, up to the call of `handle_data`. -/
namespace LibeventHttpd
open Cells

/-- `while(len)`. At the end of the input `read` stores nothing; a byte stored outside `buf`, and
`--len` at the smallest `int`, give `none`. -/
def readLoop (len : ℤ) (index : ℕ) (buf stdin : List CChar) : Option (List CChar) :=
  if len = 0 then some buf
  else if len ≤ -2^31 then none
  else
    match stdin with
    | [] => readLoop (len-1) (index+1) buf []
    | c::stdin => do
      let buf ← store buf index c
      readLoop (len-1) (index+1) buf stdin
termination_by (len+2^31).toNat

/-- The string given to `handle_data`, where `buf` has `bufSize` cells. A pointer that was never
assigned, and a string without an end, give `none`. -/
def mainOf (bufSize : ℕ) (env : Env) (stdin : List CChar) : Option (List CChar) := do
  let method ← env.method
  if strcaseeq method (cstr "GET") then return env.queryString.getD []
  else if strcaseeq method (cstr "POST") then
    let contentLength ← env.contentLength
    let buf ← readLoop (atoi contentLength) 0 (List.replicate bufSize 0) stdin
    if 0 ∈ buf then return text buf else none
  else none

/-- `main` of `math_cgi.c` -/
def MathCgi.main : Env → List CChar → Option (List CChar) := mainOf 1024

/-- `main` of `main_mysql.cpp` -/
def MySql.main : Env → List CChar → Option (List CChar) := mainOf 1024

section Read
variable {buf stdin : List CChar}

/-- A negative length is counted down until it is out of range. -/
theorem readLoop_neg {len : ℤ} (h : len < 0) (index : ℕ) : readLoop len index buf stdin = none := by
  fun_induction readLoop len index buf stdin with
  | case1 => omega
  | case2 => rfl
  | case3 len index buf hne hmin ih => exact ih (by omega)
  | case4 len index buf hne hmin c stdin ih =>
    cases hstore : store buf index c with
    | none => rfl
    | some buf' => exact ih buf' (by omega)

/-- A length that is not negative is the number of bytes stored, if there are as many. -/
theorem readLoop_natCast (n index : ℕ) :
    readLoop n index buf stdin = storeLoop buf index (stdin.take n) := by
  induction n generalizing index buf stdin with
  | zero =>
    rw [readLoop.eq_def, if_pos Nat.cast_zero, List.take_zero]
    rfl
  | succ n ih =>
    have hne : ((n+1 : ℕ) : ℤ) ≠ 0 := by omega
    have hmin : ¬((n+1 : ℕ) : ℤ) ≤ -2^31 := by omega
    have hpred : ((n+1 : ℕ) : ℤ)-1 = n := by omega
    rw [readLoop.eq_def, if_neg hne, if_neg hmin, hpred]
    cases stdin with
    | nil =>
      rw [List.take_nil]
      exact (ih (index+1)).trans (congrArg (storeLoop buf (index+1)) List.take_nil)
    | cons c stdin =>
      rw [List.take_succ_cons, storeLoop]
      exact Option.bind_congr fun buf' _ => ih (index+1)

theorem text_append_zeros (s : List CChar) (k : ℕ) : text (s ++ List.replicate k 0) = text s := by
  induction s with
  | nil =>
    cases k with
    | zero => rfl
    | succ k => exact text_nul _
  | cons c s ih =>
    by_cases hc : c = 0
    · rw [hc, List.cons_append, text_nul, text_nul]
    · rw [List.cons_append, text_cons hc, text_cons hc, ih]

/-- The bytes read need room, and a NUL behind or among them. -/
def FitsBuf (bufSize : ℕ) (data : List CChar) : Prop :=
  data.length < bufSize ∨ data.length = bufSize ∧ 0 ∈ data

instance (bufSize : ℕ) (data : List CChar) : Decidable (FitsBuf bufSize data) :=
  inferInstanceAs (Decidable (_ ∨ _))

/-- The string in a cleared array after the bytes are stored. -/
theorem storeLoop_text (bufSize : ℕ) (data : List CChar) :
    ((storeLoop (List.replicate bufSize 0) 0 data).bind fun buf =>
      if 0 ∈ buf then some (text buf) else none) =
      if FitsBuf bufSize data then some (text data) else none := by
  have hstore := storeLoop_eq [] data bufSize
  rw [List.length_nil, List.nil_append, List.nil_append] at hstore
  rw [hstore]
  rcases lt_trichotomy data.length bufSize with hlt | heq | hgt
  · have hzero : 0 ∈ data ++ List.replicate (bufSize-data.length) 0 := by
      apply List.mem_append_right
      exact List.mem_replicate.mpr ⟨by omega,rfl⟩
    rw [if_pos hlt.le, Option.bind_some, if_pos hzero, text_append_zeros, if_pos (.inl hlt)]
  · rw [if_pos heq.le, Option.bind_some, heq, Nat.sub_self, List.replicate_zero, List.append_nil]
    simp [FitsBuf, heq]
  · have hno : ¬FitsBuf bufSize data := by
      rintro (h | h)
      · omega
      · omega
    rw [if_neg (by omega), if_neg hno]
    rfl

theorem not_get_of_post {m : List CChar} (h : strcaseeq m (cstr "POST") = true) :
    ¬strcaseeq m (cstr "GET") = true := by
  intro hget
  rw [post_ne_get hget] at h
  cases h

/-- Without `CONTENT_LENGTH`, `POST` leaves `query_string` unassigned. -/
theorem mainOf_post_none {bufSize : ℕ} {env : Env} {m : List CChar} (hm : env.method = some m)
    (hpost : strcaseeq m (cstr "POST") = true) (hv : env.contentLength = none) :
    mainOf bufSize env stdin = none := by
  simp [mainOf, hm, not_get_of_post hpost, hv]

/-- What `POST` hands over where `CONTENT_LENGTH` is set. -/
theorem mainOf_post {bufSize : ℕ} {env : Env} {m v : List CChar} (hm : env.method = some m)
    (hpost : strcaseeq m (cstr "POST") = true) (hv : env.contentLength = some v) :
    mainOf bufSize env stdin =
      if 0 ≤ atoi v ∧ FitsBuf bufSize (stdin.take (atoi v).toNat) then
        some (text (stdin.take (atoi v).toNat))
      else none := by
  have hget := not_get_of_post hpost
  have hmain : mainOf bufSize env stdin =
      (readLoop (atoi v) 0 (List.replicate bufSize 0) stdin).bind fun buf =>
        if 0 ∈ buf then some (text buf) else none := by
    simp [mainOf, hm, hv, hget, hpost]
  rw [hmain, ite_and]
  by_cases hneg : atoi v < 0
  · rw [readLoop_neg hneg, if_neg (not_le.mpr hneg)]
    rfl
  · have hpos := not_lt.mp hneg
    obtain ⟨n,hn⟩ := Int.eq_ofNat_of_zero_le hpos
    rw [if_pos hpos, hn, readLoop_natCast, storeLoop_text, Int.toNat_natCast]

end Read

/-- A start of a program with a method it knows. -/
structure Started where
  env : Env
  stdin : List CChar
  method : List CChar
  method_eq : env.method = some method
  known : strcaseeq method (cstr "GET") = true ∨ strcaseeq method (cstr "POST") = true

/-- The form data a program is started with. -/
def Started.formData (s : Started) : List CChar :=
  if strcaseeq s.method (cstr "GET") then s.env.queryString.getD []
  else text (s.stdin.take (atoi (s.env.contentLength.getD [])).toNat)

/-- A length is set that is not negative, and the bytes read fit the buffer. -/
def Started.Readable (s : Started) : Prop :=
  strcaseeq s.method (cstr "GET") = true ∨
    ∃ v, s.env.contentLength = some v ∧ 0 ≤ atoi v ∧ FitsBuf 1024 (s.stdin.take (atoi v).toNat)

/-- The same form data sent by either method; more may follow on the input of `POST`. -/
structure SentTwice where
  data : List CChar
  nul_notMem : 0 ∉ data
  get : Started
  get_method : strcaseeq get.method (cstr "GET") = true
  get_query : get.env.queryString = some data
  post : Started
  post_method : strcaseeq post.method (cstr "POST") = true
  length : List CChar
  post_length : post.env.contentLength = some length
  length_eq : atoi length = data.length
  post_stdin : data <+: post.stdin

section Main

theorem mainOf_get {bufSize : ℕ} {env : Env} {m : List CChar} (hm : env.method = some m)
    (hget : strcaseeq m (cstr "GET") = true) (stdin : List CChar) :
    mainOf bufSize env stdin = some (env.queryString.getD []) := by
  simp [mainOf, hm, hget]

theorem mainOf_formData_iff (s : Started) :
    mainOf 1024 s.env s.stdin = some s.formData ↔ s.Readable := by
  rcases s.known with hget | hpost
  · rw [mainOf_get s.method_eq hget, Started.formData, if_pos hget]
    exact iff_of_true rfl (.inl hget)
  · have hget := not_get_of_post hpost
    rw [Started.Readable, or_iff_right hget, Started.formData, if_neg hget]
    cases hv : s.env.contentLength with
    | none =>
      rw [mainOf_post_none s.method_eq hpost hv]
      exact iff_of_false (by simp) (by simp)
    | some v =>
      rw [mainOf_post s.method_eq hpost hv, Option.getD_some]
      split_ifs with h
      · exact iff_of_true rfl ⟨v,rfl,h⟩
      · refine iff_of_false (by simp) ?_
        rintro ⟨v',hv',h'⟩
        obtain rfl := Option.some.inj hv'
        exact h h'

theorem SentTwice.post_take (f : SentTwice) :
    f.post.stdin.take (atoi f.length).toNat = f.data := by
  obtain ⟨rest,hrest⟩ := f.post_stdin
  rw [f.length_eq, Int.toNat_natCast, ← hrest, List.take_left]

theorem SentTwice.post_formData (f : SentTwice) : f.post.formData = f.data := by
  rw [Started.formData, if_neg (not_get_of_post f.post_method), f.post_length, Option.getD_some,
    f.post_take, text_of_nul_notMem f.nul_notMem]

theorem SentTwice.post_readable_iff (f : SentTwice) :
    f.post.Readable ↔ f.data.length < 1024 := by
  have hnonneg : 0 ≤ atoi f.length := by
    rw [f.length_eq]
    exact Int.natCast_nonneg _
  rw [Started.Readable, or_iff_right (not_get_of_post f.post_method), f.post_length]
  constructor
  · rintro ⟨v,hv,-,hfit⟩
    obtain rfl := Option.some.inj hv
    rw [f.post_take] at hfit
    exact hfit.resolve_right fun h => f.nul_notMem h.2
  · intro hlt
    refine ⟨_,rfl,hnonneg,?_⟩
    rw [f.post_take]
    exact .inl hlt

/-- Both programs read their form data exactly if it is readable, and find the same in either
method exactly if it leaves room for a NUL. -/
theorem main_iff (s : Started) (f : SentTwice) :
    (MathCgi.main s.env s.stdin = some s.formData ∧
        MySql.main s.env s.stdin = some s.formData ↔ s.Readable) ∧
      (MathCgi.main f.post.env f.post.stdin = MathCgi.main f.get.env f.get.stdin ∧
          MySql.main f.post.env f.post.stdin = MySql.main f.get.env f.get.stdin ↔
        f.data.length < 1024) := by
  have hget : mainOf 1024 f.get.env f.get.stdin = some f.post.formData := by
    rw [mainOf_get f.get.method_eq f.get_method, f.get_query, f.post_formData]
    rfl
  rw [MathCgi.main, MySql.main, and_self_iff, and_self_iff, hget, ← f.post_readable_iff]
  exact ⟨mainOf_formData_iff s,mainOf_formData_iff f.post⟩

theorem strcaseeq_get : strcaseeq (cstr "GET") (cstr "GET") = true := strcaseeq_self _
theorem strcaseeq_post : strcaseeq (cstr "POST") (cstr "POST") = true := strcaseeq_self _

/-- The form of the calculator sent twice. -/
def sentMath : SentTwice where
  data := cstr "data1=1&operation=add&data2=2"
  nul_notMem := by decide
  get := ⟨⟨some (cstr "GET"),some (cstr "data1=1&operation=add&data2=2"),none⟩,[],cstr "GET",rfl,
    .inl strcaseeq_get⟩
  get_method := strcaseeq_get
  get_query := rfl
  post := ⟨⟨some (cstr "POST"),some [],some (cstr "29")⟩,cstr "data1=1&operation=add&data2=2",
    cstr "POST",rfl,.inr strcaseeq_post⟩
  post_method := strcaseeq_post
  length := cstr "29"
  post_length := rfl
  length_eq := by decide
  post_stdin := List.prefix_refl _

theorem main_sentMath : MathCgi.main sentMath.post.env sentMath.post.stdin =
    MathCgi.main sentMath.get.env sentMath.get.stdin :=
  ((main_iff sentMath.post sentMath).2.mpr (by decide)).1

/-- `POST` without a length, where `GET` without a query hands over an empty string. -/
theorem main_without_length :
    ¬∀ s : Started, MathCgi.main s.env s.stdin = some s.formData := by
  intro h
  have hnone := h ⟨⟨some (cstr "POST"),none,none⟩,[],cstr "POST",rfl,.inr strcaseeq_post⟩
  rw [MathCgi.main, mainOf_post_none rfl strcaseeq_post rfl] at hnone
  cases hnone

end Main
end LibeventHttpd
