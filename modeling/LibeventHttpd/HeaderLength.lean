import LibeventHttpd.ContentLength

/-! What `GetContentLength` finds in a header block, and how far it reads. -/
namespace LibeventHttpd

/-- The integer a text begins with, as `atoi` would read it without limits; zero if there is
none. -/
def integerIn (s : List CChar) : ℤ :=
  let s := s.dropWhile (fun c => IsSpace c)
  let digits := if s.head? = some (ch '-') ∨ s.head? = some (ch '+') then s.tail else s
  let n : ℤ := number (digits.takeWhile (fun c => IsDigit c))
  if s.head? = some (ch '-') then -n else n

/-- The text of the first header line with a length. -/
def lengthValue (hs : List (List CChar)) : Option (List CChar) :=
  (hs.find? fun h => lengthName <+: h).map fun h => text (h.drop 15)

/-- The number in that header, and zero without one. -/
def announcedLength (hs : List (List CChar)) : ℤ := ((lengthValue hs).map integerIn).getD 0

/-- The number is returned, and what stays unread begins in the header block. -/
def ReadsHeader (hs : List (List CChar)) (body : Stream) : Prop :=
  ∃ r unread, getContentLength (headerBlock hs ++ body) = some r ∧
    r.contLen = announcedLength hs ∧ r.sock = unread ++ body ∧ unread <:+ headerBlock hs

/-- A number that an `int` can hold, or no header with a length and no body. -/
def LengthReadable (hs : List (List CChar)) (body : Stream) : Prop :=
  (∀ v ∈ lengthValue hs, -2^31 ≤ integerIn v ∧ integerIn v < 2^31) ∧
    (lengthValue hs = none → body = [])

instance (hs : List (List CChar)) (body : Stream) : Decidable (LengthReadable hs body) :=
  inferInstanceAs (Decidable (_ ∧ _))

section Atoi

/-- `strtol` cuts the integer off at the bounds of `long`, and the low 32 bits are kept. -/
theorem atoi_eq (s : List CChar) :
    atoi s = (max (min (integerIn s) (2^63-1)) (-2^63)).bmod (2^32) := by
  unfold atoi integerIn
  simp only
  split_ifs <;> congr 1 <;> omega

/-- `atoi` gives the integer that a text begins with if an `int` can hold it, and only then. -/
theorem atoi_eq_integerIn_iff (s : List CChar) :
    atoi s = integerIn s ↔ -2^31 ≤ integerIn s ∧ integerIn s < 2^31 := by
  rw [atoi_eq]
  generalize integerIn s = n
  constructor
  · intro h
    have hlow : -((2^32 : ℕ)/2) ≤ (max (min n (2^63-1)) (-2^63)).bmod (2^32) :=
      Int.le_bmod (by decide)
    have hhigh : (max (min n (2^63-1)) (-2^63)).bmod (2^32) < ((2^32 : ℕ)+1)/2 :=
      Int.bmod_lt (by decide)
    rw [h] at hlow hhigh
    push_cast at hlow hhigh
    omega
  · rintro ⟨hlow,hhigh⟩
    rw [min_eq_left (by omega), max_eq_left (by omega), Int.bmod_eq_of_le_mul_two] <;>
      push_cast <;> omega

/-- A line end behind a text does not change the integer in it. -/
theorem integerIn_newline (s : List CChar) : integerIn (s ++ [ch '\n']) = integerIn s := by
  have hdigits (t : List CChar) : (t ++ [ch '\n']).takeWhile (fun c => IsDigit c) =
      t.takeWhile (fun c => IsDigit c) := by
    have hend : [ch '\n'].takeWhile (fun c => IsDigit c) = [] := by decide
    rw [List.takeWhile_append]
    split_ifs with hall
    · rw [hend, List.append_nil]
      exact ((List.takeWhile_prefix _).eq_of_length hall).symm
    · rfl
  unfold integerIn
  rw [List.dropWhile_append]
  cases s.dropWhile (fun c => IsSpace c) with
  | nil => rfl
  | cons c t =>
    have hcons := hdigits (c::t)
    rw [List.cons_append] at hcons
    have hsign (P : Prop) [Decidable P] :
        (if P then t ++ [ch '\n'] else c::(t ++ [ch '\n'])).takeWhile (fun c => IsDigit c) =
          (if P then t else c::t).takeWhile (fun c => IsDigit c) := by
      split_ifs
      · exact hdigits t
      · exact hcons
    simp only [List.isEmpty_cons, Bool.false_eq_true, if_false, List.cons_append, List.head?_cons,
      List.tail_cons, hsign]
    rfl

theorem atoi_newline (s : List CChar) : atoi (text (s ++ [ch '\n'])) = atoi (text s) := by
  by_cases h0 : 0 ∈ s
  · have hcut : text (s ++ [ch '\n']) = text s := by
      obtain ⟨before,after,rfl,hbefore⟩ := List.eq_append_cons_of_mem h0
      rw [List.append_assoc, text_append hbefore, text_append hbefore]
      simp [text]
    rw [hcut]
  · have hend : text [ch '\n'] = [ch '\n'] := by decide
    rw [text_append h0, hend, text_of_nul_notMem h0, atoi_eq, atoi_eq, integerIn_newline]

end Atoi

section Search

theorem getContentLengthFrom_sock_le {fuel : ℕ} {s : Stream} {r : ContentLength}
    (h : getContentLengthFrom fuel s = some r) : r.sock.length ≤ s.length := by
  induction fuel generalizing s with
  | zero =>
    obtain rfl := Option.some.inj h
    exact le_rfl
  | succ fuel ih =>
    have hle : (getLine 10240 s).2.length ≤ s.length := by
      rcases eq_or_ne s [] with rfl | hs
      · exact le_rfl
      · exact (lineFrom_length_lt 10239 hs).le
    simp only [getContentLengthFrom] at h
    split_ifs at h
    · obtain rfl := Option.some.inj h
      exact hle
    · exact (ih h).trans hle
    · obtain rfl := Option.some.inj h
      exact hle

/-- Something is always taken from a stream that has a byte. -/
theorem getContentLength_sock_lt {s : Stream} (hs : s ≠ []) {r : ContentLength}
    (h : getContentLength s = some r) : r.sock.length < s.length := by
  have hlt : (getLine 10240 s).2.length < s.length := lineFrom_length_lt 10239 hs
  simp only [getContentLength, getContentLengthFrom] at h
  split_ifs at h
  · obtain rfl := Option.some.inj h
    exact hlt
  · exact (getContentLengthFrom_sock_le h).trans_lt hlt
  · obtain rfl := Option.some.inj h
    exact hlt

variable {hs : List (List CChar)}

/-- Without a header with the length the search goes on in the body. -/
theorem getContentLength_block_none
    (hh : ∀ h ∈ hs, HeaderLine h ∧ h.length < 10239 ∧ (lengthName <+: h → h.length < 5119))
    (hnone : lengthValue hs = none) (body : Stream) :
    getContentLength (headerBlock hs ++ body) = getContentLength body := by
  have hno : ∀ h ∈ hs, ¬lengthName <+: h := by
    rw [lengthValue, Option.map_eq_none_iff, List.find?_eq_none] at hnone
    intro h hmem
    simpa using hnone h hmem
  have hempty : getContentLength ([] ++ (crlf ++ body)) = getContentLength body := by
    rw [getContentLength_line (by simp) (by simp), if_neg (by decide)]
  rw [headerBlock, List.append_assoc, getContentLength_skip]
  · exact hempty
  · intro h hmem
    obtain ⟨hline,hl,-⟩ := hh h hmem
    exact ⟨hline.2,hl,hno h hmem⟩

/-- The header lines from the first one with the length on. -/
theorem exists_lengthValue {v : List CChar} (hv : lengthValue hs = some v) :
    ∃ before w after, hs = before ++ (lengthName ++ w)::after ∧ v = text w ∧
      ∀ h ∈ before, ¬lengthName <+: h := by
  obtain ⟨h,hfind,rfl⟩ := Option.map_eq_some_iff.mp hv
  obtain ⟨hpre,before,after,rfl,hbefore⟩ := List.find?_eq_some_iff_append.mp hfind
  rw [decide_eq_true_iff] at hpre
  obtain ⟨w,rfl⟩ := hpre
  exact ⟨before,w,after,rfl,rfl,fun g hmem => by simpa using hbefore g hmem⟩

/-- The first header with the length ends the search. -/
theorem getContentLength_first {before : List (List CChar)} {w : List CChar}
    (hh : ∀ h ∈ before, (∀ c ∈ h, Plain c) ∧ h.length < 10239 ∧ ¬lengthName <+: h)
    (hline : ∀ c ∈ lengthName ++ w, Plain c) (hl : (lengthName ++ w).length < 5119)
    (after : List (List CChar)) (body : Stream) :
    getContentLength (headerBlock (before ++ (lengthName ++ w)::after) ++ body) =
      some ⟨atoi (text w),some (text (w ++ [ch '\n'])),headerBlock after ++ body⟩ := by
  have hlen : lengthName.length = 15 := rfl
  have htmp : (text (lengthName ++ w ++ [ch '\n'])).drop 15 = text (w ++ [ch '\n']) := by
    rw [List.append_assoc, text_append (by decide), ← hlen, List.drop_left]
  have hfit : (cstr "CONTENT_LENGTH=" ++ text (w ++ [ch '\n'])).length < 10240/2 := by
    have hname : (cstr "CONTENT_LENGTH=").length = 15 := rfl
    have htext : (text (w ++ [ch '\n'])).length ≤ (w ++ [ch '\n']).length :=
      (List.takeWhile_prefix _).length_le
    rw [List.length_append] at hl htext
    rw [List.length_append, hname]
    rw [List.length_singleton] at htext
    omega
  rw [headerBlock_split, getContentLength_skip hh, getContentLength_line hline (by omega),
    if_pos (List.prefix_append _ _)]
  simp only [htmp, hfit, if_true, atoi_newline]

theorem getContentLength_block_some
    (hh : ∀ h ∈ hs, HeaderLine h ∧ h.length < 10239 ∧ (lengthName <+: h → h.length < 5119))
    {v : List CChar} (hv : lengthValue hs = some v) (body : Stream) :
    ∃ env rest, rest <:+ headerBlock hs ∧
      getContentLength (headerBlock hs ++ body) = some ⟨atoi v,env,rest ++ body⟩ := by
  obtain ⟨before,w,after,rfl,rfl,hbefore⟩ := exists_lengthValue hv
  obtain ⟨hline,-,hshort⟩ := hh (lengthName ++ w) (by simp)
  have hrest : headerBlock after <:+ headerBlock (before ++ (lengthName ++ w)::after) := by
    have hblock := headerBlock_split before after (lengthName ++ w) []
    rw [List.append_nil, List.append_nil] at hblock
    rw [hblock]
    exact (List.suffix_append _ _).trans
      ((List.suffix_append _ _).trans (List.suffix_append _ _))
  refine ⟨_,headerBlock after,hrest,getContentLength_first (fun g hmem => ?_) hline.2
    (hshort (List.prefix_append _ _)) after body⟩
  obtain ⟨hplain,hg,-⟩ := hh g (by simp [hmem])
  exact ⟨hplain.2,hg,hbefore g hmem⟩

end Search

/-- `GetContentLength` keeps to a header block exactly if the block has a length in it that an `int`
can hold, or has none and nothing comes behind the block. -/
theorem readsHeader_iff {hs : List (List CChar)}
    (hh : ∀ h ∈ hs, HeaderLine h ∧ h.length < 10239 ∧ (lengthName <+: h → h.length < 5119))
    (body : Stream) : ReadsHeader hs body ↔ LengthReadable hs body := by
  cases hv : lengthValue hs with
  | some v =>
    obtain ⟨env,rest,hrest,hrun⟩ := getContentLength_block_some hh hv body
    have hlen : announcedLength hs = integerIn v := by simp [announcedLength, hv]
    have hread : LengthReadable hs body ↔ atoi v = integerIn v := by
      rw [atoi_eq_integerIn_iff]
      simp [LengthReadable, hv]
    rw [hread, ReadsHeader, hrun, hlen]
    constructor
    · rintro ⟨r,unread,hr,hcont,-⟩
      obtain rfl := Option.some.inj hr
      exact hcont
    · exact fun h => ⟨_,rest,rfl,h,rfl,hrest⟩
  | none =>
    have hlen : announcedLength hs = 0 := by simp [announcedLength, hv]
    have hread : LengthReadable hs body ↔ body = [] := by simp [LengthReadable, hv]
    rw [hread, ReadsHeader, getContentLength_block_none hh hv, hlen]
    constructor
    · rintro ⟨r,unread,hr,-,hsock,-⟩
      by_contra hbody
      have hlt := getContentLength_sock_lt hbody hr
      rw [hsock, List.length_append] at hlt
      omega
    · rintro rfl
      exact ⟨⟨0,none,[]⟩,[],rfl,rfl,rfl,List.nil_suffix⟩

theorem readsHeader_host :
    ReadsHeader [cstr "Host: a", cstr "Content-Length: 3"] (cstr "x=1") :=
  (readsHeader_iff (by decide) _).mpr (by decide)

/-- The length stands in the body, which is taken for more headers. -/
theorem not_readsHeader_body :
    (∀ h ∈ [cstr "Host: a"], HeaderLine h ∧ h.length < 10239 ∧ ¬lengthName <+: h) ∧
      ¬ReadsHeader [cstr "Host: a"] (cstr "Content-Length: 5\r\nhello") := by
  refine ⟨by decide,?_⟩
  rintro ⟨r,unread,hr,hcont,-⟩
  have hrun : getContentLength (headerBlock [cstr "Host: a"] ++
      cstr "Content-Length: 5\r\nhello") = some ⟨5,some (cstr " 5\n"),cstr "hello"⟩ := rfl
  rw [hrun] at hr
  obtain rfl := Option.some.inj hr
  exact absurd hcont (by decide)

end LibeventHttpd
