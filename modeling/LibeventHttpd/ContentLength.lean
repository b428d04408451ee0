import LibeventHttpd.GetLine

/-! The search for the length of the body among the header lines. -/
namespace LibeventHttpd

/-- The result of `GetContentLength`: the number returned, the text it puts into the environment
as `CONTENT_LENGTH`, if any, and the bytes left unread. -/
structure ContentLength where
  contLen : ℤ
  env : Option (List CChar)
  sock : Stream

/-- The arrays `tmp` and `content_length` have `_SIZE_/2` cells; a longer text is a store outside
them and gives `none`. -/
def getContentLengthFrom : ℕ → Stream → Option ContentLength
  | 0,sock => some ⟨0,none,sock⟩
  | fuel+1,sock =>
    let (buf,sock) := getLine 10240 sock
    if buf.length > 0 then
      if strncmp 15 (text buf) (cstr "Content-Length:") = 0 then
        let tmp := (text buf).drop 15
        if (cstr "CONTENT_LENGTH=" ++ tmp).length < 10240/2 then some ⟨atoi tmp,some tmp,sock⟩
        else none
      else getContentLengthFrom fuel sock
    else some ⟨0,none,sock⟩

/-- Every turn takes a byte from the socket, which bounds the turns. -/
def getContentLength (sock : Stream) : Option ContentLength :=
  getContentLengthFrom (sock.length+1) sock

theorem getContentLengthFrom_fuel {f g : ℕ} {s : Stream} (hf : s.length+1 ≤ f)
    (hg : s.length+1 ≤ g) : getContentLengthFrom f s = getContentLengthFrom g s := by
  induction f generalizing g s with
  | zero => omega
  | succ f ih =>
    obtain ⟨g,rfl⟩ : ∃ k, g = k+1 := ⟨g-1,by omega⟩
    rw [getContentLengthFrom, getContentLengthFrom]
    rcases eq_or_ne s [] with rfl | hs
    · rfl
    · have hlt := lineFrom_length_lt 10239 hs
      have hrec : getContentLengthFrom f (getLine 10240 s).2 =
          getContentLengthFrom g (getLine 10240 s).2 :=
        ih (show (lineFrom 10239 s).2.length+1 ≤ f by omega)
          (show (lineFrom 10239 s).2.length+1 ≤ g by omega)
      generalize getLine 10240 s = line at hrec ⊢
      simp only [hrec]

/-- The name of the header `GetContentLength` looks for. -/
def lengthName : List CChar := cstr "Content-Length:"

theorem text_of_nul_notMem {s : List CChar} (h : 0 ∉ s) : text s = s := by
  rw [text, List.takeWhile_eq_self_iff]
  intro c hc
  exact decide_eq_true fun h0 => h (h0 ▸ hc)

/-- The comparison with the name is a test for a prefix. -/
theorem strncmp_lengthName {s : List CChar} (h : 0 ∉ s) :
    strncmp 15 s lengthName = 0 ↔ lengthName <+: s := by
  rw [strncmp_eq_zero h (by decide), List.prefix_iff_eq_take]
  exact eq_comm

theorem text_append {s : List CChar} (h : 0 ∉ s) (t : List CChar) : text (s ++ t) = s ++ text t :=
  List.takeWhile_append_of_pos fun _ hc => decide_eq_true fun h0 => h (h0 ▸ hc)

section Lines
variable {h : List CChar} (hh : ∀ c ∈ h, Plain c) (hl : h.length < 10239)

/-- What follows the name in a line does not matter, a NUL included. -/
theorem lengthName_prefix_line : lengthName <+: text (h ++ [ch '\n']) ↔ lengthName <+: h := by
  constructor
  · intro hpre
    have hline := hpre.trans (List.takeWhile_prefix _)
    rw [List.prefix_concat_iff] at hline
    refine hline.resolve_left fun he => ?_
    have hm : ch '\n' ∈ lengthName := by simp [he]
    exact absurd hm (by decide)
  · rintro ⟨v,rfl⟩
    rw [List.append_assoc, text_append (by decide)]
    exact List.prefix_append _ _

include hh hl in
/-- What the loop does with one line. -/
theorem getContentLength_line (s : Stream) :
    getContentLength (h ++ (crlf ++ s)) =
      if lengthName <+: h then
        let tmp := (text (h ++ [ch '\n'])).drop 15
        if (cstr "CONTENT_LENGTH=" ++ tmp).length < 10240/2 then some ⟨atoi tmp,some tmp,s⟩
        else none
      else getContentLength s := by
  have hpos : (h ++ [ch '\n']).length > 0 := by simp
  have hline : getLine 10240 (h ++ (crlf ++ s)) = (h ++ [ch '\n'],s) := lineFrom_short hh hl s
  have hfuel : getContentLengthFrom (h ++ (crlf ++ s)).length s = getContentLength s :=
    getContentLengthFrom_fuel (by simp [crlf, cstr]; omega) le_rfl
  have hiff := (strncmp_lengthName (text_notMem _)).trans (lengthName_prefix_line (h := h))
  rw [getContentLength, getContentLengthFrom, hline]
  simp only [hpos, if_true, hfuel]
  rw [lengthName] at hiff ⊢
  simp only [hiff]

end Lines

/-- Lines that do not name the length are passed over. -/
theorem getContentLength_skip {hs : List (List CChar)}
    (hh : ∀ h ∈ hs, (∀ c ∈ h, Plain c) ∧ h.length < 10239 ∧ ¬lengthName <+: h) (s : Stream) :
    getContentLength (lines hs ++ s) = getContentLength s := by
  induction hs with
  | nil => rfl
  | cons h hs ih =>
    obtain ⟨hplain,hl,hn⟩ := hh h (by simp)
    rw [lines_cons, getContentLength_line hplain hl, if_neg hn,
      ih fun g hg => hh g (by simp [hg])]

/-- The decimal `n` between blanks. -/
def Decimal (v : List CChar) (n : ℕ) : Prop :=
  ∃ before ds after, v = before ++ ds ++ after ∧ (∀ c ∈ before, IsSpace c) ∧
    ds ≠ [] ∧ Digits ds ∧ number ds = n ∧ ∀ c ∈ after, IsSpace c

theorem takeWhile_append_stop {α : Type*} {p : α → Bool} {xs ys : List α} (hx : ∀ x ∈ xs, p x)
    (hy : ∀ y ∈ ys.head?, ¬p y) : (xs ++ ys).takeWhile p = xs := by
  rw [List.takeWhile_append_of_pos hx]
  cases ys with
  | nil => simp
  | cons y ys => simp [hy y rfl]

/-- `atoi` reads a decimal that fits an `int`, whatever follows it. -/
theorem atoi_decimal {v : List CChar} {n : ℕ} (hv : Decimal v n) (hn : n < 2^31)
    {rest : List CChar} (hrest : ∀ c ∈ rest.head?, ¬IsDigit c) : atoi (v ++ rest) = n := by
  obtain ⟨before,ds,after,rfl,hb,hne,hds,rfl,ha⟩ := hv
  obtain ⟨c,t,rfl⟩ := List.exists_cons_of_ne_nil hne
  have hc := ((digits_cons c t).mp hds).1
  have hskip : (before ++ c::t ++ after ++ rest).dropWhile (fun c => IsSpace c) =
      c::t ++ (after ++ rest) := by
    rw [List.append_assoc, List.append_assoc,
      List.dropWhile_append_of_pos fun x hx => decide_eq_true (hb x hx), List.cons_append,
      List.dropWhile_cons_of_neg (by simpa using not_isSpace_of_isDigit hc)]
  have hp : c ≠ ch '+' := fun he => not_isDigit_plus (he ▸ hc)
  have hm : c ≠ ch '-' := fun he => not_isDigit_minus (he ▸ hc)
  have hstop : ∀ y ∈ (after ++ rest).head?, ¬decide (IsDigit y) = true := by
    intro y hy
    rw [decide_eq_true_iff]
    cases after with
    | nil => exact hrest y hy
    | cons a after =>
      obtain rfl : a = y := by simpa using hy
      exact fun hd => not_isSpace_of_isDigit hd (ha a (by simp))
  have htake := takeWhile_append_stop (p := fun c => decide (IsDigit c))
    (fun x hx => decide_eq_true (hds x hx)) hstop
  unfold atoi
  rw [hskip]
  simp only [List.cons_append, List.head?_cons, Option.some.injEq, hm, hp, or_self, if_false]
  rw [← List.cons_append, htake, min_eq_left (by omega), Int.bmod_eq_of_le_mul_two] <;>
    push_cast <;> omega

end LibeventHttpd
