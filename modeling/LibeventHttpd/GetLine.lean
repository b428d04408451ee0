import LibeventHttpd.CChar
import Mathlib.Data.List.TakeWhile

/-! Reading lines from a socket, and skipping a header block with `clear_head`. -/
namespace LibeventHttpd

/-- The bytes a client still has to send before it closes its side. -/
abbrev Stream := List CChar

/-- The loop of `get_line` with `room` cells left: what it stores and what stays unread. A byte is
received before the room is tested, so the one that finds no room is lost. -/
def lineFrom : ℕ → Stream → List CChar × Stream
  | _,[] => ([],[])
  | 0,_::rest => ([],rest)
  | room+1,c::rest =>
    if c = ch '\r' then
      match rest with
      | [] => ([c],[])
      | peeked::_ =>
        if peeked = ch '\n' then lineFrom (room+1) rest
        else
          -- `MSG_PEEK` has put the next byte in the place of the CR
          let (buf,unread) := lineFrom room rest
          (peeked::buf,unread)
    else if c = ch '\n' then ([c],rest)
    else
      let (buf,unread) := lineFrom room rest
      (c::buf,unread)

/-- The characters stored before the zeros of the buffer, and the bytes left unread. -/
def getLine (size : ℕ) (sock : Stream) : List CChar × Stream := lineFrom (size-1) sock

/-- The C string a buffer holds. -/
def text (buf : List CChar) : List CChar := buf.takeWhile (· ≠ 0)

/-- `while((strcmp(buf, "\n") != 0) && ret > 0)` -/
def clearHeadFrom : ℕ → List CChar → ℕ → Stream → Stream
  | 0,_,_,sock => sock
  | fuel+1,buf,ret,sock =>
    if strcmp (text buf) (cstr "\n") ≠ 0 ∧ ret > 0 then
      let (buf,sock) := getLine 1024 sock
      clearHeadFrom fuel buf buf.length sock
    else sock

/-- Every turn but the last takes a byte from the socket, which bounds the turns. -/
def clearHead (sock : Stream) : Stream := clearHeadFrom (sock.length+2) [] 1 sock

def crlf : List CChar := cstr "\r\n"

/-- Lines with their line ends. -/
def lines (hs : List (List CChar)) : Stream := (hs.map (· ++ crlf)).flatten

/-- Header lines, then the empty line. -/
def headerBlock (hs : List (List CChar)) : Stream := lines hs ++ crlf

/-- A character that does not end or begin a line end. -/
def Plain (c : CChar) : Prop := c ≠ ch '\r' ∧ c ≠ ch '\n'

instance : DecidablePred Plain :=
  fun c => inferInstanceAs (Decidable (c ≠ ch '\r' ∧ c ≠ ch '\n'))

section Lines

theorem lineFrom_plain {c : CChar} (hc : Plain c) (room : ℕ) (s : Stream) :
    lineFrom (room+1) (c::s) = (c::(lineFrom room s).1,(lineFrom room s).2) := by
  simp [lineFrom, hc.1, hc.2]

theorem lineFrom_crlf (room : ℕ) (s : Stream) :
    lineFrom (room+1) (crlf ++ s) = ([ch '\n'],s) := by
  have h : ch '\n' ≠ ch '\r' := by decide
  change lineFrom (room+1) (ch '\r'::ch '\n'::s) = _
  simp [lineFrom, h]

/-- A line with room for its end is read whole. -/
theorem lineFrom_short {h : List CChar} (hh : ∀ c ∈ h, Plain c) {room : ℕ} (hl : h.length < room)
    (s : Stream) : lineFrom room (h ++ (crlf ++ s)) = (h ++ [ch '\n'],s) := by
  induction h generalizing room with
  | nil =>
    obtain ⟨k,rfl⟩ : ∃ k, room = k+1 := ⟨room-1,by simp at hl; omega⟩
    exact lineFrom_crlf k s
  | cons c h ih =>
    rw [List.length_cons] at hl
    obtain ⟨k,rfl⟩ : ∃ k, room = k+1 := ⟨room-1,by omega⟩
    have hi := ih (fun d hd => hh d (by simp [hd])) (show h.length < k by omega)
    rw [List.cons_append, lineFrom_plain (hh c (by simp)), hi]
    rfl

/-- A line that fills the room is cut, and the byte after the cut is lost. -/
theorem lineFrom_full {h : List CChar} (hh : ∀ c ∈ h, Plain c) {room : ℕ} (hl : room ≤ h.length)
    (s : Stream) : lineFrom room (h ++ s) = (h.take room,(h ++ s).drop (room+1)) := by
  induction h generalizing room with
  | nil =>
    obtain rfl := Nat.le_zero.mp hl
    cases s <;> rfl
  | cons c h ih =>
    cases room with
    | zero => rfl
    | succ k =>
      have hi := ih (fun d hd => hh d (by simp [hd])) (Nat.le_of_succ_le_succ hl)
      rw [List.cons_append, lineFrom_plain (hh c (by simp)), hi]
      rfl

/-- Nothing is stored only at the end of the stream. -/
theorem lineFrom_eq_nil {room : ℕ} {s : Stream} (h : (lineFrom (room+1) s).1 = []) : s = [] := by
  induction s with
  | nil => rfl
  | cons c s ih =>
    cases s with
    | nil =>
      simp only [lineFrom] at h
      split_ifs at h
    | cons d s =>
      rw [lineFrom] at h
      split_ifs at h
      exact absurd (ih h) (by simp)

/-- A call takes at least one byte from a stream that has one. -/
theorem lineFrom_length_lt (room : ℕ) {s : Stream} (h : s ≠ []) :
    (lineFrom room s).2.length < s.length := by
  induction s generalizing room with
  | nil => exact absurd rfl h
  | cons c s ih =>
    have hle (room : ℕ) : (lineFrom room s).2.length ≤ s.length := by
      cases s with
      | nil => rfl
      | cons d s => exact (ih room (by simp)).le
    cases room with
    | zero => simp [lineFrom]
    | succ room =>
      cases s with
      | nil => simp only [lineFrom]; split_ifs <;> simp
      | cons d s =>
        rw [lineFrom, List.length_cons]
        split_ifs
        · exact Nat.lt_succ_of_le (hle _)
        · exact Nat.lt_succ_of_le (hle _)
        · exact Nat.lt_succ_self _
        · exact Nat.lt_succ_of_le (hle _)

end Lines

section ClearHead

/-- Fuel beyond the length of the stream changes nothing. -/
theorem clearHeadFrom_fuel {f g : ℕ} {buf : List CChar} {ret : ℕ} {s : Stream}
    (hf : s.length+2 ≤ f) (hg : s.length+2 ≤ g) :
    clearHeadFrom f buf ret s = clearHeadFrom g buf ret s := by
  induction f generalizing g buf ret s with
  | zero => omega
  | succ f ih =>
    obtain ⟨g,rfl⟩ : ∃ k, g = k+1 := ⟨g-1,by omega⟩
    rw [clearHeadFrom, clearHeadFrom]
    split_ifs
    · rcases eq_or_ne s [] with rfl | hs
      · -- the next call stores nothing, and the loop ends there
        obtain ⟨f,rfl⟩ : ∃ k, f = k+1 := ⟨f-1,by simp at hf; omega⟩
        obtain ⟨g,rfl⟩ : ∃ k, g = k+1 := ⟨g-1,by simp at hg; omega⟩
        simp [getLine, lineFrom, clearHeadFrom]
      · have hlt := lineFrom_length_lt 1023 hs
        exact ih (show (lineFrom 1023 s).2.length+2 ≤ f by omega)
          (show (lineFrom 1023 s).2.length+2 ≤ g by omega)
    · rfl

theorem text_cons {c : CChar} (hc : c ≠ 0) (s : List CChar) : text (c::s) = c::text s := by
  simp [text, hc]

theorem text_nul (s : List CChar) : text (0::s) = [] := by simp [text]

theorem text_notMem (buf : List CChar) : 0 ∉ text buf := by
  intro h
  have := List.mem_takeWhile_imp h
  simp at this

theorem strcmp_newline (buf : List CChar) :
    strcmp (text buf) (cstr "\n") = 0 ↔ text buf = cstr "\n" :=
  strcmp_eq_zero (text_notMem buf) (by decide)

/-- The loop of `clear_head`, one call of `get_line` at a time. -/
theorem clearHead_eq (s : Stream) :
    clearHead s = if s = [] ∨ text (getLine 1024 s).1 = cstr "\n" then (getLine 1024 s).2
      else clearHead (getLine 1024 s).2 := by
  have hfirst : strcmp (text []) (cstr "\n") ≠ 0 ∧ 1 > 0 := by decide
  rw [clearHead, clearHeadFrom, if_pos hfirst]
  rcases eq_or_ne s [] with rfl | hs
  · rw [if_pos (.inl rfl)]
    rfl
  · have hret : (getLine 1024 s).1.length > 0 :=
      List.length_pos_of_ne_nil (mt lineFrom_eq_nil hs)
    have hlt : (getLine 1024 s).2.length < s.length := lineFrom_length_lt 1023 hs
    simp only [hs, false_or]
    split_ifs with hn
    · rw [clearHeadFrom, if_neg fun h => h.1 ((strcmp_newline _).mpr hn)]
    · have hgo : strcmp (text (getLine 1024 s).1) (cstr "\n") ≠ 0 ∧
          (getLine 1024 s).1.length > 0 := ⟨mt (strcmp_newline _).mp hn,hret⟩
      rw [clearHead, clearHeadFrom_fuel (g := s.length+1) le_rfl (by omega), clearHeadFrom,
        clearHeadFrom, if_pos hgo, if_pos hfirst]

theorem text_newline_iff {h : List CChar} (hh : ∀ c ∈ h, Plain c) :
    text (h ++ [ch '\n']) = cstr "\n" ↔ h = [] := by
  cases h with
  | nil => exact iff_of_true rfl rfl
  | cons c h =>
    have hc := (hh c (by simp)).2
    refine iff_of_false (fun he => ?_) (by simp)
    rw [text, List.cons_append, List.takeWhile_cons] at he
    split_ifs at he
    · exact hc (List.cons.inj he).1
    · exact absurd he (by decide)

theorem text_plain_ne {h : List CChar} (hh : ∀ c ∈ h, Plain c) : text h ≠ cstr "\n" := by
  intro he
  have hm : ch '\n' ∈ text h := by simp [he, cstr]
  exact (hh _ ((List.takeWhile_sublist _).subset hm)).2 rfl

/-- The line lengths at which the cut of a line falls beside its end. -/
def CutAtEnd (h : List CChar) : Prop := h.length%1024 = 0 ∨ h.length%1024 = 1023

instance (h : List CChar) : Decidable (CutAtEnd h) :=
  inferInstanceAs (Decidable (h.length%1024 = 0 ∨ h.length%1024 = 1023))

/-- `clear_head` goes on after a line, except that it stops when a cut leaves nothing of the line
but its end. -/
theorem clearHead_line {h : List CChar} (hh : ∀ c ∈ h, Plain c) (s : Stream) :
    clearHead (h ++ (crlf ++ s)) = if CutAtEnd h then s else clearHead s := by
  have hne (h : List CChar) : h ++ (crlf ++ s) ≠ [] := by simp [crlf, cstr]
  induction hl : h.length using Nat.strong_induction_on generalizing h with
  | _ n ih =>
    rw [clearHead_eq, getLine]
    rcases Nat.lt_or_ge h.length 1023 with hlt | hge
    · rw [lineFrom_short hh hlt]
      simp only [hne, false_or, text_newline_iff hh]
      have hcut : CutAtEnd h ↔ h = [] := by
        rw [CutAtEnd, ← List.length_eq_zero_iff]
        omega
      simp only [hcut]
    · rw [lineFrom_full hh hge]
      have htake : text (h.take 1023) ≠ cstr "\n" :=
        text_plain_ne fun c hc => hh c (List.mem_of_mem_take hc)
      simp only [hne, false_or, htake, if_false]
      rcases Nat.eq_or_lt_of_le hge with he | hgt
      · -- the CR of the line end is lost, and the LF alone is read as an empty line
        have hdrop : (h ++ (crlf ++ s)).drop (1023+1) = ch '\n'::s := by
          rw [List.drop_append, List.drop_eq_nil_of_le (by omega), ← he]
          rfl
        have hlf : lineFrom (1024-1) (ch '\n'::s) = ([ch '\n'],s) := rfl
        rw [hdrop, if_pos (.inr (by rw [← he])), clearHead_eq, getLine, hlf, if_pos (.inr rfl)]
      · have hdrop : (h ++ (crlf ++ s)).drop (1023+1) = h.drop 1024 ++ (crlf ++ s) := by
          rw [List.drop_append_of_le_length (by omega)]
        have hcut : CutAtEnd (h.drop 1024) ↔ CutAtEnd h := by
          rw [CutAtEnd, CutAtEnd, List.length_drop]
          omega
        rw [hdrop, ih (h.drop 1024).length (by rw [List.length_drop]; omega)
          (fun c hc => hh c (List.mem_of_mem_drop hc)) rfl]
        simp only [hcut]

/-- A header line: not empty, and free of CR and LF. -/
def HeaderLine (h : List CChar) : Prop := h ≠ [] ∧ ∀ c ∈ h, Plain c

instance (h : List CChar) : Decidable (HeaderLine h) :=
  inferInstanceAs (Decidable (h ≠ [] ∧ ∀ c ∈ h, Plain c))

theorem lines_cons (h : List CChar) (hs : List (List CChar)) (s : Stream) :
    lines (h::hs) ++ s = h ++ (crlf ++ (lines hs ++ s)) := by simp [lines]

theorem headerBlock_cons (h : List CChar) (hs : List (List CChar)) (body : Stream) :
    headerBlock (h::hs) ++ body = h ++ (crlf ++ (headerBlock hs ++ body)) := by
  rw [headerBlock, List.append_assoc, lines_cons, headerBlock, List.append_assoc]

theorem headerBlock_split (hs1 hs2 : List (List CChar)) (h : List CChar) (body : Stream) :
    headerBlock (hs1 ++ h::hs2) ++ body =
      lines hs1 ++ (h ++ (crlf ++ (headerBlock hs2 ++ body))) := by
  simp [headerBlock, lines]

theorem headerBlock_length_pos (hs : List (List CChar)) : 0 < (headerBlock hs).length := by
  simp [headerBlock, crlf, cstr]

/-- Without such lines exactly the header block is taken. -/
theorem clearHead_headerBlock {hs : List (List CChar)}
    (hh : ∀ h ∈ hs, HeaderLine h ∧ ¬CutAtEnd h) (body : Stream) :
    clearHead (headerBlock hs ++ body) = body := by
  induction hs with
  | nil =>
    have h0 := clearHead_line (h := []) (by simp) body
    rwa [if_pos (.inl rfl)] at h0
  | cons h hs ih =>
    obtain ⟨hline,hcut⟩ := hh h (by simp)
    rw [headerBlock_cons, clearHead_line hline.2, if_neg hcut, ih fun g hg => hh g (by simp [hg])]

/-- With such a line the rest of the header block is left. -/
theorem clearHead_headerBlock_cut {hs : List (List CChar)} (hh : ∀ h ∈ hs, HeaderLine h)
    {h : List CChar} (hmem : h ∈ hs) (hcut : CutAtEnd h) (body : Stream) :
    ∃ rest, clearHead (headerBlock hs ++ body) = headerBlock rest ++ body := by
  induction hs with
  | nil => simp at hmem
  | cons g hs ih =>
    rw [headerBlock_cons, clearHead_line (hh g (by simp)).2]
    split_ifs with hg
    · exact ⟨hs,rfl⟩
    · refine ih (fun e he => hh e (by simp [he])) ?_
      rcases List.mem_cons.mp hmem with rfl | hmem
      · exact absurd hcut hg
      · exact hmem

/-- `clear_head` takes exactly the header block if and only if no line is cut beside its end. -/
theorem clearHead_headerBlock_iff {hs : List (List CChar)} (hh : ∀ h ∈ hs, HeaderLine h)
    (body : Stream) :
    clearHead (headerBlock hs ++ body) = body ↔ ∀ h ∈ hs, ¬CutAtEnd h := by
  constructor
  · intro he h hmem hcut
    obtain ⟨rest,hrest⟩ := clearHead_headerBlock_cut hh hmem hcut body
    have hlen := congrArg List.length (hrest.symm.trans he)
    have hpos := headerBlock_length_pos rest
    rw [List.length_append] at hlen
    omega
  · exact fun hn => clearHead_headerBlock (fun h hmem => ⟨hh h hmem,hn h hmem⟩) body

theorem clearHead_host :
    clearHead (headerBlock [cstr "Host: a", cstr "Accept: b"] ++ cstr "x=1") = cstr "x=1" :=
  (clearHead_headerBlock_iff (by decide) _).mpr (by decide)

/-- A line of 1023 characters: the next header is left for the reader of the body. -/
theorem clearHead_1023 :
    (∀ h ∈ [List.replicate 1023 (ch 'a'), cstr "Host: a"], HeaderLine h) ∧
      clearHead (headerBlock [List.replicate 1023 (ch 'a'), cstr "Host: a"] ++ cstr "x=1") ≠
        cstr "x=1" := by
  have hplain : ∀ c ∈ List.replicate 1023 (ch 'a'), Plain c := by
    intro c hc
    rw [List.eq_of_mem_replicate hc]
    decide
  constructor
  · intro h hh
    rcases List.mem_cons.mp hh with rfl | hh
    · refine ⟨List.ne_nil_of_length_pos ?_,hplain⟩
      rw [List.length_replicate]
      decide
    · rw [List.mem_singleton.mp hh]
      decide
  · have hcut : CutAtEnd (List.replicate 1023 (ch 'a')) := by
      rw [CutAtEnd, List.length_replicate]
      decide
    rw [headerBlock_cons, clearHead_line hplain, if_pos hcut]
    decide

end ClearHead
end LibeventHttpd
