import LibeventHttpd.GetLine

/-! Calls of `get_line` one after the other on one socket: which bytes reach the callers. -/
namespace LibeventHttpd

/-- Every CR stands immediately before a LF. -/
def CrBeforeLf : Stream → Prop
  | [] => True
  | c::s => (c = ch '\r' → s.head? = some (ch '\n')) ∧ CrBeforeLf s

instance : DecidablePred CrBeforeLf := fun s => by
  induction s with
  | nil => exact instDecidableTrue
  | cons c s ih => exact inferInstanceAs (Decidable ((_ → _) ∧ CrBeforeLf s))

/-- CRLF replaced by LF. -/
def unixEnds : Stream → Stream
  | [] => []
  | c::s => if c = ch '\r' ∧ s.head? = some (ch '\n') then unixEnds s else c::unixEnds s

/-- Calls with the given buffer sizes: the stored characters of all of them, and what is left. -/
def getLines : List ℕ → Stream → List CChar × Stream
  | [],sock => ([],sock)
  | size::sizes,sock =>
    let (buf,sock) := getLine size sock
    let (bufs,sock) := getLines sizes sock
    (buf ++ bufs,sock)

/-- What the calls store, with what is left unread, is the stream, up to the spelling of line
ends. -/
def Conserves (sizes : List ℕ) (sock : Stream) : Prop :=
  (getLines sizes sock).1 ++ unixEnds (getLines sizes sock).2 = unixEnds sock

/-- The line goes on when the room is used up, and not with the CR of its end. -/
def Overruns (room : ℕ) (sock : Stream) : Prop :=
  (∀ c ∈ sock.take room, Plain c) ∧ room < sock.length ∧ sock[room]? ≠ some (ch '\r')

instance (room : ℕ) (sock : Stream) : Decidable (Overruns room sock) :=
  inferInstanceAs (Decidable (_ ∧ _))

/-- No call meets a line that overruns its buffer. -/
def LinesFit : List ℕ → Stream → Prop
  | [],_ => True
  | size::sizes,sock => ¬Overruns (size-1) sock ∧ LinesFit sizes (getLine size sock).2

section OneCall
variable {c : CChar} {s : Stream}

theorem unixEnds_cons (h : c ≠ ch '\r') : unixEnds (c::s) = c::unixEnds s :=
  if_neg fun hc => h hc.1

theorem unixEnds_crlf (h : s.head? = some (ch '\n')) : unixEnds (ch '\r'::s) = unixEnds s :=
  if_pos ⟨rfl,h⟩

theorem not_overruns_nil (room : ℕ) : ¬Overruns room [] := by
  rintro ⟨-,hlt,-⟩
  exact absurd hlt (Nat.not_lt_zero _)

theorem overruns_zero : Overruns 0 (c::s) ↔ c ≠ ch '\r' := by simp [Overruns]

theorem overruns_succ (room : ℕ) : Overruns (room+1) (c::s) ↔ Plain c ∧ Overruns room s := by
  simp [Overruns, and_assoc]

/-- The call takes the CR of a line end on the way to its LF. -/
theorem lineFrom_cr (room : ℕ) (h : s.head? = some (ch '\n')) :
    lineFrom (room+1) (ch '\r'::s) = ([ch '\n'],s.tail) := by
  obtain ⟨t,rfl⟩ := List.head?_eq_some_iff.mp h
  exact lineFrom_crlf room t

theorem lineFrom_lf (room : ℕ) : lineFrom (room+1) (ch '\n'::s) = ([ch '\n'],s) := by
  have h : ch '\n' ≠ ch '\r' := by decide
  simp [lineFrom, h]

/-- What a call leaves unread keeps the discipline of line ends. -/
theorem lineFrom_crBeforeLf (room : ℕ) (h : CrBeforeLf s) : CrBeforeLf (lineFrom room s).2 := by
  induction s generalizing room with
  | nil => cases room <;> exact h
  | cons c s ih =>
    cases room with
    | zero => exact h.2
    | succ room =>
      by_cases hcr : c = ch '\r'
      · subst hcr
        rw [lineFrom_cr room (h.1 rfl)]
        obtain ⟨t,rfl⟩ := List.head?_eq_some_iff.mp (h.1 rfl)
        exact h.2.2
      · by_cases hlf : c = ch '\n'
        · subst hlf
          rw [lineFrom_lf]
          exact h.2
        · rw [lineFrom_plain ⟨hcr,hlf⟩]
          exact ih room h.2

/-- A call loses no byte, or the one it received without room for it. -/
theorem lineFrom_conserves (room : ℕ) (h : CrBeforeLf s) :
    (¬Overruns room s ∧ (lineFrom room s).1 ++ unixEnds (lineFrom room s).2 = unixEnds s) ∨
    (Overruns room s ∧
      (lineFrom room s).1.length+(unixEnds (lineFrom room s).2).length < (unixEnds s).length) := by
  induction s generalizing room with
  | nil =>
    left
    cases room <;> exact ⟨not_overruns_nil _,rfl⟩
  | cons c s ih =>
    cases room with
    | zero =>
      rw [overruns_zero]
      by_cases hcr : c = ch '\r'
      · subst hcr
        left
        exact ⟨not_not.mpr rfl,(unixEnds_crlf (h.1 rfl)).symm⟩
      · right
        refine ⟨hcr,?_⟩
        rw [unixEnds_cons hcr]
        simp [lineFrom]
    | succ room =>
      rw [overruns_succ]
      by_cases hcr : c = ch '\r'
      · subst hcr
        left
        refine ⟨fun ho => ho.1.1 rfl,?_⟩
        rw [lineFrom_cr room (h.1 rfl), unixEnds_crlf (h.1 rfl)]
        obtain ⟨t,rfl⟩ := List.head?_eq_some_iff.mp (h.1 rfl)
        exact (unixEnds_cons (by decide)).symm
      · rw [unixEnds_cons hcr]
        by_cases hlf : c = ch '\n'
        · subst hlf
          left
          refine ⟨fun ho => ho.1.2 rfl,?_⟩
          rw [lineFrom_lf]
          rfl
        · rw [lineFrom_plain ⟨hcr,hlf⟩]
          cases ih room h.2 with
          | inl hkept =>
            left
            refine ⟨fun ho => hkept.1 ho.2,?_⟩
            rw [List.cons_append, hkept.2]
          | inr hlost =>
            right
            refine ⟨⟨⟨hcr,hlf⟩,hlost.1⟩,?_⟩
            have hlt := hlost.2
            simp only [List.length_cons]
            omega

end OneCall

/-- No sequence of calls makes bytes up. -/
theorem getLines_length_le (sizes : List ℕ) {s : Stream} (h : CrBeforeLf s) :
    (getLines sizes s).1.length+(unixEnds (getLines sizes s).2).length ≤ (unixEnds s).length := by
  induction sizes generalizing s with
  | nil => simp [getLines]
  | cons size sizes ih =>
    have hrest := ih (lineFrom_crBeforeLf (size-1) h)
    simp only [getLines, getLine, List.length_append]
    cases lineFrom_conserves (size-1) h with
    | inl hkept =>
      have hlen := congrArg List.length hkept.2
      rw [List.length_append] at hlen
      omega
    | inr hlost => omega

/-- The bytes of a stream all reach the callers, or stay unread, exactly if no call meets a line
that overruns its buffer. -/
theorem conserves_iff {s : Stream} (h : CrBeforeLf s) (sizes : List ℕ) :
    Conserves sizes s ↔ LinesFit sizes s := by
  induction sizes generalizing s with
  | nil => exact iff_of_true rfl trivial
  | cons size sizes ih =>
    have hnext := lineFrom_crBeforeLf (size-1) h
    rw [LinesFit, getLine, ← ih hnext]
    simp only [Conserves, getLines, getLine]
    cases lineFrom_conserves (size-1) h with
    | inl hkept =>
      rw [← hkept.2, List.append_assoc, List.append_cancel_left_eq]
      exact (and_iff_right hkept.1).symm
    | inr hlost =>
      refine iff_of_false (fun he => ?_) fun hfit => hfit.1 hlost.1
      have hlen := congrArg List.length he
      have hrest := getLines_length_le sizes hnext
      simp only [List.length_append] at hlen
      omega

theorem conserves_hello : Conserves [4, 4, 4] (cstr "GET\r\n/a\n") :=
  (conserves_iff (by decide) _).mpr ⟨by decide,by decide,by decide,trivial⟩

/-- The byte that finds no room is in no string and not on the socket. -/
theorem not_conserves_ab : CrBeforeLf (cstr "abc") ∧ ¬Conserves [2, 2] (cstr "abc") := by
  refine ⟨by decide,fun h => ?_⟩
  have hlen := congrArg List.length h
  exact absurd hlen (by decide)

end LibeventHttpd
