import LibeventHttpd.Library.Cells
import LibeventHttpd.LineCalls

/-! `get_line` on the cells of its buffer, and the line it is to find there. -/
namespace LibeventHttpd
open Cells

/-- The loop with the cells of `buf`: what they hold in the end, the `index` that is returned, and
what stays unread. A store outside the buffer gives `none`. -/
def fillFrom (size : ℕ) (buf : List CChar) (index : ℕ) : Stream → Option (List CChar × ℕ × Stream)
  | [] => some (buf,index,[])
  | c::rest =>
    if index < size-1 then
      -- `MSG_PEEK` puts the next byte, if there is one, in the place of a CR
      let peeked := if c = ch '\r' then rest.headD c else c
      if c = ch '\r' ∧ peeked = ch '\n' then fillFrom size buf index rest
      else do
        let buf ← store buf index peeked
        if peeked = ch '\n' then return (buf,index+1,rest) else fillFrom size buf (index+1) rest
    else some (buf,index,rest)

/-- `get_line` after its `memset`. -/
def getLineCells (size : ℕ) (sock : Stream) : Option (List CChar × ℕ × Stream) :=
  fillFrom size (List.replicate size 0) 0 sock

/-- The stream up to and including its first LF. -/
def firstLine : Stream → Stream
  | [] => []
  | c::s => if c = ch '\n' then [c] else c::firstLine s

/-- The line a buffer is to get: without the CR of its end, and cut to the room there is. -/
def lineFor (size : ℕ) (sock : Stream) : List CChar := (unixEnds (firstLine sock)).take (size-1)

/-- The buffer holds that line and a NUL behind it, and its length is returned. -/
def ReadsLine (size : ℕ) (sock : Stream) : Prop :=
  ∃ rest unread, getLineCells size sock =
    some (lineFor size sock ++ 0::rest,(lineFor size sock).length,unread)

/-- A CR in front of a byte that is neither CR nor LF. -/
def LoneCr : Stream → Prop
  | c::d::_ => c = ch '\r' ∧ Plain d
  | _ => False

instance : DecidablePred LoneCr
  | [] => instDecidableFalse
  | [_] => instDecidableFalse
  | c::d::_ => inferInstanceAs (Decidable (c = ch '\r' ∧ Plain d))

/-- No such CR on the first line is among the first `room` bytes. -/
def NoLoneCr (room : ℕ) (sock : Stream) : Prop :=
  ∀ k < room, ch '\n' ∉ sock.take k → ¬LoneCr (sock.drop k)

instance (room : ℕ) (sock : Stream) : Decidable (NoLoneCr room sock) :=
  inferInstanceAs (Decidable (∀ k < room, _ → _))

section Cells

/-- The cells behind those that are filled get what `get_line` stores, in order. -/
theorem fillFrom_eq (done : List CChar) (room : ℕ) (s : Stream) :
    fillFrom (done.length+(room+1)) (done ++ List.replicate (room+1) 0) done.length s =
      some (done ++ (lineFrom room s).1 ++ List.replicate (room+1-(lineFrom room s).1.length) 0,
        done.length+(lineFrom room s).1.length,(lineFrom room s).2) := by
  induction s generalizing done room with
  | nil => cases room <;> simp [fillFrom, lineFrom]
  | cons c s ih =>
    cases room with
    | zero =>
      have hfull : ¬done.length < done.length+(0+1)-1 := by omega
      rw [fillFrom, if_neg hfull]
      simp [lineFrom]
    | succ room =>
      have hroom : done.length < done.length+(room+1+1)-1 := by omega
      have hstore (d : CChar) :
          store (done ++ List.replicate (room+1+1) 0) done.length d =
            some ((done ++ [d]) ++ List.replicate (room+1) 0) := by
        rw [List.replicate_succ, store_append _ rfl]
        simp
      have hnext (d : CChar) :
          fillFrom (done.length+(room+1+1)) (done ++ [d] ++ List.replicate (room+1) 0)
            (done.length+1) s =
            some (done ++ (d::(lineFrom room s).1) ++
                List.replicate (room+1+1-(d::(lineFrom room s).1).length) 0,
              done.length+(d::(lineFrom room s).1).length,(lineFrom room s).2) := by
        have h := ih (done ++ [d]) room
        have hsize : done.length+1+(room+1) = done.length+(room+1+1) := by omega
        rw [List.length_append, List.length_singleton, hsize] at h
        rw [h]
        simp
        omega
      rw [fillFrom, if_pos hroom]
      by_cases hcr : c = ch '\r'
      · subst hcr
        have hne : ch '\r' ≠ ch '\n' := by decide
        cases s with
        | nil => simpa [hstore, hne, lineFrom] using hnext (ch '\r')
        | cons d s =>
          by_cases hlf : d = ch '\n'
          · subst hlf
            simpa [lineFrom] using ih done (room+1)
          · simpa [hstore, hlf, lineFrom] using hnext d
      · by_cases hlf : c = ch '\n'
        · subst hlf
          simp [hstore, hcr, lineFrom]
        · simpa [hstore, hcr, hlf, lineFrom] using hnext c

/-- The list of the characters stored is what the buffer holds, with zeros behind it. -/
theorem getLineCells_eq {size : ℕ} (hsize : 2 ≤ size) (sock : Stream) :
    getLineCells size sock = some ((getLine size sock).1 ++
      List.replicate (size-(getLine size sock).1.length) 0,(getLine size sock).1.length,
        (getLine size sock).2) := by
  obtain ⟨room,rfl⟩ : ∃ room, size = room+1 := ⟨size-1,by omega⟩
  have h := fillFrom_eq [] room sock
  rw [List.length_nil, Nat.zero_add, List.nil_append, List.nil_append, Nat.zero_add] at h
  exact h

theorem lineFrom_length_le (room : ℕ) (s : Stream) : (lineFrom room s).1.length ≤ room := by
  induction s generalizing room with
  | nil => cases room <;> simp [lineFrom]
  | cons c s ih =>
    cases room with
    | zero => simp [lineFrom]
    | succ room =>
      cases s with
      | nil => simp only [lineFrom]; split_ifs <;> simp
      | cons d s =>
        rw [lineFrom]
        split_ifs
        · exact ih (room+1)
        · exact Nat.succ_le_succ (ih room)
        · simp
        · exact Nat.succ_le_succ (ih room)

end Cells

section Lines
variable {c d : CChar} {s : Stream} {room : ℕ}

theorem noLoneCr_zero (s : Stream) : NoLoneCr 0 s := fun k hk => absurd hk (Nat.not_lt_zero k)

theorem noLoneCr_cons : NoLoneCr (room+1) (c::s) ↔
    ¬LoneCr (c::s) ∧ (c ≠ ch '\n' → NoLoneCr room s) := by
  constructor
  · intro h
    refine ⟨h 0 (Nat.succ_pos room) (by simp),fun hlf k hk hline => ?_⟩
    exact h (k+1) (Nat.succ_lt_succ hk) (by simp [hline, Ne.symm hlf])
  · rintro ⟨hfirst,hrest⟩ k hk hline
    cases k with
    | zero => exact hfirst
    | succ k =>
      rw [List.take_succ_cons, List.mem_cons, not_or] at hline
      exact hrest (Ne.symm hline.1) k (Nat.lt_of_succ_lt_succ hk) hline.2

theorem not_loneCr (hc : c ≠ ch '\r') : ¬LoneCr (c::s) := by
  cases s with
  | nil => exact id
  | cons d s => exact fun h => hc h.1

theorem loneCr_iff : LoneCr (ch '\r'::d::s) ↔ Plain d := and_iff_right rfl

theorem lineFor_lf (room : ℕ) : (unixEnds (firstLine (ch '\n'::s))).take (room+1) = [ch '\n'] := by
  rw [firstLine, if_pos rfl, unixEnds_cons (by decide), List.take_succ_cons]
  simp [unixEnds]

/-- What is stored is the line it is to be, exactly as long as no CR stands alone in it. -/
theorem lineFrom_eq_iff (room : ℕ) (s : Stream) :
    (lineFrom room s).1 = (unixEnds (firstLine s)).take room ↔ NoLoneCr room s := by
  induction s generalizing room with
  | nil =>
    refine iff_of_true ?_ fun k _ _ h => ?_
    · cases room <;> rfl
    · simp [LoneCr] at h
  | cons c s ih =>
    cases room with
    | zero => exact iff_of_true rfl (noLoneCr_zero _)
    | succ room =>
      rw [noLoneCr_cons]
      by_cases hlf : c = ch '\n'
      · subst hlf
        rw [lineFrom_lf, lineFor_lf]
        exact iff_of_true rfl ⟨not_loneCr (by decide),fun h => absurd rfl h⟩
      · by_cases hcr : c = ch '\r'
        · subst hcr
          cases s with
          | nil =>
            refine iff_of_true ?_ ⟨fun h => ?_,fun _ k _ _ h => ?_⟩
            · simp [lineFrom, firstLine, unixEnds, hlf]
            · simp [LoneCr] at h
            · simp [LoneCr] at h
          | cons d s =>
            rw [loneCr_iff]
            by_cases hd : d = ch '\n'
            · subst hd
              have hskip : unixEnds (firstLine (ch '\r'::ch '\n'::s)) =
                  unixEnds (firstLine (ch '\n'::s)) := by
                rw [firstLine, if_neg hlf, unixEnds_crlf (by simp [firstLine])]
              rw [lineFrom_cr room rfl, hskip, lineFor_lf]
              refine iff_of_true rfl ⟨fun h => h.2 rfl,fun _ => ?_⟩
              -- the line ends with this LF
              cases room with
              | zero => exact noLoneCr_zero _
              | succ room => exact noLoneCr_cons.mpr ⟨not_loneCr (by decide),fun h => absurd rfl h⟩
            · have hkept : unixEnds (firstLine (ch '\r'::d::s)) =
                  ch '\r'::unixEnds (firstLine (d::s)) := by
                have hhead : (firstLine (d::s)).head? ≠ some (ch '\n') := by simp [firstLine, hd]
                rw [firstLine, if_neg hlf, unixEnds, if_neg fun h => hhead h.2]
              have hpeek : (lineFrom (room+1) (ch '\r'::d::s)).1 =
                  d::(lineFrom room (d::s)).1 := by simp [lineFrom, hd]
              rw [hpeek, hkept, List.take_succ_cons, List.cons.injEq, ih]
              constructor
              · rintro ⟨rfl,hrest⟩
                exact ⟨fun h => h.1 rfl,fun _ => hrest⟩
              · rintro ⟨hlone,hrest⟩
                exact ⟨by_contra fun hne => hlone ⟨hne,hd⟩,hrest hlf⟩
        · rw [lineFrom_plain ⟨hcr,hlf⟩, firstLine, if_neg hlf, unixEnds_cons hcr,
            List.take_succ_cons, List.cons_inj_right, ih]
          exact ⟨fun h => ⟨not_loneCr hcr,fun _ => h⟩,fun h => h.2 hlf⟩

end Lines

/-- `get_line` reads the line into its buffer exactly if no CR stands alone where it is stored. -/
theorem readsLine_iff {size : ℕ} (hsize : 2 ≤ size) (sock : Stream) :
    ReadsLine size sock ↔ NoLoneCr (size-1) sock := by
  have hle : (getLine size sock).1.length ≤ size-1 := lineFrom_length_le _ _
  rw [← lineFrom_eq_iff, ReadsLine, getLineCells_eq hsize]
  constructor
  · rintro ⟨rest,unread,h⟩
    obtain ⟨hcells,hret⟩ := Prod.mk.inj (Option.some.inj h)
    exact (List.append_inj hcells (Prod.mk.inj hret).1).1
  · intro h
    have hline : (getLine size sock).1 = lineFor size sock := h
    obtain ⟨k,hk⟩ : ∃ k, size-(getLine size sock).1.length = k+1 :=
      ⟨size-(getLine size sock).1.length-1,by omega⟩
    exact ⟨List.replicate k 0,_,by rw [hk, List.replicate_succ, hline]⟩

theorem readsLine_get : ReadsLine 32 (cstr "GET / HTTP/1.0\r\nHost: a\r\n") :=
  (readsLine_iff (by decide) _).mpr (by decide)

/-- The byte behind the CR is stored in its place, and then again. -/
theorem not_readsLine_cr : ¬ReadsLine 10 (cstr "a\rb\n") := by
  rintro ⟨rest,unread,h⟩
  have hrun : getLineCells 10 (cstr "a\rb\n") =
      some (cstr "abb\n" ++ List.replicate 6 0,4,[]) := rfl
  rw [hrun] at h
  have hcells := (Prod.mk.inj (Option.some.inj h)).1
  exact absurd (List.append_inj_left hcells rfl) (by decide)

end LibeventHttpd
