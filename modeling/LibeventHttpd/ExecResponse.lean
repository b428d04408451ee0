import LibeventHttpd.Library.Cells
import LibeventHttpd.ContentLength

/-! The parent's side of `exec_response`: what it writes to the child, and how the child's output
reaches the client. The steps of the two processes are in `Pipes`. -/
namespace LibeventHttpd
open Cells

/-- The environment variables the server sets. -/
structure Env where
  method : Option (List CChar)
  queryString : Option (List CChar)
  contentLength : Option (List CChar)

/-- What a CGI program is started with, and all it can read. -/
structure Child where
  path : List CChar
  env : Env
  stdin : List CChar

/-- `while(con_len > 0)`: the bytes written to `pipe1`, and the bytes left unread. Past the end of
the stream `recv` fails and nothing is written. -/
def copyBody : ℕ → Stream → List CChar × Stream
  | 0,sock => ([],sock)
  | conLen+1,[] => copyBody conLen []
  | conLen+1,c::sock =>
    let (written,sock) := copyBody conLen sock
    (c::written,sock)

/-- The bytes the child gets on its standard input, and the bytes left unread. -/
def feedChild (contentLength : ℤ) (sock : Stream) : List CChar × Stream :=
  copyBody contentLength.toNat (clearHead sock)

/-- `(data->_buf)[index++] = ch` for every byte of the output. -/
def storeLoop (buf : List CChar) (index : ℕ) : List CChar → Option (List CChar)
  | [] => some buf
  | c::output => do storeLoop (← store buf index c) (index+1) output

/-- `_buf` after `memset` and the read loop; a store outside it gives `none`. -/
def relay (output : List CChar) : Option (List CChar) :=
  storeLoop (List.replicate (2*10240) 0) 0 output

/-- `send(fd, _buf, strlen(_buf), 0)`; without a NUL in `_buf` the search leaves the array. -/
def sendBuf (buf : List CChar) : Option (List CChar) := if 0 ∈ buf then some (text buf) else none

/-- What the parent has after `exec_response`. -/
structure Exec where
  child : Child
  buf : List CChar
  sock : Stream

/-- The environment strings fit the arrays `query_str` and `method` of `_SIZE_` and `_SIZE_/2`
cells. -/
def ArgsFit (method queryString : List CChar) : Prop :=
  (cstr "QUERY_STRING=" ++ queryString).length < 10240 ∧
    (cstr "METHOD=" ++ method).length < 10240/2

instance (method queryString : List CChar) : Decidable (ArgsFit method queryString) :=
  inferInstanceAs (Decidable (_ ∧ _))

/-- `cgi` is the output of the program that runs in the child. -/
def execResponse (cgi : Child → List CChar) (env : Env) (path method queryString : List CChar)
    (contentLength : ℤ) (sock : Stream) : Option Exec := do
  if ArgsFit method queryString then
    let (stdin,sock) := feedChild contentLength sock
    let child : Child :=
      ⟨path,{ env with method := some method, queryString := some queryString },stdin⟩
    let buf ← relay (cgi child)
    return ⟨child,buf,sock⟩
  else none

theorem copyBody_eq (n : ℕ) (s : Stream) : copyBody n s = (s.take n,s.drop n) := by
  induction n generalizing s with
  | zero => rfl
  | succ n ih =>
    cases s with
    | nil => rw [copyBody, ih]; simp
    | cons c s => rw [copyBody, ih]; rfl

section Child
variable {cgi : Child → List CChar} {env : Env} {path method queryString : List CChar}
  {contentLength : ℤ} {sock : Stream} {e : Exec}

/-- What a program is started with that reads what `exec_response` feeds it. -/
def childOf (env : Env) (path method queryString : List CChar) (contentLength : ℤ)
    (sock : Stream) : Child :=
  ⟨path,{ env with method := some method, queryString := some queryString },
    (feedChild contentLength sock).1⟩

theorem execResponse_of_fit (hfit : ArgsFit method queryString) :
    execResponse cgi env path method queryString contentLength sock =
      (relay (cgi (childOf env path method queryString contentLength sock))).map fun buf =>
        ⟨childOf env path method queryString contentLength sock,buf,
          (feedChild contentLength sock).2⟩ := by
  rw [execResponse, if_pos hfit, Option.map_eq_bind]
  rfl

end Child

section Relay

/-- The stores fill a prefix of the array. -/
theorem storeLoop_eq (done output : List CChar) (free : ℕ) :
    storeLoop (done ++ List.replicate free 0) done.length output =
      if output.length ≤ free then
        some (done ++ output ++ List.replicate (free-output.length) 0) else none := by
  induction output generalizing done free with
  | nil => simp [storeLoop]
  | cons c output ih =>
    cases free with
    | zero => simp [storeLoop, store]
    | succ free =>
      have hstore : store (done ++ List.replicate (free+1) 0) done.length c =
          some (done ++ [c] ++ List.replicate free 0) := by
        rw [List.replicate_succ, store_append _ rfl]
        simp
      have hi := ih (done ++ [c]) free
      rw [List.length_append, List.length_singleton] at hi
      simp only [storeLoop, hstore, Option.bind_eq_bind, Option.bind_some, hi, List.length_cons,
        Nat.add_le_add_iff_right, Nat.add_sub_add_right]
      simp

theorem relay_eq (output : List CChar) :
    relay output = if output.length ≤ 20480 then
      some (output ++ List.replicate (20480-output.length) 0) else none := by
  have h := storeLoop_eq [] output 20480
  rw [List.length_nil, List.nil_append, List.nil_append] at h
  exact h

/-- What is sent ends before the first NUL. -/
theorem sendBuf_nul {buf sent : List CChar} (h : sendBuf buf = some sent) : 0 ∉ sent := by
  unfold sendBuf at h
  split_ifs at h
  rw [← Option.some.inj h]
  exact text_notMem buf

/-- The output of a program reaches the client as it is exactly if it leaves room for a NUL and
contains none. -/
theorem relay_iff (output : List CChar) :
    (relay output).bind sendBuf = some output ↔ output.length < 20480 ∧ 0 ∉ output := by
  have hsend (hlt : output.length ≤ 20480) :
      sendBuf (output ++ List.replicate (20480-output.length) 0) = some output ↔
        output.length < 20480 ∧ 0 ∉ output := by
    constructor
    · intro h
      have hnul := sendBuf_nul h
      refine ⟨lt_of_le_of_ne hlt fun he => ?_,hnul⟩
      -- a full array has no NUL for `strlen`
      rw [he, Nat.sub_self, List.replicate_zero, List.append_nil, sendBuf, if_neg hnul] at h
      exact absurd h (by simp)
    · rintro ⟨hroom,hnul⟩
      obtain ⟨k,hk⟩ : ∃ k, 20480-output.length = k+1 := ⟨20480-output.length-1,by omega⟩
      have htext : text (output ++ List.replicate (k+1) 0) = output :=
        takeWhile_append_stop (fun x hx => decide_eq_true fun h => hnul (h ▸ hx))
          (by simp [List.replicate_succ])
      rw [hk, sendBuf, if_pos (by simp), htext]
  rw [relay_eq]
  split_ifs with hle
  · exact hsend hle
  · exact iff_of_false (by simp) (by omega)

end Relay
end LibeventHttpd
