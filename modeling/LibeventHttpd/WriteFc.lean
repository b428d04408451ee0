import LibeventHttpd.AcceptRequest

/-! What the write callback sends for a record. Calls on open files and sockets are taken to
succeed; of a file that cannot be opened nothing is read. -/
namespace LibeventHttpd

/-- The status line of `error_response`; for other numbers the pointer is never set. -/
def statusLine (errNum : ℤ) : Option (List CChar) :=
  if errNum = 400 then some (cstr "HTTP/1.1 400 Bad Request\r\n\r\n")
  else if errNum = 404 then some (cstr "HTTP/1.1 404 Not Found\r\n\r\n")
  else if errNum = 405 then some (cstr "HTTP/1.1 405 Method Not Allowed\r\n\r\n")
  else if errNum = 408 then some (cstr "HTTP/1.1 408 Request Timeout\r\n\r\n")
  else if errNum = 500 then some (cstr "HTTP/1.1 500 Internal Server Error\r\n\r\n")
  else none

def errorPath : List CChar := cstr "/home/lounuo/HTTP/htdocs/error_response.html"

section Respond
-- what can be read from a file
variable (file : List CChar → List CChar)

def errorResponse (errNum : ℤ) : Option (List CChar) :=
  (statusLine errNum).map (· ++ file errorPath)

def sendResponse (path : List CChar) : List CChar := cstr "HTTP/1.0 200 OK\r\n\r\n" ++ file path

/-- The response to a record, where it is sent; `none` when it uses a field that was never set. -/
def reply (data : DataBuf) : Option (List CChar) :=
  if data.errNum = 0 then
    if data.cgi then data.buf.bind sendBuf else data.path.map (sendResponse file)
  else if data.errNum > 0 then errorResponse file data.errNum
  else some []

/-- `stat(_data->_path, &st) < 0`, in the branch that asks. -/
def DataBuf.Missing (stat : Stat) (data : DataBuf) : Prop :=
  data.errNum = 0 ∧ data.cgi = false ∧ ∃ path ∈ data.path, stat path = none

instance (stat : Stat) (data : DataBuf) : Decidable (data.Missing stat) :=
  inferInstanceAs (Decidable (_ ∧ _ ∧ _))

/-- The bytes `write_fc` sends on `_data->_fd` before it closes it. `some none` is its return where
`stat` fails, with nothing done. -/
def respond (stat : Stat) (data : DataBuf) : Option (Option (List CChar)) :=
  if data.Missing stat then some none else (reply file data).map some

theorem respond_of_present {stat : Stat} {data : DataBuf} (h : ¬data.Missing stat) :
    respond file stat data = (reply file data).map some := if_neg h

theorem respond_some_iff {stat : Stat} {data : DataBuf} {bytes : List CChar} :
    respond file stat data = some (some bytes) ↔
      ¬data.Missing stat ∧ reply file data = some bytes := by
  unfold respond
  split_ifs with h
  · simp [h]
  · simp [h]

/-- No file is asked for behind a program. -/
theorem not_missing_of_child {stat : Stat} {cgi : Child → List CChar} {env : Env} {fd : ℕ}
    {sock : Stream} {a : Accepted} (h : acceptRequest stat cgi env fd sock = some a)
    (hchild : a.child ≠ none) : ¬a.data.Missing stat := by
  obtain ⟨d,-,h⟩ := Option.bind_eq_some_iff.mp h
  cases d with
  | done data rest =>
    obtain rfl := Option.some.inj h
    exact absurd rfl hchild
  | exec call =>
    obtain ⟨e,-,h⟩ := Option.bind_eq_some_iff.mp h
    obtain rfl := Option.some.inj h
    exact fun hmissing => Bool.noConfusion hmissing.2.1

/-- The output of a program that was run for a request is what its client is sent, exactly if it is
shorter than the buffer and has no NUL. -/
theorem respond_output_iff {method queryString : List CChar} (hfit : ArgsFit method queryString)
    (stat : Stat) (env : Env) (fd : ℕ) (path : List CChar) (contentLength : ℤ) (sock : Stream)
    (output : List CChar) :
    ((execResponse (fun _ => output) env path method queryString contentLength sock).bind fun e =>
      respond file stat { DataBuf.filled fd method path queryString with
        cgi := true, buf := some e.buf }) = some (some output) ↔
      output.length < 20480 ∧ 0 ∉ output := by
  rw [← relay_iff, execResponse, if_pos hfit]
  cases relay output with
  | none => simp
  | some buf => simp [respond, reply, DataBuf.Missing, DataBuf.filled]

theorem respond_output_hello :
    ((execResponse (fun _ => cstr "hello") ⟨none,none,none⟩ (cstr "/bin/a") (cstr "GET") [] 0
      []).bind fun e => respond id (fun _ => none)
        { DataBuf.filled 3 (cstr "GET") (cstr "/bin/a") [] with cgi := true, buf := some e.buf }) =
      some (some (cstr "hello")) :=
  (respond_output_iff id (by decide) _ _ _ _ _ _ _).mpr (by decide)

/-- A NUL in the output ends what is sent. -/
theorem respond_output_nul :
    ((execResponse (fun _ => [ch 'a', 0, ch 'b']) ⟨none,none,none⟩ (cstr "/bin/a") (cstr "GET") [] 0
      []).bind fun e => respond id (fun _ => none)
        { DataBuf.filled 3 (cstr "GET") (cstr "/bin/a") [] with cgi := true, buf := some e.buf }) ≠
      some (some [ch 'a', 0, ch 'b']) := by
  intro h
  obtain ⟨e,-,hsend⟩ := Option.bind_eq_some_iff.mp h
  have hbuf : sendBuf e.buf = some [ch 'a', 0, ch 'b'] := ((respond_some_iff id).mp hsend).2
  exact absurd (sendBuf_nul hbuf) (by decide)

end Respond

end LibeventHttpd
