import LibeventHttpd.EventLoop
import LibeventHttpd.PostBody
import LibeventHttpd.HeaderLength

/-! A request and its response, from the first byte a client sends to the last one it gets: the
callbacks of one connection, and the answer that a well-formed request calls for. -/
namespace LibeventHttpd
open Transition

/-- What is sent, what stays unread, the environment, and the program that was run. -/
structure Exchange where
  sent : List CChar
  unread : Stream
  env : Env
  child : Option Child

/-- What is computed for a client, and the response to it, if `exec_response` returns and there is a
file where one is to be sent. -/
def outcome (site : Site) (env : Env) (fd : ℕ) (sock : Stream) : Option Exchange := do
  let a ← acceptRequest site.stat site.cgi env fd sock
  let bytes ← reply site.file a.data
  return ⟨bytes,if a.data.errNum > 0 then clearHead a.sock else a.sock,a.env,a.child⟩

/-- `exec_response` returns if it is called, and `write_fc` gets to closing the connection. -/
def Dispatch.Completes (stat : Stat) : Dispatch → Prop
  | .done data _ => ¬data.Missing stat
  | .exec call => call.Returns stat

instance (stat : Stat) (d : Dispatch) : Decidable (d.Completes stat) :=
  match d with
  | .done data _ => inferInstanceAs (Decidable (¬data.Missing stat))
  | .exec call => inferInstanceAs (Decidable (call.Returns stat))

/-- `read_fc` and `write_fc` for a client, one right after the other. There is no result where one
of them does not come to its end, or leaves the client waiting. -/
def exchange (site : Site) (env : Env) (fd : ℕ) (sock : Stream) : Option Exchange := do
  let d ← dispatch site.stat env fd sock
  if d.Completes site.stat then outcome site env fd sock else none

/-- A request: a line that fits the buffer it is read into, header lines, and what is sent behind
the empty line. -/
structure Message where
  line : List CChar
  headers : List (List CChar)
  body : Stream
  line_plain : ∀ c ∈ line, Plain c ∧ c ≠ 0
  line_fits : line.length < size-1
  header_line : ∀ h ∈ headers, HeaderLine h ∧ h.length ≤ 1022

def Message.stream (m : Message) : Stream := m.line ++ (crlf ++ (headerBlock m.headers ++ m.body))

/-- The file that is served for a request, and whether it is run. -/
def Request.file (stat : Stat) (req : Request) : Option (List CChar × Bool) :=
  (stat (rootPath req.url)).map fun mode =>
    if isDir mode then (rootPath req.url ++ dfPath,req.cgi)
    else (rootPath req.url,req.cgi || isExec mode)

/-- What a request calls for. -/
inductive Answer where
  | refuse (errNum : ℤ)
  | page (path : List CChar)
  | program (child : Child)

/-- The text of the length as it is put into the environment. -/
def lengthText (hs : List (List CChar)) : Option (List CChar) :=
  (hs.find? fun h => lengthName <+: h).map fun h => text (h.drop 15 ++ [ch '\n'])

/-- The program for a `POST` is told the length, and can read as much of the body. Without a length
it finds the one of an earlier request. -/
def Message.child (m : Message) (env : Env) (path : List CChar) (req : Request) : Child :=
  if strcaseeq req.method (cstr "POST") then
    ⟨path,⟨some req.method,some req.queryString,
        (lengthText m.headers).orElse fun _ => env.contentLength⟩,
      m.body.take (announcedLength m.headers).toNat⟩
  else ⟨path,⟨some req.method,some req.queryString,env.contentLength⟩,[]⟩

def Message.answer (stat : Stat) (env : Env) (m : Message) : Answer :=
  match requestOf m.line with
  | none => .refuse 405
  | some req =>
    match req.file stat with
    | none => .refuse 404
    | some (path,true) => .program (m.child env path req)
    | some (path,false) => .page path

/-- What the client of a program gets: its output up to the first NUL. There has to be room for a
NUL in the buffer. -/
def relayed (output : List CChar) : Option (List CChar) :=
  if output.length < 20480 ∨ output.length = 20480 ∧ 0 ∈ output then some (text output) else none

/-- An answer as it is carried out, and the part of the body that is left. -/
def Answer.exchange (site : Site) (env : Env) (body : Stream) : Answer → Option Exchange
  | .refuse errNum => (errorResponse site.file errNum).map fun sent => ⟨sent,body,env,none⟩
  | .page path => some ⟨sendResponse site.file path,body,env,none⟩
  | .program child => (relayed (site.cgi child)).map fun sent =>
      ⟨sent,body.drop child.stdin.length,child.env,some child⟩

/-- The words of the line and the path fit their arrays, and so does the query of a program. -/
def Message.Fits (stat : Stat) (m : Message) : Prop :=
  (word m.line).length < size/2 ∧ ∀ req ∈ requestOf m.line, req.url.length < size/2 ∧
    (rootPath req.url).length < size/2 ∧ ∀ f ∈ req.file stat, f.1.length < size/2 ∧
      (f.2 = true → ArgsFit req.method req.queryString)

instance (stat : Stat) (m : Message) : Decidable (m.Fits stat) :=
  inferInstanceAs (Decidable (_ ∧ _))

/-- A request that posts to a program has a length that an `int` can hold, or else no body. -/
def Message.Announced (stat : Stat) (m : Message) : Prop :=
  ∀ req ∈ requestOf m.line, strcaseeq req.method (cstr "POST") = true →
    ∀ f ∈ req.file stat, f.2 = true → LengthReadable m.headers m.body

instance (stat : Stat) (m : Message) : Decidable (m.Announced stat) :=
  inferInstanceAs (Decidable (∀ req ∈ requestOf m.line, _))

/-- As much of the body as a `POST` announces is sent. -/
def Message.Supplies (m : Message) (req : Request) : Prop :=
  strcaseeq req.method (cstr "POST") = true →
    0 ≤ announcedLength m.headers ∧ announcedLength m.headers ≤ m.body.length

instance (m : Message) (req : Request) : Decidable (m.Supplies req) :=
  inferInstanceAs (Decidable (_ → _ ∧ _))

/-- A page that is named is there, and a program that is named can be executed and gets all of its
input. -/
def Message.Ready (stat : Stat) (m : Message) : Prop :=
  ∀ req ∈ requestOf m.line, ∀ f ∈ req.file stat,
    if f.2 then Program stat f.1 ∧ m.Supplies req else stat f.1 ≠ none

instance (stat : Stat) (m : Message) : Decidable (m.Ready stat) :=
  inferInstanceAs (Decidable (∀ req ∈ requestOf m.line, _))

section Line

theorem isSpace_newline : IsSpace (ch '\n') := by decide

theorem word_newline (s : List CChar) : word (s ++ [ch '\n']) = word s := by
  induction s with
  | nil => exact word_space isSpace_newline []
  | cons c s ih =>
    by_cases hc : IsSpace c
    · rw [List.cons_append, word_space hc, word_space hc]
    · rw [List.cons_append, word_cons hc, word_cons hc, ih]

theorem word_dropWhile_newline (s : List CChar) :
    word ((s ++ [ch '\n']).dropWhile fun c => IsSpace c) =
      word (s.dropWhile fun c => IsSpace c) := by
  induction s with
  | nil => rfl
  | cons c s ih =>
    by_cases hc : IsSpace c
    · simpa [hc] using ih
    · simpa [hc] using word_newline (c::s)

/-- The line end is a blank like others to the reader of the line. -/
theorem requestOf_newline (line : List CChar) : requestOf (line ++ [ch '\n']) = requestOf line := by
  have hle : (word line).length ≤ line.length := (List.takeWhile_prefix _).length_le
  have htarget : targetOf (line ++ [ch '\n']) = targetOf line := by
    rw [targetOf, afterMethod, word_newline, List.drop_append_of_le_length hle,
      word_dropWhile_newline]
    rfl
  rw [requestOf, word_newline, htarget]
  rfl

end Line

section Dispatch
variable {stat : Stat} {m : Message} {req : Request}

theorem Message.getLine_stream (m : Message) :
    getLine size m.stream = (m.line ++ [ch '\n'],headerBlock m.headers ++ m.body) :=
  lineFrom_short (fun c hc => (m.line_plain c hc).1) m.line_fits _

theorem Message.clearHead_rest (m : Message) :
    clearHead (headerBlock m.headers ++ m.body) = m.body :=
  clearHead_headerBlock (fun h hmem =>
    ⟨(m.header_line h hmem).1,not_cutAtEnd (m.header_line h hmem).1 (m.header_line h hmem).2⟩) _

theorem Message.parseRequest_line (m : Message) :
    parseRequest (text (m.line ++ [ch '\n'])) =
      if (word m.line).length < size/2 ∧ ∀ req ∈ requestOf m.line, req.url.length < size/2 then
        some (requestOf m.line) else none := by
  have hnul : 0 ∉ m.line ++ [ch '\n'] := by
    rw [List.mem_append, not_or]
    exact ⟨fun h => (m.line_plain 0 h).2 rfl,by decide⟩
  rw [text_of_nul_notMem hnul, parseRequest_eq hnul, word_newline, requestOf_newline]

theorem locate_eq (stat : Stat) (req : Request) :
    locate stat req = if (rootPath req.url).length < size/2 ∧
        ∀ f ∈ req.file stat, f.1.length < size/2 then some (req.file stat) else none := by
  rw [locate, Request.file]
  by_cases hpath : (rootPath req.url).length < size/2
  · cases stat (rootPath req.url) with
    | none => simp [hpath]
    | some mode =>
      cases hdir : isDir mode with
      | false => simp [hpath, hdir]
      | true => simp only [hpath, hdir, if_true, Option.map_some, Option.mem_some_iff,
          forall_eq', true_and]
  · simp [hpath]

/-- The child is fed from the first byte behind the headers on. -/
theorem feedChild_rest {hs : List (List CChar)} (hh : ∀ h ∈ hs, HeaderLine h ∧ h.length ≤ 1022)
    (n : ℤ) (body : Stream) :
    feedChild n (headerBlock hs ++ body) = (body.take n.toNat,body.drop n.toNat) := by
  have hskip := clearHead_headerBlock
    (fun h hmem => ⟨(hh h hmem).1,not_cutAtEnd (hh h hmem).1 (hh h hmem).2⟩) body
  rw [feedChild, hskip, copyBody_eq]

theorem drop_length_take {α : Type} (n : ℕ) (l : List α) :
    l.drop (l.take n).length = l.drop n := by
  rw [List.length_take]
  rcases Nat.le_total n l.length with h | h
  · rw [Nat.min_eq_left h]
  · rw [Nat.min_eq_right h, List.drop_length, List.drop_eq_nil_of_le h]

theorem lengthText_first {before after : List (List CChar)} {w : List CChar}
    (hbefore : ∀ h ∈ before, ¬lengthName <+: h) :
    lengthText (before ++ (lengthName ++ w)::after) = some (text (w ++ [ch '\n'])) := by
  have hfind : (before ++ (lengthName ++ w)::after).find? (fun h => lengthName <+: h) =
      some (lengthName ++ w) := by
    rw [List.find?_eq_some_iff_append]
    exact ⟨by simp,before,after,rfl,fun h hmem => by simpa using hbefore h hmem⟩
  rw [lengthText, hfind]
  rfl

theorem announcedLength_none {hs : List (List CChar)} (h : lengthValue hs = none) :
    announcedLength hs = 0 ∧ lengthText hs = none := by
  have hfind : hs.find? (fun h => lengthName <+: h) = none := Option.map_eq_none_iff.mp h
  rw [announcedLength, h, lengthText, hfind]
  exact ⟨rfl,rfl⟩

/-- A body is read as far as its length goes. -/
theorem Message.bodyLength_rest (m : Message)
    (h : strcaseeq req.method (cstr "POST") = true → LengthReadable m.headers m.body)
    (env : Env) (path : List CChar) :
    ∃ len, bodyLength req.method (headerBlock m.headers ++ m.body) = some len ∧
      childOf { env with contentLength := len.env.orElse fun _ => env.contentLength } path
        req.method req.queryString len.contLen len.sock = m.child env path req ∧
      (feedChild len.contLen len.sock).2 = m.body.drop (m.child env path req).stdin.length ∧
      (0 ≤ len.contLen ∧ len.contLen ≤ (clearHead len.sock).length ↔ m.Supplies req) := by
  have hshort : ∀ h ∈ m.headers, h.length < 5119 :=
    fun h hmem => (m.header_line h hmem).2.trans_lt (by decide)
  by_cases hpost : strcaseeq req.method (cstr "POST") = true
  · obtain ⟨hint,hnone⟩ := h hpost
    rw [bodyLength, if_pos hpost, Message.child, if_pos hpost]
    cases hv : lengthValue m.headers with
    | none =>
      have hread := getContentLength_block_none (fun g hg => ⟨(m.header_line g hg).1,
        (hshort g hg).trans (by decide),fun _ => hshort g hg⟩) hv m.body
      obtain ⟨hnum,htext⟩ := announcedLength_none hv
      rw [Message.Supplies, hread, hnone hv, hnum, htext]
      exact ⟨_,rfl,rfl,rfl,iff_of_true ⟨le_rfl,Int.natCast_nonneg _⟩ fun _ => ⟨le_rfl,le_rfl⟩⟩
    | some v =>
      obtain ⟨before,w,after,hs,rfl,hbefore⟩ := exists_lengthValue hv
      have hline (g : List CChar) (hg : g ∈ before ++ (lengthName ++ w)::after) :
          HeaderLine g ∧ g.length ≤ 1022 := m.header_line g (hs ▸ hg)
      have hread := getContentLength_first (fun g hg => ⟨(hline g (by simp [hg])).1.2,
        (hshort g (by simp [hs, hg])).trans (by decide),hbefore g hg⟩)
        (hline (lengthName ++ w) (by simp)).1.2 (hshort _ (by simp [hs])) after m.body
      have hfeed := feedChild_rest (fun g (hg : g ∈ after) => hline g (by simp [hg]))
        (atoi (text w)) m.body
      have hskip := clearHead_headerBlock (fun g (hg : g ∈ after) =>
        ⟨(hline g (by simp [hg])).1,not_cutAtEnd (hline g (by simp [hg])).1
          (hline g (by simp [hg])).2⟩) m.body
      have hnum : announcedLength m.headers = atoi (text w) := by
        rw [announcedLength, hv, (atoi_eq_integerIn_iff _).mpr (hint _ hv)]
        rfl
      rw [Message.Supplies, hnum, hs, hread, lengthText_first hbefore]
      refine ⟨_,rfl,by rw [childOf, hfeed],by rw [hfeed, drop_length_take],?_⟩
      rw [hskip]
      exact ⟨fun hlen _ => hlen,fun hlen => hlen hpost⟩
  · rw [bodyLength, if_neg hpost, Message.child, if_neg hpost]
    refine ⟨_,rfl,?_,?_,iff_of_true ⟨le_rfl,Int.natCast_nonneg _⟩ fun hp => absurd hp hpost⟩
    · rw [childOf, feedChild_rest m.header_line]
      rfl
    · rw [feedChild_rest m.header_line]
      rfl

end Dispatch

section Answer
variable {site : Site} {env : Env} {fd : ℕ} {sock : Stream} {m : Message}

/-- Nothing counts behind a NUL. -/
theorem text_append_of_mem {s : List CChar} (h0 : 0 ∈ s) (t : List CChar) :
    text (s ++ t) = text s := by
  obtain ⟨before,after,rfl,hbefore⟩ := List.eq_append_cons_of_mem h0
  rw [List.append_assoc, text_append hbefore, text_append hbefore, List.cons_append, text_nul,
    text_nul]

theorem relayed_eq (output : List CChar) : (relay output).bind sendBuf = relayed output := by
  have hnul (n : ℕ) : text (output ++ List.replicate n 0) = text output := by
    by_cases h0 : 0 ∈ output
    · exact text_append_of_mem h0 _
    · rw [text_append h0, text_of_nul_notMem h0]
      cases n with
      | zero => simp [text]
      | succ n => simp [text, List.replicate_succ]
  rw [relay_eq, relayed]
  split_ifs with hle hroom hroom
  · rw [Option.bind_some, sendBuf, hnul, if_pos]
    rcases hroom with hlt | ⟨-,h0⟩
    · simp; omega
    · simp [h0]
  · obtain ⟨hge,h0⟩ := not_or.mp hroom
    have hfull : output.length = 20480 := by omega
    have hno : 0 ∉ output := fun h => h0 ⟨hfull,h⟩
    rw [hfull, Option.bind_some, sendBuf, if_neg (by simpa using hno)]
  · omega
  · rfl

theorem outcome_of_reply {a : Accepted} {bytes : List CChar}
    (ha : acceptRequest site.stat site.cgi env fd sock = some a)
    (hreply : reply site.file a.data = some bytes) :
    outcome site env fd sock =
      some ⟨bytes,if a.data.errNum > 0 then clearHead a.sock else a.sock,a.env,a.child⟩ := by
  rw [outcome, ha, Option.bind_eq_bind, Option.bind_some, hreply]
  rfl

theorem Dispatch.Completes.not_missing {d : Dispatch} {a : Accepted}
    (h : d.Completes site.stat) (hd : dispatch site.stat env fd sock = some d)
    (ha : acceptRequest site.stat site.cgi env fd sock = some a) : ¬a.data.Missing site.stat := by
  obtain ⟨d',hd',hrun⟩ := Option.bind_eq_some_iff.mp ha
  obtain rfl := Option.some.inj (hd.symm.trans hd')
  cases d with
  | done data rest =>
    obtain rfl := Option.some.inj hrun
    exact h
  | exec call =>
    obtain ⟨e,-,hrun⟩ := Option.bind_eq_some_iff.mp hrun
    obtain rfl := Option.some.inj hrun
    exact not_missing_of_child ha (Option.some_ne_none _)

theorem outcome_done {data : DataBuf} {rest : Stream}
    (h : dispatch site.stat env fd sock = some (.done data rest)) :
    outcome site env fd sock = (reply site.file data).map fun sent =>
      ⟨sent,if data.errNum > 0 then clearHead rest else rest,env,none⟩ := by
  rw [outcome, acceptRequest, h, Option.map_eq_bind]
  rfl

theorem outcome_exec {call : Call} {child : Child}
    (h : dispatch site.stat env fd sock = some (.exec call))
    (hchild : childOf call.env call.path call.method call.queryString call.contentLength
      call.sock = child) :
    outcome site env fd sock = if ArgsFit call.method call.queryString then
      (relayed (site.cgi child)).map fun sent =>
        ⟨sent,(feedChild call.contentLength call.sock).2,child.env,some child⟩ else none := by
  rw [outcome, acceptRequest, h]
  simp only [Option.bind_eq_bind, Option.bind_some]
  split_ifs with hfit
  · rw [execResponse_of_fit hfit, hchild, ← relayed_eq]
    cases relay (site.cgi child) with
    | none => rfl
    | some buf =>
      rw [Option.map_some, Option.bind_some, Option.bind_some, Option.map_eq_bind]
      rfl
  · rw [execResponse, if_neg hfit]
    rfl

theorem dispatch_stream (stat : Stat) :
    dispatch stat env fd m.stream = (if (word m.line).length < size/2 ∧
        ∀ req ∈ requestOf m.line, req.url.length < size/2 then some (requestOf m.line)
        else none).bind fun
      | none => some (.done { fd := fd, errNum := 405 } (headerBlock m.headers ++ m.body))
      | some req => (locate stat req).bind fun
        | none => some (.done { fd := fd, cgi := req.cgi, errNum := 404 }
            (headerBlock m.headers ++ m.body))
        | some (path,true) => (bodyLength req.method (headerBlock m.headers ++ m.body)).bind
            fun len => some (.exec ⟨{ env with
              contentLength := len.env.orElse fun _ => env.contentLength },path,req.method,
              req.queryString,len.contLen,len.sock⟩)
        | some (path,false) => some (.done (.filled fd req.method path req.queryString)
            (clearHead (headerBlock m.headers ++ m.body))) := by
  rw [dispatch, m.getLine_stream, ← m.parseRequest_line]
  simp only [List.length_append, List.length_singleton, Nat.succ_ne_zero, if_false]
  rfl

theorem dispatch_request {req : Request} (hreq : requestOf m.line = some req)
    (hword : (word m.line).length < size/2) (hurl : req.url.length < size/2) :
    dispatch site.stat env fd m.stream = (locate site.stat req).bind fun
      | none => some (.done { fd := fd, cgi := req.cgi, errNum := 404 }
          (headerBlock m.headers ++ m.body))
      | some (path,true) => (bodyLength req.method (headerBlock m.headers ++ m.body)).bind
          fun len => some (.exec ⟨{ env with
            contentLength := len.env.orElse fun _ => env.contentLength },path,req.method,
            req.queryString,len.contLen,len.sock⟩)
      | some (path,false) => some (.done (.filled fd req.method path req.queryString)
          (clearHead (headerBlock m.headers ++ m.body))) := by
  rw [dispatch_stream, if_pos ⟨hword,by simpa [hreq] using hurl⟩, hreq]
  rfl

theorem outcome_of_fits (h : m.Announced site.stat) (hfits : m.Fits site.stat) :
    outcome site env fd m.stream = (m.answer site.stat env).exchange site env m.body := by
  obtain ⟨hword,hreqs⟩ := hfits
  cases hreq : requestOf m.line with
  | none =>
    have hdispatch : dispatch site.stat env fd m.stream = some (.done { fd := fd, errNum := 405 }
        (headerBlock m.headers ++ m.body)) := by
      rw [dispatch_stream, if_pos ⟨hword,by simp [hreq]⟩, hreq]
      rfl
    rw [outcome_done hdispatch, if_pos (show (0 : ℤ) < 405 by decide), m.clearHead_rest,
      Message.answer, hreq]
    rfl
  | some req =>
    obtain ⟨hurl,hroot,hfile⟩ := hreqs req hreq
    have hdispatch : dispatch site.stat env fd m.stream = _ := dispatch_request hreq hword hurl
    rw [locate_eq, if_pos ⟨hroot,fun f hf => (hfile f hf).1⟩, Option.bind_some] at hdispatch
    rw [Message.answer, hreq]
    rcases hf : req.file site.stat with _ | ⟨path,_ | _⟩
    · rw [hf] at hdispatch
      rw [outcome_done hdispatch, if_pos (show (0 : ℤ) < 404 by decide), m.clearHead_rest]
      simp only [hf]
      rfl
    · rw [hf, m.clearHead_rest] at hdispatch
      rw [outcome_done hdispatch]
      simp only [hf]
      rfl
    · obtain ⟨len,hlen,hchild,hrest,-⟩ := m.bodyLength_rest (fun hpost => h req hreq hpost _ hf rfl)
        env path
      rw [hf, hlen] at hdispatch
      rw [outcome_exec hdispatch hchild, if_pos ((hfile _ hf).2 rfl), hrest]
      simp only [hf]
      rfl

end Answer

end LibeventHttpd
