import LibeventHttpd.AcceptRequest

/-! The descriptors that are opened and closed while one request is handled, for every outcome of
the system calls. -/
namespace LibeventHttpd.Descriptors

/-- The two ends of a pipe are `pipe[0]` and `pipe[1]`. -/
inductive Descriptor where
  | client
  | file
  | pipe1 (i : Fin 2)
  | pipe2 (i : Fin 2)
  deriving DecidableEq

inductive Op where
  | opened (d : Descriptor)
  | closed (d : Descriptor)
  deriving DecidableEq

/-- Which calls succeed behind `accept_request`; each is made at most once for a request. -/
structure Calls where
  fork : Bool
  stat : Bool
  send : Bool
  openFile : Bool
  sendfile : Bool

section Functions
variable (c : Calls)

def errorResponse : List Op :=
  if ¬c.send then []
  else if ¬c.openFile then []
  else .opened .file::
    if ¬c.stat then []
    else if ¬c.sendfile then []
    else [.closed .file,.closed .client]

def sendResponse : List Op :=
  if ¬c.send then []
  else if ¬c.openFile then []
  else .opened .file::
    if ¬c.sendfile then []
    else [.closed .file]

def pipes : List Op := [.opened (.pipe1 0),.opened (.pipe1 1),.opened (.pipe2 0),.opened (.pipe2 1)]

/-- The server's side; a store outside an array gives `none`. -/
def execResponse (cgi : Child → List CChar) (call : Call) : Option (List Op) :=
  if c.fork then do
    let _ ← LibeventHttpd.execResponse cgi call.env call.path call.method call.queryString
      call.contentLength call.sock
    return pipes ++ [.closed (.pipe1 0),.closed (.pipe2 1),.closed (.pipe1 1),.closed (.pipe2 0)]
  else if ArgsFit call.method call.queryString then some pipes
  else none

def writeFc (errNum : ℤ) (cgi : Bool) : List Op :=
  if errNum = 0 then
    if cgi then [.closed .client]
    else if ¬c.stat then []
    else sendResponse c ++ [.closed .client]
  else if errNum > 0 then errorResponse c ++ [.closed .client]
  else [.closed .client]

/-- From the call of `accept_request` to the return of `write_fc`. -/
def handle (stat : Stat) (cgi : Child → List CChar) (env : Env) (fd : ℕ) (sock : Stream) :
    Option (List Op) := do
  match ← dispatch stat env fd sock with
  | .done data _ => return writeFc c data.errNum data.cgi
  | .exec call =>
    let es ← execResponse c cgi call
    return es ++ writeFc c 0 true

end Functions

/-- The client's descriptor and every one that was opened are closed once. -/
def Settled (es : List Op) : Prop :=
  es.count (.closed .client) = 1 ∧
    ∀ d, .opened d ∈ es → es.count (.closed d) = 1

section Requests
variable (stat : Stat) (sock : Stream)

/-- The request is read, and its method is not known or there is nothing at its path. -/
def Refused : Prop :=
  (getLine size sock).1 ≠ [] ∧ (parseRequest (text (getLine size sock).1) = some none ∨
    ∃ req, parseRequest (text (getLine size sock).1) = some (some req) ∧
      locate stat req = some none)

/-- The request is for a program or for a file, as the flag says. -/
def Serves (cgi : Bool) : Prop :=
  ∃ req path, parseRequest (text (getLine size sock).1) = some (some req) ∧
    locate stat req = some (some (path,cgi))

end Requests

section Cases
variable {c : Calls}

theorem settled_client : Settled [.closed .client] := ⟨rfl,fun d h => by simp at h⟩

theorem not_settled_of_leak {es : List Op} (h : .opened .file ∈ es)
    (h' : .closed .file ∉ es) : ¬Settled es := by
  intro hs
  have hone := hs.2 .file h
  rw [List.count_eq_zero.mpr h'] at hone
  cases hone

/-- The client's descriptor is closed twice after an answer that is sent in full, and the file is
left open after one that is not. -/
theorem settled_refused {errNum : ℤ} (h : 0 < errNum) (cgi : Bool) :
    Settled (writeFc c errNum cgi) ↔ c.send = false ∨ c.openFile = false := by
  obtain ⟨fork,stat,send,openFile,sendfile⟩ := c
  rw [writeFc, if_neg h.ne', if_pos h, errorResponse]
  cases send with
  | false => exact iff_of_true settled_client (.inl rfl)
  | true =>
    cases openFile with
    | false => exact iff_of_true settled_client (.inr rfl)
    | true =>
      refine iff_of_false ?_ (by simp)
      cases stat with
      | false => exact not_settled_of_leak (by simp) (by simp)
      | true =>
        cases sendfile with
        | false => exact not_settled_of_leak (by simp) (by simp)
        | true => exact fun hs => absurd hs.1 (by simp)

theorem settled_file : Settled (writeFc c 0 false) ↔
    c.stat = true ∧ (c.send = false ∨ c.openFile = false ∨ c.sendfile = true) := by
  obtain ⟨fork,stat,send,openFile,sendfile⟩ := c
  cases stat with
  | false => exact iff_of_false (fun hs => absurd hs.1 (by simp [writeFc])) (by simp)
  | true =>
    cases send with
    | false => exact iff_of_true settled_client ⟨rfl,.inl rfl⟩
    | true =>
      cases openFile with
      | false => exact iff_of_true settled_client ⟨rfl,.inr (.inl rfl)⟩
      | true =>
        cases sendfile with
        | false =>
          refine iff_of_false ?_ (by simp)
          exact not_settled_of_leak (by simp [writeFc, sendResponse])
            (by simp [writeFc, sendResponse])
        | true =>
          refine iff_of_true ⟨rfl,fun d hd => ?_⟩ (by simp)
          obtain rfl : d = .file := by simpa [writeFc, sendResponse] using hd
          rfl

theorem settled_program {cgi : Child → List CChar} {call : Call} {es : List Op}
    (h : execResponse c cgi call = some es) :
    Settled (es ++ writeFc c 0 true) ↔ c.fork = true := by
  unfold execResponse at h
  cases hfork : c.fork with
  | false =>
    rw [hfork, if_neg (by simp)] at h
    split_ifs at h
    obtain rfl := Option.some.inj h
    refine iff_of_false (fun hs => ?_) (by simp)
    exact absurd (hs.2 (.pipe1 0) (by simp [pipes])) (by simp [pipes, writeFc])
  | true =>
    rw [hfork, if_pos rfl] at h
    obtain ⟨e,-,h⟩ := Option.bind_eq_some_iff.mp h
    obtain rfl := Option.some.inj h
    refine iff_of_true ⟨rfl,fun d hd => ?_⟩ rfl
    have hpipe : .opened d ∈ pipes := by simpa [writeFc] using hd
    simp only [pipes, List.mem_cons, List.not_mem_nil, or_false, Op.opened.injEq] at hpipe
    obtain rfl | rfl | rfl | rfl := hpipe <;> rfl

end Cases

/-- All descriptors are closed once exactly if a request that is refused is not answered, a file is
there still and is sent once it is open, and a program finds a process. -/
theorem settled_iff {c : Calls} {stat : Stat} {cgi : Child → List CChar} {env : Env} {fd : ℕ}
    {sock : Stream} {es : List Op} (h : handle c stat cgi env fd sock = some es) :
    Settled es ↔
      (Refused stat sock → c.send = false ∨ c.openFile = false) ∧
      (Serves stat sock false →
        c.stat = true ∧ (c.send = false ∨ c.openFile = false ∨ c.sendfile = true)) ∧
      (Serves stat sock true → c.fork = true) := by
  obtain ⟨d,hd,h⟩ := Option.bind_eq_some_iff.mp h
  cases d with
  | done data rest =>
    obtain rfl := Option.some.inj h
    obtain ⟨hline,rfl⟩ | ⟨hline,⟨hparse,rfl⟩ | ⟨req,hparse,⟨hloc,rfl⟩ | ⟨path,hloc,rfl⟩⟩⟩ :=
      dispatch_done hd
    · have hparse : parseRequest (text []) = some none := rfl
      have hclient : Settled (writeFc c (-1) false) := settled_client
      simp [hclient, Refused, Serves, hline, hparse]
    · simp [settled_refused, Refused, Serves, hline, hparse]
    · simp [settled_refused, Refused, Serves, hline, hparse, hloc]
    · simp [DataBuf.filled, settled_file, Refused, Serves, hparse, hloc]
  | exec call =>
    obtain ⟨ops,hops,h⟩ := Option.bind_eq_some_iff.mp h
    obtain rfl := Option.some.inj h
    obtain ⟨-,req,path,len,hparse,hloc,-,-⟩ := dispatch_exec_iff.mp hd
    simp [settled_program hops, Refused, Serves, hparse, hloc]

def allSucceed : Calls := ⟨true,true,true,true,true⟩

/-- A page that is there. -/
theorem settled_page : ∃ es, handle allSucceed (fun _ => some 0o100644) (fun _ => [])
    ⟨none,none,none⟩ 5 (cstr "GET /a HTTP/1.0\r\n\r\n") = some es ∧ Settled es := by
  have hparse : parseRequest (text (getLine size (cstr "GET /a HTTP/1.0\r\n\r\n")).1) =
      some (some ⟨cstr "GET",cstr "/a",[],false⟩) := rfl
  have hrun : handle allSucceed (fun _ => some 0o100644) (fun _ => []) ⟨none,none,none⟩ 5
      (cstr "GET /a HTTP/1.0\r\n\r\n") = some (writeFc allSucceed 0 false) := rfl
  refine ⟨_,hrun,(settled_iff hrun).mpr ⟨fun h => ?_,fun _ => by decide,fun _ => rfl⟩⟩
  obtain ⟨-,h | ⟨req,h,hloc⟩⟩ := h
  · rw [hparse] at h
    cases h
  · rw [hparse] at h
    obtain rfl := Option.some.inj (Option.some.inj h)
    cases hloc

/-- A page that is not there, when the answer is sent in full: the client's descriptor is closed
twice. -/
theorem not_settled_missing : ∃ es, handle allSucceed (fun _ => none)
    (fun _ => []) ⟨none,none,none⟩ 5 (cstr "GET /a HTTP/1.0\r\n\r\n") = some es ∧
      ¬Settled es :=
  ⟨_,rfl,fun h => absurd h.1 (by decide)⟩

end LibeventHttpd.Descriptors
