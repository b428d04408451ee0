import LibeventHttpd.ExecResponse

/-! `accept_request`: the request line, the file it names, and whether a program is run for it. -/
namespace LibeventHttpd

/-- `_SIZE_` -/
def size : ℕ := 10240

/-- `data_buf_t` as `malloc` gives it: a field that was never assigned is `none`. `_err_num` is the
value that `accept_request` returns. -/
structure DataBuf where
  fd : ℕ
  buf : Option (List CChar) := none
  cgi : Bool := false
  method : Option (List CChar) := none
  path : Option (List CChar) := none
  queryString : Option (List CChar) := none
  contentLength : Option ℤ := none
  errNum : ℤ

/-- The record after the three copies of method, path and parameters. -/
def DataBuf.filled (fd : ℕ) (method path queryString : List CChar) : DataBuf where
  fd := fd
  method := some method
  path := some path
  queryString := some queryString
  errNum := 0

/-- What the request line says, with the `_cgi` flag it sets. -/
structure Request where
  method : List CChar
  url : List CChar
  queryString : List CChar
  cgi : Bool

/-- The loop over `p_query_str`: every `?` before the first blank and that blank are overwritten.
The flag tells whether a `?` was met. -/
def splitTarget : List CChar → List CChar × Bool
  | [] => ([],false)
  | c::s =>
    if c = ch '?' then (0::(splitTarget s).1,true)
    else if IsSpace c then (0::s,false)
    else (c::(splitTarget s).1,(splitTarget s).2)

/-- The branch for `GET`, from `request_line[index]` on. -/
def getTarget (method line : List CChar) : Request :=
  if line = [] then ⟨method,[],[],false⟩
  else
    let (line,cgi) := splitTarget line
    let url := text line
    ⟨method,url,if cgi then text (line.drop (url.length+1)) else [],cgi⟩

/-- The request line as a C string. `some none` is the answer 405; a method or a url that does not
fit its array of `_SIZE_/2` cells with a NUL gives `none`. -/
def parseRequest (line : List CChar) : Option (Option Request) :=
  let method := line.takeWhile (fun c => ¬IsSpace c)
  let line := (line.drop method.length).dropWhile (fun c => IsSpace c)
  if method.length < size/2 then
    let req :=
      if strcaseeq method (cstr "POST") then
        some ⟨method,line.takeWhile (fun c => ¬IsSpace c),[],true⟩
      else if strcaseeq method (cstr "GET") then some (getTarget method line)
      else none
    if ∀ r ∈ req, r.url.length < size/2 then some req else none
  else none

/-- `st_mode` of a path, when `stat` succeeds. -/
abbrev Stat := List CChar → Option ℕ

/-- `(st.st_mode & S_IFDIR) != 0` -/
def isDir (mode : ℕ) : Bool := mode &&& 0o040000 ≠ 0

/-- `(st.st_mode & S_IXUSR) || (st.st_mode & S_IXGRP) || (st.st_mode & S_IXOTH)` -/
def isExec (mode : ℕ) : Bool := mode &&& 0o100 ≠ 0 ∨ mode &&& 0o010 ≠ 0 ∨ mode &&& 0o001 ≠ 0

def root : List CChar := cstr "/home/lounuo/HTTP"

/-- `_DF_PATH_` -/
def dfPath : List CChar := cstr "htdocs/mysql_response.html"

/-- The path that is looked up. -/
def rootPath (url : List CChar) : List CChar :=
  if url.head? = some (ch '/') then root ++ url else root

/-- The path that is served and the final `_cgi` flag; `some none` is the answer 404. The array
`path` has `_SIZE_/2` cells. -/
def locate (stat : Stat) (req : Request) : Option (Option (List CChar × Bool)) :=
  let path := rootPath req.url
  if path.length < size/2 then
    match stat path with
    | none => some none
    | some mode =>
      if isDir mode then
        if (path ++ dfPath).length < size/2 then some (some (path ++ dfPath,req.cgi)) else none
      else some (some (path,req.cgi || isExec mode))
  else none

/-- A call of `exec_response`, with the socket as `GetContentLength` left it. -/
structure Call where
  env : Env
  path : List CChar
  method : List CChar
  queryString : List CChar
  contentLength : ℤ
  sock : Stream

/-- `accept_request` up to its last branch: it is about to return, or to call `exec_response`. -/
inductive Dispatch where
  | done (data : DataBuf) (sock : Stream)
  | exec (call : Call)

def bodyLength (method : List CChar) (sock : Stream) : Option ContentLength :=
  if strcaseeq method (cstr "POST") then getContentLength sock else some ⟨0,none,sock⟩

def dispatch (stat : Stat) (env : Env) (fd : ℕ) (sock : Stream) : Option Dispatch :=
  let (requestLine,sock) := getLine size sock
  if requestLine.length = 0 then some (.done { fd := fd, errNum := -1 } sock)
  else do
    match ← parseRequest (text requestLine) with
    | none => return .done { fd := fd, errNum := 405 } sock
    | some req =>
      match ← locate stat req with
      | none => return .done { fd := fd, cgi := req.cgi, errNum := 404 } sock
      | some (path,true) =>
        let len ← bodyLength req.method sock
        let env := { env with contentLength := len.env.orElse fun _ => env.contentLength }
        return .exec ⟨env,path,req.method,req.queryString,len.contLen,len.sock⟩
      | some (path,false) =>
        return .done (.filled fd req.method path req.queryString) (clearHead sock)

/-- What the server has after `accept_request`: the record, the environment, the bytes left on the
socket, and the program that was run. -/
structure Accepted where
  data : DataBuf
  env : Env
  sock : Stream
  child : Option Child

def acceptRequest (stat : Stat) (cgi : Child → List CChar) (env : Env) (fd : ℕ) (sock : Stream) :
    Option Accepted := do
  match ← dispatch stat env fd sock with
  | .done data sock => return ⟨data,env,sock,none⟩
  | .exec call =>
    let e ← execResponse cgi call.env call.path call.method call.queryString call.contentLength
      call.sock
    let data := DataBuf.filled fd call.method call.path call.queryString
    let data := { data with cgi := true, contentLength := some call.contentLength }
    return ⟨{ data with buf := some e.buf },e.child.env,e.sock,some e.child⟩

/-- The two ways in which a file is located. -/
theorem locate_iff {stat : Stat} {req : Request} {path : List CChar} {cgi : Bool} :
    locate stat req = some (some (path,cgi)) ↔
      (rootPath req.url).length < size/2 ∧ ∃ mode, stat (rootPath req.url) = some mode ∧
        (isDir mode = true ∧ (rootPath req.url ++ dfPath).length < size/2 ∧
            path = rootPath req.url ++ dfPath ∧ cgi = req.cgi ∨
          isDir mode = false ∧ path = rootPath req.url ∧ cgi = (req.cgi || isExec mode)) := by
  unfold locate
  by_cases hfit : (rootPath req.url).length < size/2
  · cases hs : stat (rootPath req.url) with
    | none => simp [hfit, hs]
    | some mode =>
      cases hd : isDir mode with
      | true =>
        by_cases hlong : (rootPath req.url ++ dfPath).length < size/2
        · simp only [hfit, if_true, hs, hd, hlong, Option.some.injEq, Prod.mk.injEq, true_and,
            exists_eq_left', Bool.true_eq_false, false_and, or_false]
          exact and_congr eq_comm eq_comm
        · simp only [hfit, if_true, hs, hd, hlong, if_false, Option.some.injEq, exists_eq_left',
            Bool.true_eq_false, false_and, and_false, or_false, reduceCtorEq]
      | false =>
        simp only [hfit, if_true, hs, hd, Option.some.injEq, Prod.mk.injEq, true_and,
          exists_eq_left', Bool.false_eq_true, if_false, false_and, false_or]
        exact and_congr eq_comm eq_comm
  · simp [hfit]

/-- The four ways in which no program is run. -/
theorem dispatch_done {stat : Stat} {env : Env} {fd : ℕ} {sock rest : Stream} {data : DataBuf}
    (h : dispatch stat env fd sock = some (.done data rest)) :
    (getLine size sock).1 = [] ∧ data = { fd := fd, errNum := -1 } ∨
      (getLine size sock).1 ≠ [] ∧
        (parseRequest (text (getLine size sock).1) = some none ∧
            data = { fd := fd, errNum := 405 } ∨
          ∃ req, parseRequest (text (getLine size sock).1) = some (some req) ∧
            (locate stat req = some none ∧ data = { fd := fd, cgi := req.cgi, errNum := 404 } ∨
              ∃ path, locate stat req = some (some (path,false)) ∧
                data = .filled fd req.method path req.queryString)) := by
  unfold dispatch at h
  generalize getLine size sock = line at h ⊢
  obtain ⟨requestLine,sock⟩ := line
  simp only at h
  split_ifs at h with hnil
  · left
    exact ⟨List.length_eq_zero_iff.mp hnil,(Dispatch.done.inj (Option.some.inj h)).1.symm⟩
  · right
    refine ⟨mt List.length_eq_zero_iff.mpr hnil,?_⟩
    obtain ⟨parsed,hparse,h⟩ := Option.bind_eq_some_iff.mp h
    cases parsed with
    | none =>
      left
      exact ⟨hparse,(Dispatch.done.inj (Option.some.inj h)).1.symm⟩
    | some req =>
      right
      refine ⟨req,hparse,?_⟩
      obtain ⟨found,hloc,h⟩ := Option.bind_eq_some_iff.mp h
      cases found with
      | none =>
        left
        exact ⟨hloc,(Dispatch.done.inj (Option.some.inj h)).1.symm⟩
      | some found =>
        right
        obtain ⟨path,cgi⟩ := found
        cases cgi with
        | false => exact ⟨path,hloc,(Dispatch.done.inj (Option.some.inj h)).1.symm⟩
        | true =>
          obtain ⟨len,-,h⟩ := Option.bind_eq_some_iff.mp h
          simp at h

theorem dispatch_done_fd {stat : Stat} {env : Env} {fd : ℕ} {sock rest : Stream} {data : DataBuf}
    (h : dispatch stat env fd sock = some (.done data rest)) : data.fd = fd := by
  obtain ⟨-,rfl⟩ | ⟨-,⟨-,rfl⟩ | ⟨req,-,⟨-,rfl⟩ | ⟨path,-,rfl⟩⟩⟩ := dispatch_done h <;> rfl

/-- The record is about the socket it was made for. -/
theorem acceptRequest_fd {stat : Stat} {cgi : Child → List CChar} {env : Env} {fd : ℕ}
    {sock : Stream} {a : Accepted} (h : acceptRequest stat cgi env fd sock = some a) :
    a.data.fd = fd := by
  obtain ⟨d,hd,h⟩ := Option.bind_eq_some_iff.mp h
  cases d with
  | done data rest =>
    obtain rfl := Option.some.inj h
    exact dispatch_done_fd hd
  | exec call =>
    obtain ⟨e,-,h⟩ := Option.bind_eq_some_iff.mp h
    obtain rfl := Option.some.inj h
    rfl

/-- A record that says to send `_buf` has the output of a program in it. -/
theorem acceptRequest_buf {stat : Stat} {cgi : Child → List CChar} {env : Env} {fd : ℕ}
    {sock : Stream} {a : Accepted} (h : acceptRequest stat cgi env fd sock = some a)
    (herr : a.data.errNum = 0) (hcgi : a.data.cgi = true) : a.data.buf ≠ none := by
  obtain ⟨d,hd,h⟩ := Option.bind_eq_some_iff.mp h
  cases d with
  | done data rest =>
    obtain rfl := Option.some.inj h
    obtain ⟨-,rfl⟩ | ⟨-,⟨-,rfl⟩ | ⟨req,-,⟨-,rfl⟩ | ⟨path,-,rfl⟩⟩⟩ := dispatch_done hd
    · cases herr
    · cases herr
    · cases herr
    · cases hcgi
  | exec call =>
    obtain ⟨e,-,h⟩ := Option.bind_eq_some_iff.mp h
    obtain rfl := Option.some.inj h
    exact Option.some_ne_none _

section Exec

/-- `stat` reports a file that is no directory and has an execute bit. -/
def Program (stat : Stat) (path : List CChar) : Prop :=
  ∃ mode, stat path = some mode ∧ mode &&& 0o170000 ≠ 0o040000 ∧ isExec mode = true

instance (stat : Stat) (path : List CChar) : Decidable (Program stat path) :=
  inferInstanceAs (Decidable (∃ mode ∈ stat path, _))

inductive Process where
  | parent
  | child
  deriving DecidableEq

/-- The processes in which `exec_response` returns: nothing stops the child when `execl` fails. -/
def returning (execl : List CChar → Bool) (path : List CChar) : List Process :=
  if execl path then [.parent] else [.parent,.child]

/-- Only programs are executed, and only the server goes on after `exec_response`. -/
def ExecsPrograms (stat : Stat) (execl : List CChar → Bool) (env : Env) (fd : ℕ) (sock : Stream) :
    Prop :=
  ∀ call, dispatch stat env fd sock = some (.exec call) →
    Program stat call.path ∧ returning execl call.path = [.parent]

/-- The file a request names, or the default page where it names a directory, is a program unless
the request is a `GET` without parameters. -/
def NamesProgram (stat : Stat) (req : Request) : Prop :=
  ∀ mode, (rootPath req.url).length < size/2 → stat (rootPath req.url) = some mode →
    req.cgi = true → if isDir mode then
      (rootPath req.url ++ dfPath).length < size/2 → Program stat (rootPath req.url ++ dfPath)
    else isExec mode = true

theorem mask_of_not_isDir {mode : ℕ} (hd : isDir mode = false) : mode &&& 0o170000 ≠ 0o040000 := by
  intro h
  have hdir : mode &&& 0o040000 = 0o040000 := calc
    mode &&& 0o040000 = (mode &&& 0o170000) &&& 0o040000 := by rw [Nat.and_assoc]; rfl
    _ = 0o040000 := by rw [h]; rfl
  simp [isDir, hdir] at hd

theorem program_of_not_isDir {stat : Stat} {path : List CChar} {mode : ℕ}
    (hs : stat path = some mode) (hd : isDir mode = false) :
    Program stat path ↔ isExec mode = true := by
  constructor
  · rintro ⟨mode',hs',-,he⟩
    rw [hs] at hs'
    rwa [Option.some.inj hs']
  · exact fun he => ⟨mode,hs,mask_of_not_isDir hd,he⟩

/-- A request for which `locate` sets the flag is sent to a program exactly if it names one. -/
theorem locate_program_iff {stat : Stat} {req : Request} :
    (∀ path, locate stat req = some (some (path,true)) → Program stat path) ↔
      NamesProgram stat req := by
  constructor
  · intro h mode hfit hs hcgi
    split_ifs with hd
    · exact fun hlong => h _ (locate_iff.mpr ⟨hfit,mode,hs,.inl ⟨hd,hlong,rfl,hcgi.symm⟩⟩)
    · have hd' := Bool.eq_false_of_not_eq_true hd
      apply (program_of_not_isDir hs hd').mp
      apply h
      exact locate_iff.mpr ⟨hfit,mode,hs,.inr ⟨hd',rfl,by simp [hcgi]⟩⟩
  · intro h path hloc
    obtain ⟨hfit,mode,hs,⟨hd,hlong,rfl,hcgi⟩ | ⟨hd,rfl,hcgi⟩⟩ := locate_iff.mp hloc
    · have hp := h mode hfit hs hcgi.symm
      rw [if_pos hd] at hp
      exact hp hlong
    · rw [program_of_not_isDir hs hd]
      cases hexec : isExec mode with
      | true => rfl
      | false =>
        rw [hexec, Bool.or_false] at hcgi
        have hp := h mode hfit hs hcgi.symm
        rwa [hd, if_neg Bool.false_ne_true, hexec] at hp

/-- `exec_response` is called once a program is located and the length of the body is known. -/
theorem dispatch_exec_iff {stat : Stat} {env : Env} {fd : ℕ} {sock : Stream} {call : Call} :
    dispatch stat env fd sock = some (.exec call) ↔
      (getLine size sock).1 ≠ [] ∧ ∃ req path len,
        parseRequest (text (getLine size sock).1) = some (some req) ∧
        locate stat req = some (some (path,true)) ∧
        bodyLength req.method (getLine size sock).2 = some len ∧
        call = ⟨{ env with contentLength := len.env.orElse fun _ => env.contentLength },path,
          req.method,req.queryString,len.contLen,len.sock⟩ := by
  unfold dispatch
  generalize getLine size sock = line
  obtain ⟨requestLine,sock⟩ := line
  by_cases hne : requestLine = []
  · simp [hne]
  · have hpos : requestLine.length ≠ 0 := by simpa using hne
    simp only [hpos, if_false, ne_eq, hne, not_false_eq_true, true_and]
    rcases hparse : parseRequest (text requestLine) with _ | _ | req
    · simp
    · simp
    · rcases hloc : locate stat req with _ | _ | ⟨path,_ | _⟩
      · simp [hloc]
      · simp [hloc]
      · simp [hloc]
      · cases hlen : bodyLength req.method sock with
        | none => simp [hloc, hlen]
        | some len => simp [hloc, hlen, eq_comm]

/-- The server executes only programs, and no child of it goes on as a second server, exactly for
the requests that name a program or reach no call of `exec_response`. -/
theorem execsPrograms_iff {stat : Stat} {execl : List CChar → Bool} {env : Env} {fd : ℕ}
    {sock : Stream} (hexecl : ∀ path, execl path = true ↔ Program stat path) :
    ExecsPrograms stat execl env fd sock ↔
      ∀ req, parseRequest (text (getLine size sock).1) = some (some req) →
        bodyLength req.method (getLine size sock).2 ≠ none → NamesProgram stat req := by
  have hret (path : List CChar) : returning execl path = [.parent] ↔ Program stat path := by
    rw [← hexecl, returning]
    cases execl path <;> decide
  simp only [ExecsPrograms, hret, and_self, ← locate_program_iff, dispatch_exec_iff]
  constructor
  · intro h req hparse hlen path hloc
    obtain ⟨len,hlen⟩ := Option.ne_none_iff_exists'.mp hlen
    have hne : (getLine size sock).1 ≠ [] := by
      intro hnil
      have hempty : parseRequest (text []) = some none := rfl
      rw [hnil, hempty] at hparse
      exact absurd hparse (by simp)
    exact h _ ⟨hne,req,path,len,hparse,hloc,hlen,rfl⟩
  · rintro h call ⟨-,req,path,len,hparse,hloc,hlen,rfl⟩
    exact h req hparse (by simp [hlen]) path hloc

theorem execsPrograms_755 : ExecsPrograms (fun _ => some 0o100755) (fun _ => true)
    ⟨none,none,none⟩ 3 (cstr "POST /math_cgi HTTP/1.0\r\n\r\n") := by
  have hprog (path : List CChar) : Program (fun _ => some 0o100755) path :=
    ⟨0o100755,rfl,by decide,by decide⟩
  apply (execsPrograms_iff fun path => iff_of_true rfl (hprog path)).mpr
  rintro req - - mode - hs -
  obtain rfl := Option.some.inj hs
  rw [if_neg (by decide)]
  decide

/-- A question mark after the name of a page: the page is executed, and the child goes on. -/
theorem not_execsPrograms_644 :
    (∀ path, false = true ↔ Program (fun _ => some 0o100644) path) ∧
      ¬ExecsPrograms (fun _ => some 0o100644) (fun _ => false) ⟨none,none,none⟩ 3
        (cstr "GET /index.html?x=1 HTTP/1.0\r\n\r\n") := by
  have hnone (path : List CChar) : ¬Program (fun _ => some 0o100644) path := by
    rintro ⟨mode,hs,-,he⟩
    obtain rfl := Option.some.inj hs
    exact absurd he (by decide)
  refine ⟨fun path => iff_of_false (by decide) (hnone path),fun h => ?_⟩
  have hcall : dispatch (fun _ => some 0o100644) ⟨none,none,none⟩ 3
      (cstr "GET /index.html?x=1 HTTP/1.0\r\n\r\n") = some (.exec ⟨⟨none,none,none⟩,
        cstr "/home/lounuo/HTTP/index.html",cstr "GET",cstr "x=1",0,cstr "\r\n"⟩) := rfl
  exact hnone _ (h _ hcall).1

end Exec
end LibeventHttpd
