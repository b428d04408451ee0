import LibeventHttpd.Library.Transition
import LibeventHttpd.WriteFc

/-! The callbacks of the event loop over any number of connections. The record of a request lives in
the one variable `_data`, from the read callback to the write callback. -/
namespace LibeventHttpd
open Transition

/-- What the callbacks find outside the server: the file system and the programs. -/
structure Site where
  stat : Stat
  file : List CChar → List CChar
  cgi : Child → List CChar

/-- The record, the environment, the bytes left on the socket and the program that was run. Without
a process for the program `exec_response` returns early, and `_buf` has what `malloc` left in it. -/
def Site.accept (site : Site) (fork : Bool) (buf : Option (List CChar)) (env : Env) (fd : ℕ)
    (sock : Stream) : Option Accepted :=
  if fork then acceptRequest site.stat site.cgi env fd sock
  else do
    match ← dispatch site.stat env fd sock with
    | .done data sock => return ⟨data,env,sock,none⟩
    | .exec call =>
      if ArgsFit call.method call.queryString then
        let data := DataBuf.filled fd call.method call.path call.queryString
        let data := { data with cgi := true, contentLength := some call.contentLength, buf := buf }
        let env := { call.env with
          method := some call.method
          queryString := some call.queryString }
        return ⟨data,env,call.sock,none⟩
      else none

/-- The server and its clients. Connections are counted; a descriptor is reused after it is closed.
A pending event remembers the connection it was added for. -/
structure Server where
  fds : ℕ → Option ℕ
  reading : ℕ → Option ℕ
  writing : ℕ → Option ℕ
  data : Option DataBuf
  env : Env
  conns : ℕ
  unread : ℕ → Stream
  received : ℕ → List CChar
  -- what a client sends, the environment it was read in, what `read_fc` made of it, and whether
  -- its `write_fc` has run
  request : ℕ → Stream
  envAt : ℕ → Env
  record : ℕ → Option DataBuf
  written : ℕ → Bool

/-- What the calls for a request return, and what `malloc` leaves in `_buf`. -/
structure ReadCalls where
  malloc : Bool
  fork : Bool
  buf : List CChar

/-- A callback, with the descriptor of its event. The kernel picks a free one for a new client,
who will send `request`. -/
inductive Event where
  | accept (fd : ℕ) (request : Stream)
  | read (fd : ℕ) (calls : ReadCalls)
  | write (fd : ℕ)

def acceptFc (s : Server) (fd : ℕ) (request : Stream) : Option Server :=
  if s.fds fd = none then some { s with
    fds := Function.update s.fds fd (some s.conns)
    reading := Function.update s.reading fd (some s.conns)
    conns := s.conns+1
    unread := Function.update s.unread s.conns request
    request := Function.update s.request s.conns request }
  else none

/-- The bytes on the socket behind a descriptor; on a closed one `recv` fails. -/
def Server.sock (s : Server) (fd : ℕ) : Stream := (s.fds fd).elim [] s.unread

/-- A change of one of the values kept for each connection, at the one behind a descriptor. -/
def atFd {α : Type*} (fd : Option ℕ) (f : ℕ → α) (g : α → α) : ℕ → α :=
  fd.elim f fun c => Function.update f c (g (f c))

/-- `_data` is `NULL`, and no event is added for the connection. -/
def Server.noRecord (s : Server) (fd : ℕ) : Server :=
  { s with reading := Function.update s.reading fd none, data := none }

/-- `_data` is a new record, and an event to write is added. -/
def Server.newRecord (s : Server) (fd c : ℕ) (a : Accepted) : Server :=
  { s with
    reading := Function.update s.reading fd none
    writing := Function.update s.writing fd (some c)
    data := some a.data
    env := a.env
    unread := atFd (s.fds fd) s.unread fun _ => a.sock
    envAt := Function.update s.envAt c s.env
    record := Function.update s.record c (some a.data) }

def readFc (site : Site) (s : Server) (fd : ℕ) (calls : ReadCalls) : Option Server := do
  let c ← s.reading fd
  if calls.malloc then
    let a ← site.accept calls.fork (some calls.buf) s.env fd (s.sock fd)
    return s.newRecord fd c a
  else return s.noRecord fd

/-- The response is sent, and its descriptor closed. -/
def Server.send (s : Server) (data : DataBuf) (bytes : List CChar) : Server :=
  { s with
    received := atFd (s.fds data.fd) s.received (· ++ bytes)
    unread := if data.errNum > 0 then atFd (s.fds data.fd) s.unread clearHead else s.unread
    fds := Function.update s.fds data.fd none }

/-- What `write_fc` does, whatever event it runs for. -/
def sendData (site : Site) (s : Server) : Option Server := do
  let data ← s.data
  match ← respond site.file site.stat data with
  | none => return s
  | some bytes => return s.send data bytes

def writeFc (site : Site) (s : Server) (fd : ℕ) : Option Server := do
  let c ← s.writing fd
  let s ← sendData site s
  return { s with
    writing := Function.update s.writing fd none
    written := Function.update s.written c true }

def serve (site : Site) (s : Server) : Event → Option Server
  | .accept fd request => acceptFc s fd request
  | .read fd calls => readFc site s fd calls
  | .write fd => writeFc site s fd

/-- Before the first client. -/
def listening (env : Env) : Server where
  fds := fun _ => none
  reading := fun _ => none
  writing := fun _ => none
  data := none
  env := env
  conns := 0
  unread := fun _ => []
  received := fun _ => []
  request := fun _ => []
  envAt := fun _ => env
  record := fun _ => none
  written := fun _ => false

theorem update_some_iff {α : Type} {f : ℕ → Option α} {fd fd' : ℕ} {c c' : α} :
    Function.update f fd (some c) fd' = some c' ↔
      fd' = fd ∧ c' = c ∨ fd' ≠ fd ∧ f fd' = some c' := by
  by_cases h : fd' = fd
  · simp [h, eq_comm]
  · simp [h]

theorem update_none_iff {α : Type} {f : ℕ → Option α} {fd fd' : ℕ} {c' : α} :
    Function.update f fd none fd' = some c' ↔ fd' ≠ fd ∧ f fd' = some c' := by
  by_cases h : fd' = fd <;> simp [h]

/-- A connection that no descriptor has yet is given to one descriptor only. -/
theorem update_injective {f : ℕ → Option ℕ} {n m fd₁ fd₂ c : ℕ}
    (hf : ∀ fd fd' c, f fd = some c → f fd' = some c → fd = fd') (hnew : ∀ fd, f fd ≠ some n)
    (h₁ : Function.update f m (some n) fd₁ = some c)
    (h₂ : Function.update f m (some n) fd₂ = some c) : fd₁ = fd₂ := by
  obtain ⟨rfl,rfl⟩ | ⟨-,hold₁⟩ := update_some_iff.mp h₁
  · obtain ⟨rfl,-⟩ | ⟨-,hold₂⟩ := update_some_iff.mp h₂
    · rfl
    · exact absurd hold₂ (hnew fd₂)
  · obtain ⟨-,rfl⟩ | ⟨-,hold₂⟩ := update_some_iff.mp h₂
    · exact absurd hold₁ (hnew fd₁)
    · exact hf fd₁ fd₂ c hold₁ hold₂

theorem Site.accept_fork {site : Site} {buf : Option (List CChar)} (env : Env) (fd : ℕ)
    (sock : Stream) :
    site.accept true buf env fd sock = acceptRequest site.stat site.cgi env fd sock := if_pos rfl

/-- The record is about the socket it was made for, whether or not its program is run. -/
theorem Site.accept_fd {site : Site} {fork : Bool} {buf : Option (List CChar)} {env : Env} {fd : ℕ}
    {sock : Stream} {a : Accepted} (h : site.accept fork buf env fd sock = some a) :
    a.data.fd = fd := by
  cases fork with
  | true => exact acceptRequest_fd h
  | false =>
    obtain ⟨d,hd,h⟩ := Option.bind_eq_some_iff.mp h
    cases d with
    | done data rest =>
      obtain rfl := Option.some.inj h
      exact dispatch_done_fd hd
    | exec call =>
      simp only at h
      split_ifs at h
      obtain rfl := Option.some.inj h
      rfl

theorem readFc_cases {site : Site} {s t : Server} {fd : ℕ} {calls : ReadCalls}
    (h : readFc site s fd calls = some t) : ∃ c, s.reading fd = some c ∧
      (calls.malloc = false ∧ t = s.noRecord fd ∨ calls.malloc = true ∧ ∃ a,
        site.accept calls.fork (some calls.buf) s.env fd (s.sock fd) = some a ∧
          t = s.newRecord fd c a) := by
  obtain ⟨c,hread,h⟩ := Option.bind_eq_some_iff.mp h
  refine ⟨c,hread,?_⟩
  split_ifs at h with hmalloc
  · obtain ⟨a,ha,h⟩ := Option.bind_eq_some_iff.mp h
    exact .inr ⟨hmalloc,a,ha,(Option.some.inj h).symm⟩
  · exact .inl ⟨Bool.eq_false_of_not_eq_true hmalloc,(Option.some.inj h).symm⟩

/-- What is sent changes nothing for a client that is not behind the descriptor. -/
theorem Server.send_of_ne {s : Server} {data : DataBuf} {c : ℕ} (bytes : List CChar)
    (h : s.fds data.fd ≠ some c) : (s.send data bytes).received c = s.received c ∧
      (s.send data bytes).unread c = s.unread c := by
  cases hfd : s.fds data.fd with
  | none => simp [Server.send, atFd, hfd]
  | some c' =>
    have hne : c ≠ c' := fun he => h (he ▸ hfd)
    refine ⟨by simp [Server.send, atFd, hfd, hne],?_⟩
    by_cases herr : data.errNum > 0 <;> simp [Server.send, atFd, hfd, hne, herr]

theorem sendData_cases {site : Site} {s t : Server} (h : sendData site s = some t) :
    ∃ data, s.data = some data ∧ (data.Missing site.stat ∧ t = s ∨
      ¬data.Missing site.stat ∧ ∃ bytes, reply site.file data = some bytes ∧
        t = s.send data bytes) := by
  obtain ⟨data,hlast,h⟩ := Option.bind_eq_some_iff.mp h
  refine ⟨data,hlast,?_⟩
  rw [respond] at h
  split_ifs at h with hmissing
  · exact .inl ⟨hmissing,(Option.some.inj h).symm⟩
  · obtain ⟨r,hr,h⟩ := Option.bind_eq_some_iff.mp h
    obtain ⟨bytes,hbytes,rfl⟩ := Option.map_eq_some_iff.mp hr
    exact .inr ⟨hmissing,bytes,hbytes,(Option.some.inj h).symm⟩

/-- The record of a connection is what `accept_request` makes of the request sent on it. -/
def Recorded (site : Site) (s : Server) (c : ℕ) (data : DataBuf) : Prop :=
  s.record c = some data ∧ ∃ fd a,
    acceptRequest site.stat site.cgi (s.envAt c) fd (s.request c) = some a ∧ a.data = data

/-- The client has received the response to its own request if its write callback has run, and
nothing before. -/
def AnsweredTo (site : Site) (s : Server) (c : ℕ) : Prop :=
  (s.written c = true → ∃ data, Recorded site s c data ∧
    respond site.file site.stat data = some (some (s.received c))) ∧
      (s.written c = false → s.received c = [])

/-- Every connection whose write callback has run has received exactly one response, its own. -/
def Answered (site : Site) (s : Server) : Prop := ∀ c, AnsweredTo site s c

/-- The two processes of `exec_response` come to their end: the program can be executed, and the
client sends as many bytes as it announces. -/
def Call.Returns (stat : Stat) (call : Call) : Prop :=
  Program stat call.path ∧ 0 ≤ call.contentLength ∧
    call.contentLength ≤ (clearHead call.sock).length

instance (stat : Stat) (call : Call) : Decidable (call.Returns stat) :=
  inferInstanceAs (Decidable (_ ∧ _ ∧ _))

/-- A program finds a process and comes to its end. A write callback comes before any other request
is read, so that `_data` is the record of its socket, and a file that is to be sent is there. -/
def OwnRecord (site : Site) (s : Server) : Event → Prop
  | .accept _ _ => True
  | .read fd calls => calls.fork = true ∧
      ∀ call, dispatch site.stat s.env fd (s.sock fd) = some (.exec call) → call.Returns site.stat
  | .write fd => ∃ data ∈ s.data, data.fd = fd ∧ ¬data.Missing site.stat

/-- What holds between callbacks as long as no record is replaced before it is answered. -/
structure Serving (site : Site) (s : Server) : Prop where
  injective : ∀ fd fd' c, s.fds fd = some c → s.fds fd' = some c → fd = fd'
  opened : ∀ fd c, s.fds fd = some c → c < s.conns
  unopened : ∀ c, s.conns ≤ c → s.record c = none ∧ s.written c = false
  toRead : ∀ fd c, s.reading fd = some c →
    s.fds fd = some c ∧ s.unread c = s.request c ∧ s.record c = none ∧ s.written c = false
  toWrite : ∀ fd c, s.writing fd = some c →
    s.fds fd = some c ∧ s.written c = false ∧ ∃ data, Recorded site s c data
  latest : ∀ data c, s.data = some data → s.writing data.fd = some c → s.record c = some data
  answered : Answered site s

theorem Recorded.congr {site : Site} {s t : Server} {c : ℕ} {data : DataBuf}
    (h : Recorded site s c data) (hrecord : t.record c = s.record c)
    (hrequest : t.request c = s.request c) (henv : t.envAt c = s.envAt c) :
    Recorded site t c data := by
  rwa [Recorded, hrecord, hrequest, henv]

/-- A callback for another client changes nothing for this one. -/
theorem AnsweredTo.congr {site : Site} {s t : Server} {c : ℕ} (h : AnsweredTo site s c)
    (hrecord : t.record c = s.record c) (hrequest : t.request c = s.request c)
    (henv : t.envAt c = s.envAt c) (hwritten : t.written c = s.written c)
    (hreceived : t.received c = s.received c) : AnsweredTo site t c := by
  constructor
  · intro hw
    obtain ⟨data,hdata,hresp⟩ := h.1 (hwritten ▸ hw)
    exact ⟨data,hdata.congr hrecord hrequest henv,hreceived ▸ hresp⟩
  · intro hw
    rw [hreceived]
    exact h.2 (hwritten ▸ hw)

theorem serving_listening (site : Site) (env : Env) : Serving site (listening env) where
  injective := by simp [listening]
  opened := by simp [listening]
  unopened := by simp [listening]
  toRead := by simp [listening]
  toWrite := by simp [listening]
  latest := by simp [listening]
  answered := by simp [Answered, AnsweredTo, listening]

/-- Another open descriptor belongs to another connection. -/
theorem Serving.ne {site : Site} {s : Server} (hs : Serving site s) {fd fd' c c' : ℕ}
    (hfd : s.fds fd = some c) (hne : fd' ≠ fd) (hfd' : s.fds fd' = some c') : c' ≠ c := by
  rintro rfl
  exact hne (hs.injective fd' fd c' hfd' hfd)

theorem Serving.unopened_ne {site : Site} {s : Server} (hs : Serving site s) {fd c c' : ℕ}
    (hfd : s.fds fd = some c) (hc' : s.conns ≤ c') : c' ≠ c :=
  ((hs.opened fd c hfd).trans_le hc').ne'

theorem AnsweredTo.of_not_written {site : Site} {s : Server} {c : ℕ}
    (hwritten : s.written c = false) (hreceived : s.received c = []) : AnsweredTo site s c := by
  refine ⟨fun hw => ?_,fun _ => hreceived⟩
  rw [hwritten] at hw
  exact absurd hw Bool.false_ne_true

/-- The connection number of a new client is fresh, and so is its descriptor. -/
theorem serving_accept {site : Site} {s t : Server} {fd : ℕ} {request : Stream}
    (hs : Serving site s) (h : acceptFc s fd request = some t) : Serving site t := by
  unfold acceptFc at h
  split_ifs at h with hfree
  obtain rfl := Option.some.inj h
  have hold {fd' c : ℕ} (hfd : s.fds fd' = some c) : c ≠ s.conns := (hs.opened fd' c hfd).ne
  have hother {fd' c : ℕ} (hfd : s.fds fd' = some c) : fd' ≠ fd := by
    rintro rfl
    simp [hfree] at hfd
  obtain ⟨hrecord,hwritten⟩ := hs.unopened s.conns le_rfl
  constructor
  case injective =>
    intro fd₁ fd₂ c h₁ h₂
    exact update_injective hs.injective (fun fd hfd => hold hfd rfl) h₁ h₂
  case opened =>
    intro fd' c hfd
    obtain ⟨-,rfl⟩ | ⟨-,hfd⟩ := update_some_iff.mp hfd
    · exact Nat.lt_succ_self _
    · exact Nat.lt_succ_of_lt (hs.opened fd' c hfd)
  case unopened => exact fun c hc => hs.unopened c (Nat.le_of_succ_le hc)
  case toRead =>
    intro fd' c hread
    obtain ⟨rfl,rfl⟩ | ⟨hne,hread⟩ := update_some_iff.mp hread
    · simp [hrecord, hwritten]
    · obtain ⟨hfd,hunread,hrest⟩ := hs.toRead fd' c hread
      simpa [hne, hold hfd, hfd, hunread] using hrest
  case toWrite =>
    intro fd' c hwrite
    obtain ⟨hfd,hw,data,hdata⟩ := hs.toWrite fd' c hwrite
    refine ⟨?_,hw,data,hdata.congr rfl (Function.update_of_ne (hold hfd) _ _) rfl⟩
    exact update_some_iff.mpr (.inr ⟨hother hfd,hfd⟩)
  case latest => exact hs.latest
  case answered =>
    intro c
    by_cases hc : c = s.conns
    · subst hc
      exact .of_not_written hwritten ((hs.answered s.conns).2 hwritten)
    · exact (hs.answered c).congr rfl (Function.update_of_ne hc _ _) rfl rfl rfl

/-- Without a record the connection is left as it is, and so are all others. -/
theorem serving_noRecord {site : Site} {s : Server} (hs : Serving site s) (fd : ℕ) :
    Serving site (s.noRecord fd) where
  injective := hs.injective
  opened := hs.opened
  unopened := hs.unopened
  toRead := fun fd' c hread => hs.toRead fd' c (update_none_iff.mp hread).2
  toWrite := hs.toWrite
  latest := fun data c hlast => by cases hlast
  answered := hs.answered

/-- The request that is read is the one of the connection, which is not answered yet. -/
theorem serving_newRecord {site : Site} {s : Server} {fd c : ℕ} {a : Accepted}
    (hs : Serving site s) (hread : s.reading fd = some c)
    (ha : acceptRequest site.stat site.cgi s.env fd (s.sock fd) = some a) :
    Serving site (s.newRecord fd c a) := by
  obtain ⟨hfd,hunread,hrecord,hwritten⟩ := hs.toRead fd c hread
  have hdata : a.data.fd = fd := acceptRequest_fd ha
  have hsock : s.sock fd = s.request c := by rw [Server.sock, hfd, ← hunread]; rfl
  rw [hsock] at ha
  have henv : (s.newRecord fd c a).envAt c = s.env := Function.update_self _ _ _
  constructor
  case injective => exact hs.injective
  case opened => exact hs.opened
  case unopened =>
    intro c' hc'
    simpa [Server.newRecord, hs.unopened_ne hfd hc'] using hs.unopened c' hc'
  case toRead =>
    intro fd' c' hread'
    obtain ⟨hne,hread'⟩ := update_none_iff.mp hread'
    obtain ⟨hfd',hunread',hrest⟩ := hs.toRead fd' c' hread'
    simpa [Server.newRecord, atFd, hfd, hs.ne hfd hne hfd', hfd', hunread'] using hrest
  case toWrite =>
    intro fd' c' hwrite
    obtain ⟨rfl,rfl⟩ | ⟨hne,hwrite⟩ := update_some_iff.mp hwrite
    · exact ⟨hfd,hwritten,a.data,Function.update_self _ _ _,fd',a,henv ▸ ha,rfl⟩
    · obtain ⟨hfd',hw,data,hrec⟩ := hs.toWrite fd' c' hwrite
      have hc : c' ≠ c := hs.ne hfd hne hfd'
      exact ⟨hfd',hw,data,hrec.congr (Function.update_of_ne hc _ _) rfl
        (Function.update_of_ne hc _ _)⟩
  case latest =>
    intro data c' hlast hwrite
    obtain rfl := Option.some.inj hlast
    obtain ⟨-,rfl⟩ | ⟨hne,-⟩ := update_some_iff.mp hwrite
    · exact Function.update_self _ _ _
    · exact absurd hdata hne
  case answered =>
    intro c'
    by_cases hc : c' = c
    · subst hc
      exact .of_not_written hwritten ((hs.answered c').2 hwritten)
    · exact (hs.answered c').congr (Function.update_of_ne hc _ _) rfl
        (Function.update_of_ne hc _ _) rfl rfl

theorem serving_read {site : Site} {s t : Server} {fd : ℕ} {calls : ReadCalls}
    (hs : Serving site s) (hfork : calls.fork = true) (h : readFc site s fd calls = some t) :
    Serving site t := by
  obtain ⟨c,hread,⟨-,rfl⟩ | ⟨-,a,ha,rfl⟩⟩ := readFc_cases h
  · exact serving_noRecord hs fd
  · rw [hfork, Site.accept_fork] at ha
    exact serving_newRecord hs hread ha

/-- With its own record in `_data` the write callback answers its own client, for the first time. -/
theorem serving_write {site : Site} {s t : Server} {fd : ℕ}
    (hs : Serving site s) (hown : OwnRecord site s (.write fd))
    (h : writeFc site s fd = some t) : Serving site t := by
  obtain ⟨c,hwrite,h⟩ := Option.bind_eq_some_iff.mp h
  obtain ⟨u,hsend,h⟩ := Option.bind_eq_some_iff.mp h
  obtain rfl := Option.some.inj h
  obtain ⟨data,hlast,rfl,hthere⟩ := hown
  obtain ⟨data',hlast',⟨hmissing,-⟩ | ⟨-,bytes,hreply,rfl⟩⟩ := sendData_cases hsend
  · obtain rfl := Option.some.inj (hlast.symm.trans hlast')
    exact absurd hmissing hthere
  obtain rfl := Option.some.inj (hlast.symm.trans hlast')
  obtain ⟨hfd,hwritten,data',hrec⟩ := hs.toWrite data.fd c hwrite
  obtain rfl : data' = data :=
    Option.some.inj (hrec.1.symm.trans (hs.latest data c hlast hwrite))
  have hkept {c' : ℕ} (hc : c' ≠ c) : s.fds data'.fd ≠ some c' := by
    rw [hfd]
    exact fun he => hc (Option.some.inj he).symm
  constructor
  case injective =>
    intro fd₁ fd₂ c' h₁ h₂
    exact hs.injective fd₁ fd₂ c' (update_none_iff.mp h₁).2 (update_none_iff.mp h₂).2
  case opened => exact fun fd' c' hfd' => hs.opened fd' c' (update_none_iff.mp hfd').2
  case unopened =>
    intro c' hc'
    have hnew := hs.unopened c' hc'
    exact ⟨hnew.1,(Function.update_of_ne (hs.unopened_ne hfd hc') _ _).trans hnew.2⟩
  case toRead =>
    intro fd' c' hread
    obtain ⟨hfd',hunread,hnone,hw⟩ := hs.toRead fd' c' hread
    have hc : c' ≠ c := by
      rintro rfl
      exact absurd (hnone.symm.trans hrec.1) (by simp)
    have hne : fd' ≠ data'.fd := by
      rintro rfl
      exact hc (Option.some.inj (hfd'.symm.trans hfd))
    refine ⟨update_none_iff.mpr ⟨hne,hfd'⟩,?_,hnone,(Function.update_of_ne hc _ _).trans hw⟩
    exact (Server.send_of_ne bytes (hkept hc)).2.trans hunread
  case toWrite =>
    intro fd' c' hwrite'
    obtain ⟨hne,hwrite'⟩ := update_none_iff.mp hwrite'
    obtain ⟨hfd',hw,hrec'⟩ := hs.toWrite fd' c' hwrite'
    refine ⟨update_none_iff.mpr ⟨hne,hfd'⟩,?_,hrec'⟩
    exact (Function.update_of_ne (hs.ne hfd hne hfd') _ _).trans hw
  case latest =>
    intro data c' hlast' hwrite'
    obtain rfl := Option.some.inj (hlast.symm.trans hlast')
    exact absurd rfl (update_none_iff.mp hwrite').1
  case answered =>
    intro c'
    by_cases hc : c' = c
    · subst hc
      have hempty : s.received c' = [] := (hs.answered c').2 hwritten
      refine ⟨fun _ => ⟨data',hrec,?_⟩,fun hw => ?_⟩
      · rw [respond_of_present _ hthere, hreply]
        simp [Server.send, atFd, hfd, hempty]
      · simp at hw
    · exact (hs.answered c').congr rfl rfl rfl (Function.update_of_ne hc _ _)
        (Server.send_of_ne bytes (hkept hc)).1

theorem serving_serve {site : Site} {s t : Server} {e : Event} (hs : Serving site s)
    (hown : OwnRecord site s e) (h : serve site s e = some t) : Serving site t := by
  cases e with
  | accept fd request => exact serving_accept hs h
  | read fd calls => exact serving_read hs hown.1 h
  | write fd => exact serving_write hs hown h

/-- As long as each write callback finds its own record in `_data`, with a file that is there, and
each program is run to its end, every client is answered. -/
theorem answered_of_ownRecord {site : Site} {env : Env} {s : Server}
    (h : Reaches (serve site) (OwnRecord site) (listening env) s) : Answered site s :=
  (h.keeps (fun _ _ _ hs hown hstep => serving_serve hs hown hstep)
    (serving_listening site env)).answered

/-- A site of plain files, each containing its own name. -/
def pages : Site := ⟨fun _ => some 0o100644,id,fun _ => []⟩

def getA : Stream := cstr "GET /a HTTP/1.0\r\n\r\n"
def getB : Stream := cstr "GET /b HTTP/1.0\r\n\r\n"

/-- Calls that succeed. -/
def ReadCalls.succeed : ReadCalls := ⟨true,true,[]⟩

theorem answered_a_b : ∃ s, run (serve pages) (listening ⟨none,none,none⟩)
    [.accept 5 getA,.accept 6 getB,.read 5 .succeed,.write 5,.read 6 .succeed,.write 6] = some s ∧
    Answered pages s := by
  have h₀ : Reaches (serve pages) (OwnRecord pages) (listening ⟨none,none,none⟩) _ :=
    Reaches.refl _
  have h₁ := h₀.next (.accept 5 getA) trivial rfl
  have h₂ := h₁.next (.accept 6 getB) trivial rfl
  have h₃ := h₂.next (.read 5 .succeed) ⟨rfl,fun _ h => by cases h⟩ rfl
  have h₄ := h₃.next (.write 5) ⟨_,rfl,rfl,by decide⟩ rfl
  have h₅ := h₄.next (.read 6 .succeed) ⟨rfl,fun _ h => by cases h⟩ rfl
  have h₆ := h₅.next (.write 6) ⟨_,rfl,rfl,by decide⟩ rfl
  exact ⟨_,rfl,answered_of_ownRecord h₆⟩

/-- Two requests are read before the first is answered: its client gets nothing. -/
theorem not_answered_a : ∃ s, run (serve pages) (listening ⟨none,none,none⟩)
    [.accept 5 getA,.accept 6 getB,.read 5 .succeed,.read 6 .succeed,.write 5] = some s ∧
      ¬Answered pages s := by
  refine ⟨_,rfl,fun h => ?_⟩
  obtain ⟨data,⟨hrecord,-⟩,hresp⟩ := (h 0).1 rfl
  obtain rfl := Option.some.inj hrecord
  exact absurd (Option.some.inj (Option.some.inj hresp)) (List.cons_ne_nil _ _)

end LibeventHttpd
