import LibeventHttpd.EventLoop

/-! The event loop on `epoll`. A registration carries one union, read as a descriptor or as a
pointer to the record of a request; a batch of events is handled while descriptors and addresses
are given out again. -/
namespace LibeventHttpd.Epoll
open Transition

inductive Interest where
  | epollIn
  | epollOut
  deriving DecidableEq

/-- A registered `epoll_event`, with the 64 bits of its union. -/
structure Registration where
  events : Interest
  data : ℕ
  deriving DecidableEq

/-- `data.fd` -/
def fdOf (data : ℕ) : ℕ := data%2^32

/-- The union after `data.fd = fd`: the upper half stays. -/
def setFd (data fd : ℕ) : ℕ := data/2^32*2^32 + fd

/-- An element of `evs`. The descriptor it is about is known to the kernel only. -/
structure Ready where
  fd : ℕ
  epollIn : Bool
  epollOut : Bool
  data : ℕ
  deriving DecidableEq

/-- The server, the kernel and the clients. Connections and records are counted. -/
structure Server where
  fds : ℕ → Option ℕ
  registered : ℕ → Option Registration
  -- the union of `ep_ev`, which is used for every registration
  epEv : ℕ
  batch : List Ready
  returned : Bool
  -- the records that are not freed, by their address
  heap : ℕ → Option (ℕ × DataBuf)
  records : ℕ
  frees : ℕ → ℕ
  misused : Bool
  env : Env
  conns : ℕ
  unread : ℕ → Stream
  received : ℕ → List CChar
  request : ℕ → Stream
  -- the environment that a request was read in
  envAt : ℕ → Env

/-- The results of the calls made for one event. Of the two parts of a response some bytes are
sent; `buf` is what `_buf` holds where nothing was stored in it. -/
structure Calls where
  accept : Option (ℕ × Stream)
  malloc : Option ℕ
  fork : Bool
  stat : Bool
  sent : ℕ × ℕ
  buf : List CChar

inductive Action where
  | wait (batch : List Ready)
  | event (calls : Calls)

/-- Nothing is known of `_buf` before something is stored in it. -/
def acceptRequest (site : Site) (fork : Bool) (env : Env) (fd : ℕ) (sock : Stream) :
    Option (DataBuf × Env × Stream) :=
  (site.accept fork none env fd sock).map fun a => (a.data,a.env,a.sock)

/-- The status line and the body of the response to a record, or `_buf` alone. -/
def response (file : List CChar → List CChar) (data : DataBuf) :
    Option (List CChar × List CChar) :=
  if data.errNum = 0 then
    if data.cgi then (data.buf.bind sendBuf).map fun b => (b,[])
    else data.path.map fun path => (cstr "HTTP/1.0 200 OK\r\n\r\n",file path)
  else if data.errNum > 0 then (statusLine data.errNum).map fun line => (line,file errorPath)
  else some ([],[])

theorem reply_eq (file : List CChar → List CChar) (data : DataBuf) :
    reply file data = (response file data).map fun r => r.1 ++ r.2 := by
  unfold reply response errorResponse sendResponse
  split_ifs
  · cases data.buf.bind sendBuf <;> simp
  · cases data.path <;> simp
  · cases statusLine data.errNum <;> simp
  · rfl

/-- What is sent for a record. -/
def sent (file : List CChar → List CChar) (calls : Calls) (data : DataBuf) :
    Option (List CChar) :=
  if data.errNum = 0 ∧ data.cgi = true ∧ data.buf = none then some calls.buf
  else (response file data).map fun r => r.1.take calls.sent.1 ++ r.2.take calls.sent.2

/-- The bytes on the socket behind a descriptor. -/
def Server.sock (s : Server) (fd : ℕ) : Stream := (s.fds fd).elim [] s.unread

section Handlers
variable (site : Site) (sock : ℕ) (s : Server) (ev : Ready) (calls : Calls)

/-- `EPOLL_CTL_ADD` for a new client. -/
def Server.add (fd : ℕ) (request : Stream) : Server :=
  { s with
    fds := Function.update s.fds fd (some s.conns)
    registered := Function.update s.registered fd (some ⟨.epollIn,setFd s.epEv fd⟩)
    epEv := setFd s.epEv fd
    conns := s.conns+1
    unread := Function.update s.unread s.conns request
    request := Function.update s.request s.conns request }

/-- `EPOLL_CTL_MOD` with the address of a new record. -/
def Server.modify (fd a : ℕ) (data : DataBuf) (env : Env) (rest : Stream) : Server :=
  { s with
    heap := Function.update s.heap a (some (s.records,data))
    records := s.records+1
    env := env
    unread := atFd (s.fds fd) s.unread fun _ => rest
    envAt := atFd (s.fds fd) s.envAt fun _ => s.env
    epEv := a
    registered := Function.update s.registered fd
      ((s.registered fd).map fun _ => ⟨.epollOut,a⟩) }

/-- The response is sent; then `EPOLL_CTL_DEL`, `close` and `free`. -/
def Server.delete (a n : ℕ) (data : DataBuf) (bytes : List CChar) : Server :=
  { s with
    received := atFd (s.fds data.fd) s.received (· ++ bytes)
    unread := if data.errNum > 0 then atFd (s.fds data.fd) s.unread clearHead else s.unread
    registered := Function.update s.registered data.fd none
    fds := Function.update s.fds data.fd none
    heap := Function.update s.heap a none
    frees := Function.update s.frees n (s.frees n+1) }

variable {s}

theorem Server.add_registered_ne {fd fd' : ℕ} {request : Stream} (h : fd' ≠ fd) :
    (s.add fd request).registered fd' = s.registered fd' :=
  Function.update_of_ne h _ _

theorem Server.modify_registered_ne {fd fd' a : ℕ} {data : DataBuf} {env : Env} {rest : Stream}
    (h : fd' ≠ fd) : (s.modify fd a data env rest).registered fd' = s.registered fd' :=
  Function.update_of_ne h _ _

theorem Server.modify_heap_iff {fd a a' n : ℕ} {data data' : DataBuf} {env : Env} {rest : Stream}
    (ha : s.heap a = none) :
    (s.modify fd a data env rest).heap a' = some (n,data') ↔
      a' = a ∧ n = s.records ∧ data' = data ∨ s.heap a' = some (n,data') := by
  by_cases h : a' = a
  · simp [Server.modify, h, ha, eq_comm]
  · simp [Server.modify, h]

theorem Server.delete_registered_ne {fd a n : ℕ} {data : DataBuf} {bytes : List CChar}
    (h : fd ≠ data.fd) : (s.delete a n data bytes).registered fd = s.registered fd :=
  Function.update_of_ne h _ _

theorem Server.delete_fds_iff {fd a n c : ℕ} {data : DataBuf} {bytes : List CChar} :
    (s.delete a n data bytes).fds fd = some c ↔ fd ≠ data.fd ∧ s.fds fd = some c :=
  update_none_iff

theorem Server.delete_heap_iff {a a' n n' : ℕ} {data data' : DataBuf} {bytes : List CChar} :
    (s.delete a n data bytes).heap a' = some (n',data') ↔
      a' ≠ a ∧ s.heap a' = some (n',data') :=
  update_none_iff

variable (s)

/-- A descriptor from the kernel is not open, nor is it the listening one. -/
def acceptEvent : Option Server :=
  match calls.accept with
  | none => some s
  | some (fd,request) =>
    if s.fds fd = none ∧ fd ≠ sock ∧ fd < 2^31 then some (s.add fd request) else none

/-- An address from `malloc` is that of no other record. -/
def readEvent : Option Server :=
  match calls.malloc with
  | none => some s
  | some a =>
    if s.heap a = none then do
      let fd := fdOf ev.data
      let (data,env,rest) ← acceptRequest site calls.fork s.env fd (s.sock fd)
      return s.modify fd a data env rest
    else none

/-- Where `error_response` has closed the descriptor, `EPOLL_CTL_DEL` and the second `close` fail
without effect. -/
def writeEvent : Option Server :=
  match s.heap ev.data with
  | none => some { s with misused := true }
  | some (n,data) =>
    if data.errNum = 0 ∧ data.cgi = false ∧ calls.stat = false then some { s with returned := true }
    else do
      let bytes ← sent site.file calls data
      return s.delete ev.data n data bytes

def handleEvent : Option Server :=
  if fdOf ev.data = sock ∧ ev.epollIn then acceptEvent sock s calls
  else if ev.epollIn then readEvent site s ev calls
  else if ev.epollOut then writeEvent site s ev calls
  else some s

/-- The kernel reports a registered descriptor with its union, and no event that was not asked
for. -/
def Reported (s : Server) (ev : Ready) : Prop :=
  ∃ r ∈ s.registered ev.fd, ev.data = r.data ∧ (ev.epollIn → r.events = .epollIn) ∧
    (ev.epollOut → r.events = .epollOut)

instance : DecidablePred (Reported s) := fun ev =>
  match h : s.registered ev.fd with
  | none => isFalse (by simp [Reported, h])
  | some r => decidable_of_iff (ev.data = r.data ∧ (ev.epollIn → r.events = .epollIn) ∧
      (ev.epollOut → r.events = .epollOut)) (by simp [Reported, h])

/-- `epoll_wait` gives a batch with at most one event for a descriptor; then one event after the
other is handled, unless the function has returned. -/
def step : Action → Option Server
  | .wait batch =>
    if s.returned = false ∧ s.batch = [] ∧ (batch.map Ready.fd).Nodup ∧
        ∀ ev ∈ batch, Reported s ev then
      some { s with batch := batch }
    else none
  | .event calls =>
    match s.batch with
    | [] => none
    | ev::batch =>
      if s.returned then none else handleEvent site sock { s with batch := batch } ev calls

end Handlers

/-- Before the loop; `ep_ev` has only its descriptor set. -/
def start (sock epEv : ℕ) (env : Env) : Server where
  fds := fun _ => none
  registered := Function.update (fun _ => none) sock (some ⟨.epollIn,setFd epEv sock⟩)
  epEv := setFd epEv sock
  batch := []
  returned := false
  heap := fun _ => none
  records := 0
  frees := fun _ => 0
  misused := false
  env := env
  conns := 0
  unread := fun _ => []
  received := fun _ => []
  request := fun _ => []
  envAt := fun _ => env

theorem fdOf_setFd {data fd : ℕ} (h : fd < 2^31) : fdOf (setFd data fd) = fd := by
  unfold fdOf setFd
  omega

/-- The record is about the descriptor it was made for. -/
theorem acceptRequest_fd {site : Site} {fork : Bool} {env env' : Env} {fd : ℕ} {sock rest : Stream}
    {data : DataBuf} (h : acceptRequest site fork env fd sock = some (data,env',rest)) :
    data.fd = fd := by
  obtain ⟨a,ha,h⟩ := Option.map_eq_some_iff.mp h
  obtain rfl := (Prod.mk.inj h).1
  exact Site.accept_fd ha

/-- The record is what `accept_request` makes of the request in the environment it is read in, with
a process for its program. -/
def MadeFrom (site : Site) (env : Env) (request : Stream) (data : DataBuf) : Prop :=
  ∃ fd a, LibeventHttpd.acceptRequest site.stat site.cgi env fd request = some a ∧ a.data = data

/-- A part of the response to a record is what has been sent. -/
def PartOf (site : Site) (data : DataBuf) (bytes : List CChar) : Prop :=
  ∃ head body i j, response site.file data = some (head,body) ∧ bytes = head.take i ++ body.take j

section Invariants
variable (site : Site) (s : Server)

/-- A descriptor waits to be read under its own number, or to be written with the record that was
made for it. -/
def Armed (fd : ℕ) : Prop :=
  (∃ data, s.registered fd = some ⟨.epollIn,data⟩ ∧ fdOf data = fd) ∨
    ∃ a n data, s.registered fd = some ⟨.epollOut,a⟩ ∧ s.heap a = some (n,data) ∧ data.fd = fd

/-- What a client has received was computed from the request on its connection. -/
def Computed (c : ℕ) : Prop :=
  s.received c = [] ∨ ∃ data, MadeFrom site (s.envAt c) (s.request c) data ∧
    PartOf site data (s.received c)

/-- What is asked of every state. -/
structure Holds : Prop where
  armed : ∀ fd c, s.fds fd = some c → Armed s fd
  distinct : ∀ fd fd' a, s.registered fd = some ⟨.epollOut,a⟩ →
    s.registered fd' = some ⟨.epollOut,a⟩ → fd = fd'
  freed : ∀ n < s.records, s.frees n = 1 ∨ s.frees n = 0 ∧ ∃ a data, s.heap a = some (n,data)
  live : ∀ a n data, s.heap a = some (n,data) → s.frees n = 0
  used : s.misused = false
  computed : ∀ c, Computed site s c

/-- The part of it that does not depend on what is sent, in the form that every step keeps. -/
structure Sound (sock : ℕ) : Prop where
  injective : ∀ fd fd' c, s.fds fd = some c → s.fds fd' = some c → fd = fd'
  opened : ∀ fd c, s.fds fd = some c → c < s.conns ∧ fd ≠ sock
  listener : ∃ data, s.registered sock = some ⟨.epollIn,data⟩ ∧ fdOf data = sock
  known : ∀ fd r, s.registered fd = some r → fd ≠ sock → ∃ c, s.fds fd = some c
  armed : ∀ fd c, s.fds fd = some c → Armed s fd
  owned : ∀ a n data, s.heap a = some (n,data) → s.registered data.fd = some ⟨.epollOut,a⟩
  numbered : ∀ a a' n data data', s.heap a = some (n,data) → s.heap a' = some (n,data') → a = a'
  live : ∀ a n data, s.heap a = some (n,data) → n < s.records ∧ s.frees n = 0
  freed : ∀ n < s.records, s.frees n = 1 ∨ s.frees n = 0 ∧ ∃ a data, s.heap a = some (n,data)
  fresh : ∀ n, s.records ≤ n → s.frees n = 0
  used : s.misused = false
  nodup : (s.batch.map Ready.fd).Nodup
  reported : ∀ ev ∈ s.batch, Reported s ev

end Invariants

section Soundness
variable {site : Site} {s t : Server} {ev : Ready} {calls : Calls} {sock : ℕ}

theorem Armed.congr {fd : ℕ} (h : Armed s fd) (hreg : t.registered fd = s.registered fd)
    (hheap : ∀ a n data, s.heap a = some (n,data) → data.fd = fd → t.heap a = some (n,data)) :
    Armed t fd := by
  obtain ⟨data,hr,hd⟩ | ⟨a,n,data,hr,ha,hd⟩ := h
  · exact .inl ⟨data,hreg.trans hr,hd⟩
  · exact .inr ⟨a,n,data,hreg.trans hr,hheap a n data ha hd,hd⟩

theorem Reported.congr (h : Reported s ev) (hreg : t.registered ev.fd = s.registered ev.fd) :
    Reported t ev := by rwa [Reported, hreg]

theorem sound_start (hsock : sock < 2^31) (epEv : ℕ) (env : Env) :
    Sound (start sock epEv env) sock := by
  constructor
  case listener => exact ⟨setFd epEv sock,by simp [start],fdOf_setFd hsock⟩
  case known =>
    intro fd r hr hne
    simp [start, hne] at hr
  all_goals simp [start]

/-- A descriptor that is not open is not registered. -/
theorem Sound.registered_none (hs : Sound s sock) {fd : ℕ} (hfd : s.fds fd = none)
    (hne : fd ≠ sock) : s.registered fd = none := by
  rw [Option.eq_none_iff_forall_ne_some]
  intro r hr
  obtain ⟨c,hc⟩ := hs.known fd r hr hne
  rw [hfd] at hc
  cases hc

theorem acceptEvent_cases (h : acceptEvent sock s calls = some t) :
    t = s ∨ ∃ fd request, s.fds fd = none ∧ fd ≠ sock ∧ fd < 2^31 ∧ t = s.add fd request := by
  unfold acceptEvent at h
  cases hcall : calls.accept with
  | none =>
    rw [hcall] at h
    exact .inl (Option.some.inj h).symm
  | some client =>
    obtain ⟨fd,request⟩ := client
    rw [hcall] at h
    simp only at h
    split_ifs at h with hfd
    exact .inr ⟨fd,request,hfd.1,hfd.2.1,hfd.2.2,(Option.some.inj h).symm⟩

theorem readEvent_cases (h : readEvent site s ev calls = some t) :
    t = s ∨ ∃ a data env rest, s.heap a = none ∧
      acceptRequest site calls.fork s.env (fdOf ev.data) (s.sock (fdOf ev.data)) =
        some (data,env,rest) ∧ t = s.modify (fdOf ev.data) a data env rest := by
  unfold readEvent at h
  cases hcall : calls.malloc with
  | none =>
    rw [hcall] at h
    exact .inl (Option.some.inj h).symm
  | some a =>
    rw [hcall] at h
    simp only at h
    split_ifs at h with ha
    obtain ⟨⟨data,env,rest⟩,haccept,h⟩ := Option.bind_eq_some_iff.mp h
    exact .inr ⟨a,data,env,rest,ha,haccept,(Option.some.inj h).symm⟩

theorem writeEvent_cases {n : ℕ} {data : DataBuf} (hheap : s.heap ev.data = some (n,data))
    (h : writeEvent site s ev calls = some t) :
    t = { s with returned := true } ∨ ∃ bytes, sent site.file calls data = some bytes ∧
      t = s.delete ev.data n data bytes := by
  rw [writeEvent, hheap] at h
  simp only at h
  split_ifs at h
  · exact .inl (Option.some.inj h).symm
  · obtain ⟨bytes,hbytes,h⟩ := Option.bind_eq_some_iff.mp h
    exact .inr ⟨bytes,hbytes,(Option.some.inj h).symm⟩

/-- A new client gets a descriptor that no registration is about. -/
theorem sound_add (hs : Sound s sock) {fd : ℕ} (request : Stream) (hfd : s.fds fd = none)
    (hsock : fd ≠ sock) (hint : fd < 2^31) : Sound (s.add fd request) sock := by
  have hnone : s.registered fd = none := hs.registered_none hfd hsock
  have hother {fd' : ℕ} {r : Registration} (hr : s.registered fd' = some r) : fd' ≠ fd := by
    rintro rfl
    rw [hnone] at hr
    cases hr
  constructor
  case injective =>
    intro fd₁ fd₂ c h₁ h₂
    exact update_injective hs.injective (fun fd h => (hs.opened fd _ h).1.ne rfl) h₁ h₂
  case opened =>
    intro fd' c hfd'
    obtain ⟨rfl,rfl⟩ | ⟨-,hfd'⟩ := update_some_iff.mp hfd'
    · exact ⟨Nat.lt_succ_self _,hsock⟩
    · exact ⟨Nat.lt_succ_of_lt (hs.opened fd' c hfd').1,(hs.opened fd' c hfd').2⟩
  case listener =>
    obtain ⟨data,hdata,hown⟩ := hs.listener
    exact ⟨data,(Server.add_registered_ne hsock.symm).trans hdata,hown⟩
  case known =>
    intro fd' r hr hne
    by_cases he : fd' = fd
    · exact ⟨s.conns,he ▸ Function.update_self _ _ _⟩
    · obtain ⟨c,hc⟩ := hs.known fd' r ((Server.add_registered_ne he).symm.trans hr) hne
      exact ⟨c,(Function.update_of_ne he _ _).trans hc⟩
  case armed =>
    intro fd' c hc
    by_cases he : fd' = fd
    · subst he
      exact .inl ⟨_,Function.update_self _ _ _,fdOf_setFd hint⟩
    · have harmed := hs.armed fd' c ((Function.update_of_ne he _ _).symm.trans hc)
      exact harmed.congr (Server.add_registered_ne he) fun _ _ _ ha _ => ha
  case owned =>
    intro a n data ha
    have hr := hs.owned a n data ha
    exact (Server.add_registered_ne (hother hr)).trans hr
  case reported =>
    intro ev hev
    obtain ⟨r,hr,hdata⟩ := hs.reported ev hev
    exact ⟨r,(Server.add_registered_ne (hother hr)).trans hr,hdata⟩
  case numbered => exact hs.numbered
  case live => exact hs.live
  case freed => exact hs.freed
  case fresh => exact hs.fresh
  case used => exact hs.used
  case nodup => exact hs.nodup

/-- An event to read that is not the listener's finds a client under its own number. -/
theorem Sound.find_read (hs : Sound s sock) (hev : Reported s ev) (hin : ev.epollIn = true)
    (hne : fdOf ev.data ≠ sock) :
    fdOf ev.data = ev.fd ∧ ∃ c, s.fds ev.fd = some c ∧
      s.registered ev.fd = some ⟨.epollIn,ev.data⟩ := by
  obtain ⟨⟨events,data⟩,hr,hdata,hevents,-⟩ := hev
  obtain rfl : events = .epollIn := hevents hin
  obtain rfl : ev.data = data := hdata
  have hfd : ev.fd ≠ sock := by
    intro hfd
    obtain ⟨data,hl,hown⟩ := hs.listener
    rw [hfd, hl] at hr
    obtain rfl := (Registration.mk.inj (Option.some.inj hr)).2
    exact hne hown
  obtain ⟨c,hc⟩ := hs.known ev.fd _ hr hfd
  obtain ⟨data,hr',hown⟩ | ⟨a,n,data,hr',-,-⟩ := hs.armed ev.fd c hc
  · rw [hr] at hr'
    obtain rfl := (Registration.mk.inj (Option.some.inj hr')).2
    exact ⟨hown,c,hc,hr⟩
  · rw [hr] at hr'
    cases hr'

/-- An event to write finds a record that is not freed, the one of its own descriptor. -/
theorem Sound.find_write (hs : Sound s sock) (hev : Reported s ev) (hout : ev.epollOut = true) :
    ∃ c n data, s.fds ev.fd = some c ∧ s.registered ev.fd = some ⟨.epollOut,ev.data⟩ ∧
      s.heap ev.data = some (n,data) ∧ data.fd = ev.fd := by
  obtain ⟨⟨events,data⟩,hr,hdata,-,hevents⟩ := hev
  obtain rfl : events = .epollOut := hevents hout
  obtain rfl : ev.data = data := hdata
  have hfd : ev.fd ≠ sock := by
    intro hfd
    obtain ⟨data,hl,-⟩ := hs.listener
    rw [hfd, hl] at hr
    cases hr
  obtain ⟨c,hc⟩ := hs.known ev.fd _ hr hfd
  obtain ⟨data,hr',-⟩ | ⟨a,n,data,hr',ha,hown⟩ := hs.armed ev.fd c hc
  · rw [hr] at hr'
    cases hr'
  · rw [hr] at hr'
    obtain rfl := (Registration.mk.inj (Option.some.inj hr')).2
    exact ⟨c,n,data,hc,hr,ha,hown⟩

/-- A new record is at an address of its own, and its descriptor had none. -/
theorem sound_modify (hs : Sound s sock) {fd a c d : ℕ} {data : DataBuf} (env : Env)
    (rest : Stream) (hfd : s.fds fd = some c) (hreg : s.registered fd = some ⟨.epollIn,d⟩)
    (ha : s.heap a = none) (hdata : data.fd = fd) (hbatch : fd ∉ s.batch.map Ready.fd) :
    Sound (s.modify fd a data env rest) sock := by
  have hsock : fd ≠ sock := (hs.opened fd c hfd).2
  have hold {a' n : ℕ} {data' : DataBuf} (h : s.heap a' = some (n,data')) :
      a' ≠ a ∧ data'.fd ≠ fd := by
    constructor
    · rintro rfl
      rw [ha] at h
      cases h
    · rintro rfl
      have howned := hs.owned a' n data' h
      rw [hreg] at howned
      cases howned
  have hreg' : (s.modify fd a data env rest).registered fd = some ⟨.epollOut,a⟩ := by
    simp [Server.modify, hreg]
  have hnew : (s.modify fd a data env rest).heap a = some (s.records,data) :=
    (Server.modify_heap_iff ha).mpr (.inl ⟨rfl,rfl,rfl⟩)
  have hkept {a' n : ℕ} {data' : DataBuf} (h : s.heap a' = some (n,data')) :
      (s.modify fd a data env rest).heap a' = some (n,data') :=
    (Server.modify_heap_iff ha).mpr (.inr h)
  constructor
  case injective => exact hs.injective
  case opened => exact hs.opened
  case listener =>
    obtain ⟨d,hd,hown⟩ := hs.listener
    exact ⟨d,(Server.modify_registered_ne hsock.symm).trans hd,hown⟩
  case known =>
    intro fd' r hr hne
    by_cases he : fd' = fd
    · exact ⟨c,he ▸ hfd⟩
    · exact hs.known fd' r ((Server.modify_registered_ne he).symm.trans hr) hne
  case armed =>
    intro fd' c' hc'
    by_cases he : fd' = fd
    · subst he
      exact .inr ⟨a,s.records,data,hreg',hnew,hdata⟩
    · exact (hs.armed fd' c' hc').congr (Server.modify_registered_ne he) fun _ _ _ h _ => hkept h
  case owned =>
    intro a' n data' h
    obtain ⟨rfl,rfl,rfl⟩ | h := (Server.modify_heap_iff ha).mp h
    · rw [hdata]
      exact hreg'
    · exact (Server.modify_registered_ne (hold h).2).trans (hs.owned a' n data' h)
  case numbered =>
    intro a₁ a₂ n data₁ data₂ h₁ h₂
    obtain ⟨rfl,rfl,-⟩ | hold₁ := (Server.modify_heap_iff ha).mp h₁
    · obtain ⟨rfl,-,-⟩ | hold₂ := (Server.modify_heap_iff ha).mp h₂
      · rfl
      · exact absurd (hs.live _ _ _ hold₂).1 (lt_irrefl _)
    · obtain ⟨-,rfl,-⟩ | hold₂ := (Server.modify_heap_iff ha).mp h₂
      · exact absurd (hs.live _ _ _ hold₁).1 (lt_irrefl _)
      · exact hs.numbered a₁ a₂ n data₁ data₂ hold₁ hold₂
  case live =>
    intro a' n data' h
    obtain ⟨rfl,rfl,rfl⟩ | h := (Server.modify_heap_iff ha).mp h
    · exact ⟨Nat.lt_succ_self _,hs.fresh _ le_rfl⟩
    · exact ⟨Nat.lt_succ_of_lt (hs.live a' n data' h).1,(hs.live a' n data' h).2⟩
  case freed =>
    intro n hn
    obtain hn | rfl := Nat.lt_succ_iff_lt_or_eq.mp hn
    · exact (hs.freed n hn).imp_right fun ⟨hzero,a',data',h⟩ => ⟨hzero,a',data',hkept h⟩
    · exact .inr ⟨hs.fresh _ le_rfl,a,data,hnew⟩
  case fresh => exact fun n hn => hs.fresh n (Nat.le_of_succ_le hn)
  case used => exact hs.used
  case nodup => exact hs.nodup
  case reported =>
    intro ev hev
    have hne : ev.fd ≠ fd := by
      rintro rfl
      exact hbatch (List.mem_map_of_mem hev)
    exact (hs.reported ev hev).congr (Server.modify_registered_ne hne)

/-- The record that is freed was the one of its descriptor, and of no other. -/
theorem sound_delete (hs : Sound s sock) {a n c : ℕ} {data : DataBuf} (bytes : List CChar)
    (hfd : s.fds data.fd = some c) (ha : s.heap a = some (n,data))
    (hbatch : data.fd ∉ s.batch.map Ready.fd) : Sound (s.delete a n data bytes) sock := by
  have hsock : data.fd ≠ sock := (hs.opened data.fd c hfd).2
  have hreg := hs.owned a n data ha
  have hfrees_ne {m : ℕ} (h : m ≠ n) : (s.delete a n data bytes).frees m = s.frees m :=
    Function.update_of_ne h _ _
  constructor
  case injective =>
    intro fd₁ fd₂ c' h₁ h₂
    exact hs.injective fd₁ fd₂ c' (Server.delete_fds_iff.mp h₁).2 (Server.delete_fds_iff.mp h₂).2
  case opened => exact fun fd' c' h => hs.opened fd' c' (Server.delete_fds_iff.mp h).2
  case listener =>
    obtain ⟨d,hd,hown⟩ := hs.listener
    exact ⟨d,(Server.delete_registered_ne hsock.symm).trans hd,hown⟩
  case known =>
    intro fd' r hr hne
    obtain ⟨he,hr⟩ := update_none_iff.mp hr
    obtain ⟨c',hc'⟩ := hs.known fd' r hr hne
    exact ⟨c',Server.delete_fds_iff.mpr ⟨he,hc'⟩⟩
  case armed =>
    intro fd' c' hc'
    obtain ⟨hne,hc'⟩ := Server.delete_fds_iff.mp hc'
    refine (hs.armed fd' c' hc').congr (Server.delete_registered_ne hne)
      fun a' n' data' ha' hdata' => Server.delete_heap_iff.mpr ⟨?_,ha'⟩
    rintro rfl
    rw [ha] at ha'
    obtain rfl := (Prod.mk.inj (Option.some.inj ha')).2
    exact hne hdata'.symm
  case owned =>
    intro a' n' data' h
    obtain ⟨hne,h⟩ := Server.delete_heap_iff.mp h
    have howned := hs.owned a' n' data' h
    have hne' : data'.fd ≠ data.fd := by
      intro he
      rw [he, hreg] at howned
      exact hne (Registration.mk.inj (Option.some.inj howned)).2.symm
    exact (Server.delete_registered_ne hne').trans howned
  case numbered =>
    intro a₁ a₂ m data₁ data₂ h₁ h₂
    exact hs.numbered a₁ a₂ m data₁ data₂ (Server.delete_heap_iff.mp h₁).2
      (Server.delete_heap_iff.mp h₂).2
  case live =>
    intro a' m data' h
    obtain ⟨hne,hlive⟩ := Server.delete_heap_iff.mp h
    have hm : m ≠ n := by
      rintro rfl
      exact hne (hs.numbered a' a m data' data hlive ha)
    obtain ⟨hlt,hzero⟩ := hs.live a' m data' hlive
    exact ⟨hlt,(hfrees_ne hm).trans hzero⟩
  case freed =>
    intro m hm
    by_cases he : m = n
    · subst he
      left
      simp [Server.delete, (hs.live a m data ha).2]
    · rw [hfrees_ne he]
      refine (hs.freed m hm).imp_right fun ⟨hzero,a',data',h⟩ =>
        ⟨hzero,a',data',Server.delete_heap_iff.mpr ⟨?_,h⟩⟩
      rintro rfl
      rw [ha] at h
      exact he (Prod.mk.inj (Option.some.inj h)).1.symm
  case fresh =>
    intro m hm
    have hne : m ≠ n := ((hs.live a n data ha).1.trans_le hm).ne'
    exact (hfrees_ne hne).trans (hs.fresh m hm)
  case used => exact hs.used
  case nodup => exact hs.nodup
  case reported =>
    intro ev hev
    have hne : ev.fd ≠ data.fd := by
      intro he
      exact hbatch (he ▸ List.mem_map_of_mem hev)
    exact (hs.reported ev hev).congr (Server.delete_registered_ne hne)

/-- Between the events of a batch, the next one is taken off. -/
theorem sound_next (hs : Sound s sock) {batch : List Ready} (h : s.batch = ev::batch) :
    Sound { s with batch := batch } sock ∧ Reported { s with batch := batch } ev ∧
      ev.fd ∉ batch.map Ready.fd := by
  have hnodup := hs.nodup
  have hreported := hs.reported
  rw [h, List.map_cons, List.nodup_cons] at hnodup
  rw [h, List.forall_mem_cons] at hreported
  exact ⟨{ hs with nodup := hnodup.2, reported := hreported.2 },hreported.1,hnodup.1⟩

/-- What the handling of a reported event can do to a sound server. -/
theorem Sound.handle_cases (hs : Sound s sock) (hev : Reported s ev)
    (h : handleEvent site sock s ev calls = some t) :
    t = s ∨ t = { s with returned := true } ∨
      (∃ fd request, s.fds fd = none ∧ fd ≠ sock ∧ fd < 2^31 ∧ t = s.add fd request) ∨
      (∃ a c d data env rest, s.fds ev.fd = some c ∧
        s.registered ev.fd = some ⟨.epollIn,d⟩ ∧ s.heap a = none ∧
        acceptRequest site calls.fork s.env ev.fd (s.sock ev.fd) = some (data,env,rest) ∧
        t = s.modify ev.fd a data env rest) ∨
      ∃ a c n data bytes, s.fds data.fd = some c ∧ s.heap a = some (n,data) ∧ data.fd = ev.fd ∧
        sent site.file calls data = some bytes ∧ t = s.delete a n data bytes := by
  unfold handleEvent at h
  split_ifs at h with hlistener hin hout
  · exact (acceptEvent_cases h).imp_right fun h => .inr (.inl h)
  · obtain ⟨hfd,c,hc,hreg⟩ := hs.find_read hev hin fun he => hlistener ⟨he,hin⟩
    obtain rfl | ⟨a,data,env,rest,ha,haccept,rfl⟩ := readEvent_cases h
    · exact .inl rfl
    · rw [hfd] at haccept ⊢
      exact .inr (.inr (.inr (.inl ⟨a,c,_,data,env,rest,hc,hreg,ha,haccept,rfl⟩)))
  · obtain ⟨c,n,data,hc,-,hheap,hfd⟩ := hs.find_write hev hout
    obtain rfl | ⟨bytes,hsent,rfl⟩ := writeEvent_cases hheap h
    · exact .inr (.inl rfl)
    · rw [← hfd] at hc
      exact .inr (.inr (.inr (.inr ⟨_,c,n,data,bytes,hc,hheap,hfd,hsent,rfl⟩)))
  · exact .inl (Option.some.inj h).symm

theorem sound_handle (hs : Sound s sock) (hev : Reported s ev)
    (hbatch : ev.fd ∉ s.batch.map Ready.fd) (h : handleEvent site sock s ev calls = some t) :
    Sound t sock := by
  obtain rfl | rfl | ⟨fd,request,hfd,hne,hint,rfl⟩ |
    ⟨a,c,d,data,env,rest,hc,hreg,ha,haccept,rfl⟩ | ⟨a,c,n,data,bytes,hc,hheap,hfd,-,rfl⟩ :=
    hs.handle_cases hev h
  · exact hs
  · exact { hs with }
  · exact sound_add hs request hfd hne hint
  · exact sound_modify hs env rest hc hreg ha (acceptRequest_fd haccept) hbatch
  · rw [← hfd] at hbatch
    exact sound_delete hs bytes hc hheap hbatch

theorem step_cases {act : Action} (h : step site sock s act = some t) :
    (∃ batch, act = .wait batch ∧ (batch.map Ready.fd).Nodup ∧ (∀ ev ∈ batch, Reported s ev) ∧
      t = { s with batch := batch }) ∨
    ∃ calls ev batch, act = .event calls ∧ s.batch = ev::batch ∧
      handleEvent site sock { s with batch := batch } ev calls = some t := by
  cases act with
  | wait batch =>
    rw [step] at h
    split_ifs at h with hguard
    exact .inl ⟨batch,rfl,hguard.2.2.1,hguard.2.2.2,(Option.some.inj h).symm⟩
  | event calls =>
    rw [step] at h
    cases hb : s.batch with
    | nil =>
      rw [hb] at h
      cases h
    | cons ev batch =>
      rw [hb] at h
      simp only at h
      split_ifs at h
      exact .inr ⟨calls,ev,batch,rfl,rfl,h⟩

theorem sound_step {act : Action} (hs : Sound s sock) (h : step site sock s act = some t) :
    Sound t sock := by
  obtain ⟨batch,-,hnodup,hreported,rfl⟩ | ⟨calls,ev,batch,-,hb,h⟩ := step_cases h
  · exact { hs with nodup := hnodup, reported := hreported }
  · obtain ⟨hs',hev,hbatch⟩ := sound_next hs hb
    exact sound_handle hs' hev hbatch h

end Soundness

section Origins
variable {site : Site} {s t : Server} {ev : Ready} {calls : Calls} {sock : ℕ}

/-- Where the bytes on a connection come from, in the form that every step keeps. -/
structure Traced (site : Site) (s : Server) : Prop where
  unopened : ∀ c, s.conns ≤ c → s.received c = []
  toRead : ∀ fd c data, s.fds fd = some c → s.registered fd = some ⟨.epollIn,data⟩ →
    s.unread c = s.request c ∧ s.received c = []
  toWrite : ∀ a n data c, s.heap a = some (n,data) → s.fds data.fd = some c →
    s.received c = [] ∧ MadeFrom site (s.envAt c) (s.request c) data
  computed : ∀ c, Computed site s c

theorem traced_start (sock epEv : ℕ) (env : Env) : Traced site (start sock epEv env) where
  unopened := fun _ _ => rfl
  toRead := by simp [start]
  toWrite := by simp [start]
  computed := fun _ => .inl rfl

theorem Computed.congr {c : ℕ} (h : Computed site s c) (hreceived : t.received c = s.received c)
    (hrequest : t.request c = s.request c) (henv : t.envAt c = s.envAt c) :
    Computed site t c := by
  rwa [Computed, hreceived, hrequest, henv]

theorem madeFrom_of_fork {env env' : Env} {fd : ℕ} {request rest : Stream} {data : DataBuf}
    (h : acceptRequest site true env fd request = some (data,env',rest)) :
    MadeFrom site env request data := by
  rw [acceptRequest, Site.accept_fork] at h
  obtain ⟨a,ha,h⟩ := Option.map_eq_some_iff.mp h
  exact ⟨fd,a,ha,(Prod.mk.inj h).1⟩

theorem partOf_of_sent {env : Env} {request : Stream} {data : DataBuf} {bytes : List CChar}
    (hmade : MadeFrom site env request data) (h : sent site.file calls data = some bytes) :
    PartOf site data bytes := by
  obtain ⟨fd,a,ha,rfl⟩ := hmade
  have hset : ¬(a.data.errNum = 0 ∧ a.data.cgi = true ∧ a.data.buf = none) :=
    fun h => acceptRequest_buf ha h.1 h.2.1 h.2.2
  rw [sent, if_neg hset] at h
  obtain ⟨⟨head,body⟩,hresponse,rfl⟩ := Option.map_eq_some_iff.mp h
  exact ⟨head,body,_,_,hresponse,rfl⟩

theorem traced_add (hs : Sound s sock) (ht : Traced site s) {fd : ℕ} (request : Stream)
    (hfd : s.fds fd = none) (hsock : fd ≠ sock) : Traced site (s.add fd request) := by
  have hnew : s.received s.conns = [] := ht.unopened _ le_rfl
  have hne {fd' c : ℕ} (h : s.fds fd' = some c) : c ≠ s.conns := (hs.opened fd' c h).1.ne
  constructor
  case unopened => exact fun c hc => ht.unopened c (Nat.le_of_succ_le hc)
  case toRead =>
    intro fd' c data hc hr
    obtain ⟨rfl,rfl⟩ | ⟨he,hc⟩ := update_some_iff.mp hc
    · simp [Server.add, hnew]
    · have hr' := (Server.add_registered_ne he).symm.trans hr
      obtain ⟨hunread,hreceived⟩ := ht.toRead fd' c data hc hr'
      simpa [Server.add, hne hc, hunread] using hreceived
  case toWrite =>
    intro a n data c ha hc
    have howned := hs.owned a n data ha
    obtain ⟨he,-⟩ | ⟨-,hc⟩ := update_some_iff.mp hc
    · rw [he, hs.registered_none hfd hsock] at howned
      cases howned
    · obtain ⟨hreceived,hmade⟩ := ht.toWrite a n data c ha hc
      have hrequest : (s.add fd request).request c = s.request c :=
        Function.update_of_ne (hne hc) _ _
      exact ⟨hreceived,hrequest ▸ hmade⟩
  case computed =>
    intro c
    by_cases he : c = s.conns
    · subst he
      exact .inl hnew
    · exact (ht.computed c).congr rfl (Function.update_of_ne he _ _) rfl

theorem traced_modify (hs : Sound s sock) (ht : Traced site s) {fd a c d : ℕ} {data : DataBuf}
    {env : Env} {rest : Stream} (hfd : s.fds fd = some c)
    (hreg : s.registered fd = some ⟨.epollIn,d⟩) (ha : s.heap a = none)
    (haccept : acceptRequest site true s.env fd (s.sock fd) = some (data,env,rest)) :
    Traced site (s.modify fd a data env rest) := by
  obtain ⟨hunread,hreceived⟩ := ht.toRead fd c d hfd hreg
  have hsock : s.sock fd = s.request c := by
    rw [Server.sock, hfd, ← hunread]
    rfl
  rw [hsock] at haccept
  have henv : (s.modify fd a data env rest).envAt c = s.env := by simp [Server.modify, atFd, hfd]
  have henvs {c' : ℕ} (hne : c' ≠ c) : (s.modify fd a data env rest).envAt c' = s.envAt c' := by
    simp [Server.modify, atFd, hfd, hne]
  constructor
  case unopened => exact ht.unopened
  case toRead =>
    intro fd' c' d' hc' hr
    have he : fd' ≠ fd := by
      rintro rfl
      simp [Server.modify, hreg] at hr
    have hc : c' ≠ c := by
      rintro rfl
      exact he (hs.injective fd' fd c' hc' hfd)
    have hr' := (Server.modify_registered_ne he).symm.trans hr
    simpa [Server.modify, atFd, hfd, hc] using ht.toRead fd' c' d' hc' hr'
  case toWrite =>
    intro a' n data' c' ha' hc'
    obtain ⟨rfl,-,rfl⟩ | ha' := (Server.modify_heap_iff ha).mp ha'
    · have hc : s.fds fd = some c' := (acceptRequest_fd haccept) ▸ hc'
      obtain rfl : c = c' := Option.some.inj (hfd.symm.trans hc)
      exact ⟨hreceived,henv ▸ madeFrom_of_fork haccept⟩
    · have hne : c' ≠ c := by
        rintro rfl
        have howned := hs.owned a' n data' ha'
        rw [hs.injective data'.fd fd c' hc' hfd, hreg] at howned
        cases howned
      rw [henvs hne]
      exact ht.toWrite a' n data' c' ha' hc'
  case computed =>
    intro c'
    by_cases hne : c' = c
    · subst hne
      exact .inl hreceived
    · exact (ht.computed c').congr rfl rfl (henvs hne)

theorem traced_delete (hs : Sound s sock) (ht : Traced site s) {a n c : ℕ} {data : DataBuf}
    {bytes : List CChar} (hfd : s.fds data.fd = some c) (ha : s.heap a = some (n,data))
    (hsent : sent site.file calls data = some bytes) : Traced site (s.delete a n data bytes) := by
  obtain ⟨hreceived,hmade⟩ := ht.toWrite a n data c ha hfd
  have hother {fd' c' : ℕ} (h : (s.delete a n data bytes).fds fd' = some c') :
      s.fds fd' = some c' ∧ fd' ≠ data.fd ∧ c' ≠ c := by
    obtain ⟨hne,h⟩ := Server.delete_fds_iff.mp h
    refine ⟨h,hne,?_⟩
    rintro rfl
    exact hne (hs.injective fd' data.fd c' h hfd)
  have hkept {c' : ℕ} (h : c' ≠ c) :
      (s.delete a n data bytes).received c' = s.received c' ∧
        (s.delete a n data bytes).unread c' = s.unread c' := by
    constructor
    · simp [Server.delete, atFd, hfd, h]
    · by_cases herr : data.errNum > 0 <;> simp [Server.delete, atFd, hfd, h, herr]
  constructor
  case unopened =>
    intro c' hc'
    have hne : c' ≠ c := ((hs.opened data.fd c hfd).1.trans_le hc').ne'
    exact (hkept hne).1.trans (ht.unopened c' hc')
  case toRead =>
    intro fd' c' d hc' hr
    obtain ⟨hc',he,hne⟩ := hother hc'
    rw [(hkept hne).1, (hkept hne).2]
    exact ht.toRead fd' c' d hc' ((Server.delete_registered_ne he).symm.trans hr)
  case toWrite =>
    intro a' n' data' c' ha' hc'
    obtain ⟨hc',he,hne⟩ := hother hc'
    rw [(hkept hne).1]
    exact ht.toWrite a' n' data' c' (Server.delete_heap_iff.mp ha').2 hc'
  case computed =>
    intro c'
    by_cases he : c' = c
    · subst he
      refine .inr ⟨data,hmade,?_⟩
      have hpart := partOf_of_sent hmade hsent
      simpa [Server.delete, atFd, hfd, hreceived] using hpart
    · exact (ht.computed c').congr (hkept he).1 rfl rfl

end Origins

section Runs
variable {site : Site} {s t : Server} {sock : ℕ}

/-- `fork` succeeds where it is called for an event. -/
def Forks (_ : Server) : Action → Prop
  | .wait _ => True
  | .event calls => calls.fork = true

theorem traced_handle {ev : Ready} {calls : Calls} (hs : Sound s sock) (ht : Traced site s)
    (hev : Reported s ev) (hfork : calls.fork = true)
    (h : handleEvent site sock s ev calls = some t) : Traced site t := by
  obtain rfl | rfl | ⟨fd,request,hfd,hne,-,rfl⟩ |
    ⟨a,c,d,data,env,rest,hc,hreg,ha,haccept,rfl⟩ | ⟨a,c,n,data,bytes,hc,hheap,-,hsent,rfl⟩ :=
    hs.handle_cases hev h
  · exact ht
  · exact { ht with }
  · exact traced_add hs ht request hfd hne
  · rw [hfork] at haccept
    exact traced_modify hs ht hc hreg ha haccept
  · exact traced_delete hs ht hc hheap hsent

theorem traced_step {act : Action} (hs : Sound s sock) (ht : Traced site s) (hfork : Forks s act)
    (h : step site sock s act = some t) : Traced site t := by
  obtain ⟨batch,-,-,-,rfl⟩ | ⟨calls,ev,batch,rfl,hb,h⟩ := step_cases h
  · exact { ht with }
  · obtain ⟨hs',hev,-⟩ := sound_next hs hb
    exact traced_handle hs' { ht with } hev hfork h

theorem Sound.distinct (hs : Sound s sock) {fd fd' a : ℕ}
    (h : s.registered fd = some ⟨.epollOut,a⟩) (h' : s.registered fd' = some ⟨.epollOut,a⟩) :
    fd = fd' := by
  have find {fd a : ℕ} (h : s.registered fd = some ⟨.epollOut,a⟩) :
      ∃ n data, s.heap a = some (n,data) ∧ data.fd = fd := by
    have hne : fd ≠ sock := by
      rintro rfl
      obtain ⟨d,hd,-⟩ := hs.listener
      rw [h] at hd
      cases hd
    obtain ⟨c,hc⟩ := hs.known fd _ h hne
    obtain ⟨d,hd,-⟩ | ⟨a',n,data,hr,hheap,hfd⟩ := hs.armed fd c hc
    · rw [h] at hd
      cases hd
    · rw [h] at hr
      obtain rfl := (Registration.mk.inj (Option.some.inj hr)).2
      exact ⟨n,data,hheap,hfd⟩
  obtain ⟨n,data,hheap,rfl⟩ := find h
  obtain ⟨n',data',hheap',rfl⟩ := find h'
  rw [hheap] at hheap'
  rw [(Prod.mk.inj (Option.some.inj hheap')).2]

theorem Sound.holds (hs : Sound s sock) (hcomputed : ∀ c, Computed site s c) : Holds site s where
  armed := hs.armed
  distinct := fun _ _ _ h h' => hs.distinct h h'
  freed := hs.freed
  live := fun a n data h => (hs.live a n data h).2
  used := hs.used
  computed := hcomputed

/-- Registrations and records are sound in every run, whatever the calls return. -/
theorem sound_of_reaches {C : Server → Action → Prop} {epEv : ℕ} {env : Env} (hsock : sock < 2^31)
    (h : Reaches (step site sock) C (start sock epEv env) s) : Sound s sock :=
  h.keeps (I := fun s => Sound s sock) (fun _ _ _ hs _ hstep => sound_step hs hstep)
    (sound_start hsock epEv env)

/-- As long as every program finds a process, what is asked holds of every state. -/
theorem holds_of_forks {epEv : ℕ} {env : Env} (hsock : sock < 2^31)
    (h : Reaches (step site sock) Forks (start sock epEv env) s) : Holds site s := by
  have hboth : Sound s sock ∧ Traced site s :=
    h.keeps (I := fun s => Sound s sock ∧ Traced site s)
      (fun _ _ _ hI hfork hstep => ⟨sound_step hI.1 hstep,traced_step hI.1 hI.2 hfork hstep⟩)
      ⟨sound_start hsock epEv env,traced_start sock epEv env⟩
  exact hboth.1.holds hboth.2.computed

end Runs

/-- Calls that succeed. -/
def succeed (accept : Option (ℕ × Stream)) (malloc : Option ℕ) : Calls :=
  ⟨accept,malloc,true,true,(100,100),[]⟩

theorem holds_a : ∃ s, run (step pages 3) (start 3 0 ⟨none,none,none⟩)
    [.wait [⟨3,true,false,3⟩],.event (succeed (some (5,getA)) none),
      .wait [⟨5,true,false,5⟩],.event (succeed none (some 4096)),
      .wait [⟨5,false,true,4096⟩],.event (succeed none none)] = some s ∧ Holds pages s := by
  have h₀ : Reaches (step pages 3) Forks (start 3 0 ⟨none,none,none⟩) _ := Reaches.refl _
  have h₁ := h₀.next (.wait [⟨3,true,false,3⟩]) trivial rfl
  have h₂ := h₁.next (.event (succeed (some (5,getA)) none)) rfl rfl
  have h₃ := h₂.next (.wait [⟨5,true,false,5⟩]) trivial rfl
  have h₄ := h₃.next (.event (succeed none (some 4096))) rfl rfl
  have h₅ := h₄.next (.wait [⟨5,false,true,4096⟩]) trivial rfl
  have h₆ := h₅.next (.event (succeed none none)) rfl rfl
  refine ⟨_,?_,holds_of_forks (by decide) h₆⟩
  rfl

/-- A site of programs that print nothing. -/
def programs : Site := ⟨fun _ => some 0o100755,id,fun _ => []⟩

/-- The request is for a program that gets no process. -/
def forkFails : List Action :=
  [.wait [⟨3,true,false,3⟩],.event (succeed (some (5,getA)) none),
    .wait [⟨5,true,false,5⟩],.event { succeed none (some 4096) with fork := false },
    .wait [⟨5,false,true,4096⟩],.event { succeed none none with buf := cstr "secret" }]

/-- The client is sent what `malloc` left in `_buf`. -/
theorem not_holds_forkFails : ∃ s,
    run (step programs 3) (start 3 0 ⟨none,none,none⟩) forkFails = some s ∧ ¬Holds programs s := by
  have hrun : (run (step programs 3) (start 3 0 ⟨none,none,none⟩) forkFails).map
      (fun s => (s.received 0,s.request 0)) = some (cstr "secret",getA) := rfl
  obtain ⟨s,hs,hclient⟩ := Option.map_eq_some_iff.mp hrun
  obtain ⟨hreceived,hrequest⟩ := Prod.mk.inj hclient
  refine ⟨s,hs,fun h => ?_⟩
  have hcomputed := h.computed 0
  rw [Computed, hreceived, hrequest] at hcomputed
  obtain hnone | ⟨data,⟨fd,a,ha,rfl⟩,head,body,i,j,hresponse,hbytes⟩ := hcomputed
  · exact absurd hnone (by decide)
  · have hempty : ((LibeventHttpd.acceptRequest programs.stat programs.cgi (s.envAt 0) fd getA).bind
        fun a => response programs.file a.data) = some ([],[]) := rfl
    rw [ha, Option.bind_some, hresponse] at hempty
    obtain ⟨rfl,rfl⟩ := Prod.mk.inj (Option.some.inj hempty)
    rw [List.take_nil, List.take_nil] at hbytes
    exact absurd hbytes (by decide)

end LibeventHttpd.Epoll
