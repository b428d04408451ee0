import LibeventHttpd.EpollServer
import LibeventHttpd.Programs

/-! What the clients of the server on `epoll` get, in any order of the events: every connection has
a record of its own. -/
namespace LibeventHttpd.Epoll
open Transition Turns

section Live
variable {σ τ : Type}

/-- The program that is run for an event. -/
def readChild (site : Site) (sock : ℕ) (s : Server) (ev : Ready) (calls : Calls) : Option Child :=
  if fdOf ev.data = sock ∨ ev.epollIn = false ∨ calls.fork = false then none
  else calls.malloc.bind fun _ =>
    (LibeventHttpd.acceptRequest site.stat site.cgi s.env (fdOf ev.data)
      (s.sock (fdOf ev.data))).bind Accepted.child

def Server.child (site : Site) (sock : ℕ) (s : Server) : Action → Option Child
  | .wait _ => none
  | .event calls => s.batch.head?.bind fun ev => readChild site sock s ev calls

/-- An action at some time, and what its program leaves. -/
def live (p : Programs σ τ) (sock : ℕ) (s : Server × σ) (act : Action × τ) :
    Option (Server × σ) := do
  let t ← step (p.at s.2 act.2) sock s.1 act.1
  let state ← p.after s.2 act.2 (s.1.child (p.at s.2 act.2) sock act.1)
  return (t,state)

/-- Programs find a process, and the response is sent whole to a connection that is to be
written. -/
def Complete (file : List CChar → List CChar) (s : Server × σ) : Action × τ → Prop
  | (.wait _,_) => True
  | (.event calls,_) => calls.fork = true ∧ ∀ ev ∈ s.1.batch.head?,
      s.1.registered ev.fd = some ⟨.epollOut,ev.data⟩ → ∀ p ∈ s.1.heap ev.data,
        ∀ r ∈ response file p.2, r.1.length ≤ calls.sent.1 ∧ r.2.length ≤ calls.sent.2

/-- An event finds the files and programs as they are: `stat` succeeds exactly if the page is there,
and `exec_response` returns. -/
def Faithful (p : Programs σ τ) (s : Server × σ) : Action × τ → Prop
  | (.wait _,_) => True
  | (.event calls,now) => Complete p.file s (.event calls,now) ∧
      ∀ ev ∈ s.1.batch.head?, ∀ r ∈ s.1.registered ev.fd, match r.events with
        | .epollIn => ∀ call, dispatch p.stat s.1.env ev.fd (s.1.sock ev.fd) = some (.exec call) →
            call.Returns p.stat
        | .epollOut => ∀ q ∈ s.1.heap r.data, ∀ path ∈ q.2.path,
            calls.stat = (p.stat path).isSome

def Server.outside (s : Server) : Outside :=
  ⟨s.conns,s.request,s.received,s.unread,fun c => ∃ fd, s.fds fd = some c⟩

end Live

section Exact
variable {σ τ : Type} (p : Programs σ τ) (w₀ : World σ) (turns : List (ℕ × Visit τ)) (s : Server)
  (c : ℕ)

/-- The client has got the response to its request, as its turn makes it. -/
def Responded : Prop := Answers p w₀ turns c (s.request c) (s.received c) (s.unread c)

/-- The record of a connection is that of its request, and nothing is sent yet. -/
def Prepared (data : DataBuf) : Prop :=
  s.received c = [] ∧ ∃ a, Prepares p w₀ turns c (s.request c) a ∧ a.data = data ∧
    s.unread c = a.sock

/-- How far the connections are. -/
structure Exact (state : σ) : Prop where
  inTurn : InTurn p.read (Sends s.conns s.request) w₀ turns ⟨s.env,state⟩
  unopened : ∀ c, s.conns ≤ c → s.received c = []
  toRead : ∀ fd c data, s.fds fd = some c → s.registered fd = some ⟨.epollIn,data⟩ →
    s.unread c = s.request c ∧ s.received c = [] ∧ c ∉ turns.map Prod.fst
  toWrite : ∀ a n data c, s.heap a = some (n,data) → s.fds data.fd = some c →
    Prepared p w₀ turns s c data
  closed : ∀ c, c < s.conns → (∀ fd, s.fds fd ≠ some c) → Responded p w₀ turns s c

end Exact

section Steps
variable {σ τ : Type} {p : Programs σ τ} {w₀ : World σ} {turns : List (ℕ × Visit τ)}
variable {s t : Server} {state state' : σ} {now : τ} {ev : Ready} {calls : Calls} {sock c : ℕ}

/-- An event of another client changes nothing for this one. -/
theorem Prepared.congr {data : DataBuf} (h : Prepared p w₀ turns s c data)
    (hrequest : t.request c = s.request c) (hreceived : t.received c = s.received c)
    (hunread : t.unread c = s.unread c) : Prepared p w₀ turns t c data := by
  obtain ⟨hsilent,a,ha,hdata,hrest⟩ := h
  exact ⟨hreceived.trans hsilent,a,hrequest ▸ ha,hdata,hunread.trans hrest⟩

theorem Prepared.append {data : DataBuf} (h : Prepared p w₀ turns s c data)
    (turns' : List (ℕ × Visit τ)) : Prepared p w₀ (turns ++ turns') s c data := by
  obtain ⟨hsilent,a,ha,hrecord⟩ := h
  exact ⟨hsilent,a,At.append ha turns',hrecord⟩

theorem Responded.congr (h : Responded p w₀ turns s c) (hrequest : t.request c = s.request c)
    (hreceived : t.received c = s.received c) (hunread : t.unread c = s.unread c) :
    Responded p w₀ turns t c := by
  rw [Responded, hrequest, hreceived, hunread]
  exact h

theorem exact_start (p : Programs σ τ) (sock epEv : ℕ) (env : Env) (state : σ) :
    Exact p ⟨env,state⟩ [] (start sock epEv env) state where
  inTurn := inTurn_nil _ _
  unopened := fun _ _ => rfl
  toRead := by simp [start]
  toWrite := by simp [start]
  closed := by simp [start]

theorem exact_add (hs : Sound s sock) (he : Exact p w₀ turns s state) {fd : ℕ} (request : Stream)
    (hfd : s.fds fd = none) (hsock : fd ≠ sock) :
    Exact p w₀ turns (s.add fd request) state := by
  have hnew : s.received s.conns = [] := he.unopened _ le_rfl
  have hold {fd' c : ℕ} (h : s.fds fd' = some c) : c ≠ s.conns := (hs.opened fd' c h).1.ne
  have hother {fd' c : ℕ} (h : s.fds fd' = some c) : fd' ≠ fd := by
    rintro rfl
    simp [hfd] at h
  constructor
  case inTurn => exact he.inTurn.mono fun c v hv => hv.connect request
  case unopened => exact fun c hc => he.unopened c (Nat.le_of_succ_le hc)
  case toRead =>
    intro fd' c data hc hr
    obtain ⟨rfl,rfl⟩ | ⟨hne,hc⟩ := update_some_iff.mp hc
    · have hno : s.conns ∉ turns.map Prod.fst := he.inTurn.not_mem fun v hv => hv.1.false
      exact ⟨by simp [Server.add],hnew,hno⟩
    · have hr' := (Server.add_registered_ne hne).symm.trans hr
      obtain ⟨hunread,hreceived,hno⟩ := he.toRead fd' c data hc hr'
      exact ⟨by simp [Server.add, hold hc, hunread],hreceived,hno⟩
  case toWrite =>
    intro a n data c ha hc
    have howned := hs.owned a n data ha
    obtain ⟨heq,-⟩ | ⟨-,hc⟩ := update_some_iff.mp hc
    · rw [heq, hs.registered_none hfd hsock] at howned
      cases howned
    · exact (he.toWrite a n data c ha hc).congr (Function.update_of_ne (hold hc) _ _) rfl
        (Function.update_of_ne (hold hc) _ _)
  case closed =>
    intro c hc hclosed
    have hne : c ≠ s.conns := by
      rintro rfl
      exact hclosed fd (Function.update_self _ _ _)
    have hc' : c < s.conns := lt_of_le_of_ne (Nat.le_of_lt_succ hc) hne
    refine (he.closed c hc' fun fd' hfd' => hclosed fd' ?_).congr (Function.update_of_ne hne _ _)
      rfl (Function.update_of_ne hne _ _)
    exact update_some_iff.mpr (.inr ⟨hother hfd',hfd'⟩)

/-- A connection that is read takes the next turn. -/
theorem exact_modify (hs : Sound s sock) (he : Exact p w₀ turns s state) {fd a d : ℕ}
    {r : Accepted} (hfd : s.fds fd = some c) (hreg : s.registered fd = some ⟨.epollIn,d⟩)
    (ha : s.heap a = none) (hr : LibeventHttpd.acceptRequest p.stat (p.at state now).cgi s.env fd
      (s.sock fd) = some r) (hstate : p.after state now r.child = some state') :
    Exact p w₀ (turns ++ [(c,⟨fd,now,s.request c⟩)])
      (s.modify fd a r.data r.env r.sock) state' := by
  obtain ⟨hunread,hreceived,hno⟩ := he.toRead fd c d hfd hreg
  have hsock : s.sock fd = s.request c := by
    rw [Server.sock, hfd, ← hunread]
    rfl
  rw [hsock] at hr
  have hserve : p.read ⟨s.env,state⟩ ⟨fd,now,s.request c⟩ = some (⟨r.env,state'⟩,r) :=
    read_of_accepted hr hstate
  have hturn := he.inTurn.snoc hno ⟨(hs.opened fd c hfd).1,rfl⟩ hserve
  have hprepares : Prepares p w₀ (turns ++ [(c,⟨fd,now,s.request c⟩)]) c (s.request c) r :=
    he.inTurn.at_last ⟨rfl,_,hserve⟩
  have hkept {c' : ℕ} (h : c' ≠ c) :
      (s.modify fd a r.data r.env r.sock).unread c' = s.unread c' := by
    simp [Server.modify, atFd, hfd, h]
  have hne {fd' c' : ℕ} (hne : fd' ≠ fd) (hfd' : s.fds fd' = some c') : c' ≠ c := by
    rintro rfl
    exact hne (hs.injective fd' fd c' hfd' hfd)
  constructor
  case inTurn => exact hturn
  case unopened => exact he.unopened
  case toRead =>
    intro fd' c' d' hc' hr'
    have hfd' : fd' ≠ fd := by
      rintro rfl
      simp [Server.modify, hreg] at hr'
    obtain ⟨hunread',hreceived',hno'⟩ :=
      he.toRead fd' c' d' hc' ((Server.modify_registered_ne hfd').symm.trans hr')
    have hc : c' ≠ c := hne hfd' hc'
    refine ⟨(hkept hc).trans hunread',hreceived',?_⟩
    rw [List.map_append, List.mem_append, List.map_singleton, List.mem_singleton]
    exact not_or.mpr ⟨hno',hc⟩
  case toWrite =>
    intro a' n data' c' ha' hc'
    have hdata : r.data.fd = fd := LibeventHttpd.acceptRequest_fd hr
    obtain ⟨rfl,-,rfl⟩ | ha' := (Server.modify_heap_iff ha).mp ha'
    · obtain rfl : c = c' := Option.some.inj (hfd.symm.trans (hdata ▸ hc'))
      exact ⟨hreceived,r,hprepares,rfl,by simp [Server.modify, atFd, hfd]⟩
    · have hfd' : data'.fd ≠ fd := by
        intro heq
        have howned := hs.owned a' n data' ha'
        rw [heq, hreg] at howned
        cases howned
      have hold := (he.toWrite a' n data' c' ha' hc').append [(c,⟨fd,now,s.request c⟩)]
      exact hold.congr rfl rfl (hkept (hne hfd' hc'))
  case closed =>
    intro c' hc' hclosed
    have hne' : c' ≠ c := by
      rintro rfl
      exact hclosed fd hfd
    have hold : Responded p w₀ (turns ++ [(c,⟨fd,now,s.request c⟩)]) s c' :=
      At.append (he.closed c' hc' hclosed) _
    exact hold.congr rfl rfl (hkept hne')

/-- A response that is sent whole. -/
theorem sent_whole {site : Site} {request : Stream} {env : Env} {fd : ℕ} {r : Accepted}
    {bytes : List CChar}
    (hr : LibeventHttpd.acceptRequest site.stat site.cgi env fd request = some r)
    (hwhole : ∀ p ∈ response site.file r.data, p.1.length ≤ calls.sent.1 ∧
      p.2.length ≤ calls.sent.2) (h : sent site.file calls r.data = some bytes) :
    reply site.file r.data = some bytes := by
  have hset : ¬(r.data.errNum = 0 ∧ r.data.cgi = true ∧ r.data.buf = none) :=
    fun h => acceptRequest_buf hr h.1 h.2.1 h.2.2
  rw [sent, if_neg hset] at h
  obtain ⟨p,hp,rfl⟩ := Option.map_eq_some_iff.mp h
  obtain ⟨hhead,hbody⟩ := hwhole p hp
  rw [reply_eq, hp, List.take_of_length_le hhead, List.take_of_length_le hbody]
  rfl

theorem exact_delete (hs : Sound s sock) (he : Exact p w₀ turns s state) {a n : ℕ}
    {data : DataBuf} {bytes : List CChar} (hfd : s.fds data.fd = some c)
    (ha : s.heap a = some (n,data)) (hwhole : ∀ r ∈ response p.file data,
      r.1.length ≤ calls.sent.1 ∧ r.2.length ≤ calls.sent.2)
    (hsent : sent p.file calls data = some bytes) :
    Exact p w₀ turns (s.delete a n data bytes) state := by
  obtain ⟨hsilent,r,hprepares,rfl,hrest⟩ := he.toWrite a n data c ha hfd
  obtain ⟨state',now,env,fd,hr⟩ := hprepares.accepted
  have hreply : reply (p.at state' now).file r.data = some bytes := sent_whole hr hwhole hsent
  have hother {fd' c' : ℕ} (h : (s.delete a n r.data bytes).fds fd' = some c') :
      s.fds fd' = some c' ∧ fd' ≠ r.data.fd ∧ c' ≠ c := by
    obtain ⟨hne,h⟩ := Server.delete_fds_iff.mp h
    refine ⟨h,hne,?_⟩
    rintro rfl
    exact hne (hs.injective fd' r.data.fd c' h hfd)
  have hkept {c' : ℕ} (h : c' ≠ c) :
      (s.delete a n r.data bytes).received c' = s.received c' ∧
        (s.delete a n r.data bytes).unread c' = s.unread c' := by
    constructor
    · simp [Server.delete, atFd, hfd, h]
    · by_cases herr : r.data.errNum > 0 <;> simp [Server.delete, atFd, hfd, h, herr]
  constructor
  case inTurn => exact he.inTurn
  case unopened =>
    intro c' hc'
    have hne : c' ≠ c := ((hs.opened r.data.fd c hfd).1.trans_le hc').ne'
    exact (hkept hne).1.trans (he.unopened c' hc')
  case toRead =>
    intro fd' c' d hc' hr'
    obtain ⟨hc',hfd',hne⟩ := hother hc'
    rw [(hkept hne).1, (hkept hne).2]
    exact he.toRead fd' c' d hc' ((Server.delete_registered_ne hfd').symm.trans hr')
  case toWrite =>
    intro a' n' data' c' ha' hc'
    obtain ⟨hc',-,hne⟩ := hother hc'
    exact (he.toWrite a' n' data' c' (Server.delete_heap_iff.mp ha').2 hc').congr rfl (hkept hne).1
      (hkept hne).2
  case closed =>
    intro c' hc' hclosed
    by_cases hne : c' = c
    · subst hne
      refine hprepares.answers hreply ?_ ?_
      · simp [Server.delete, atFd, hfd, hsilent]
      · by_cases herr : r.data.errNum > 0 <;> simp [Server.delete, atFd, hfd, herr, hrest]
    · refine (he.closed c' hc' fun fd' hfd' => hclosed fd' ?_).congr rfl (hkept hne).1 (hkept hne).2
      refine Server.delete_fds_iff.mpr ⟨?_,hfd'⟩
      rintro rfl
      exact hne (Option.some.inj (hfd'.symm.trans hfd))

/-- A program is run for an event to read, and for no other. -/
theorem Sound.child_cases {site : Site} (hs : Sound s sock) (hev : Reported s ev)
    (hfork : calls.fork = true) (h : handleEvent site sock s ev calls = some t) :
    readChild site sock s ev calls = none ∧ (t = s ∨ t = { s with returned := true } ∨
        (∃ fd request, s.fds fd = none ∧ fd ≠ sock ∧ t = s.add fd request) ∨
        ∃ c n data bytes, s.fds data.fd = some c ∧ s.heap ev.data = some (n,data) ∧
          s.registered ev.fd = some ⟨.epollOut,ev.data⟩ ∧ sent site.file calls data = some bytes ∧
          t = s.delete ev.data n data bytes) ∨
      ∃ a c r, s.fds ev.fd = some c ∧ s.registered ev.fd = some ⟨.epollIn,ev.data⟩ ∧
        s.heap a = none ∧ LibeventHttpd.acceptRequest site.stat site.cgi s.env ev.fd
          (s.sock ev.fd) = some r ∧ readChild site sock s ev calls = r.child ∧
        t = s.modify ev.fd a r.data r.env r.sock := by
  unfold handleEvent at h
  split_ifs at h with hlistener hin hout
  · left
    refine ⟨if_pos (.inl hlistener.1),(acceptEvent_cases h).imp_right fun h => .inr (.inl ?_)⟩
    obtain ⟨fd,request,hfd,hne,-,ht⟩ := h
    exact ⟨fd,request,hfd,hne,ht⟩
  · have hne : fdOf ev.data ≠ sock := fun he => hlistener ⟨he,hin⟩
    obtain ⟨hfd,c,hc,hreg⟩ := hs.find_read hev hin hne
    have hchild : readChild site sock s ev calls = calls.malloc.bind fun _ =>
        (LibeventHttpd.acceptRequest site.stat site.cgi s.env ev.fd (s.sock ev.fd)).bind
          Accepted.child := by
      rw [readChild, if_neg (by simp [hne, hin, hfork]), hfd]
    unfold readEvent at h
    cases hmalloc : calls.malloc with
    | none =>
      rw [hmalloc] at h hchild
      exact .inl ⟨hchild,.inl (Option.some.inj h).symm⟩
    | some a =>
      rw [hmalloc] at h hchild
      simp only [hfd, acceptRequest, hfork, Site.accept_fork] at h
      split_ifs at h with ha
      obtain ⟨⟨data,env,rest⟩,haccept,h⟩ := Option.bind_eq_some_iff.mp h
      obtain ⟨r,hr,hparts⟩ := Option.map_eq_some_iff.mp haccept
      obtain ⟨rfl,henv⟩ := Prod.mk.inj hparts
      obtain ⟨rfl,rfl⟩ := Prod.mk.inj henv
      rw [hr] at hchild
      exact .inr ⟨a,c,r,hc,hreg,ha,hr,hchild,(Option.some.inj h).symm⟩
  · left
    obtain ⟨c,n,data,hc,hreg,hheap,hfd⟩ := hs.find_write hev hout
    refine ⟨if_pos (.inr (.inl (by simpa using hin))),?_⟩
    obtain rfl | ⟨bytes,hsent,rfl⟩ := writeEvent_cases hheap h
    · exact .inr (.inl rfl)
    · rw [← hfd] at hc
      exact .inr (.inr (.inr ⟨c,n,data,bytes,hc,hheap,hreg,hsent,rfl⟩))
  · left
    exact ⟨if_pos (.inr (.inl (by simpa using hin))),.inl (Option.some.inj h).symm⟩

end Steps

section Runs
variable {σ τ : Type} {p : Programs σ τ} {w₀ : World σ} {env₀ : Env} {state₀ : σ}
  {turns : List (ℕ × Visit τ)} {s t : Server × σ} {sock c : ℕ}

theorem live_some {act : Action × τ} (h : live p sock s act = some t) :
    step (p.at s.2 act.2) sock s.1 act.1 = some t.1 ∧
      p.after s.2 act.2 (s.1.child (p.at s.2 act.2) sock act.1) = some t.2 := by
  obtain ⟨u,hu,h⟩ := Option.bind_eq_some_iff.mp h
  obtain ⟨state,hstate,h⟩ := Option.bind_eq_some_iff.mp h
  obtain rfl := Option.some.inj h
  exact ⟨hu,hstate⟩

theorem exact_live {act : Action × τ} (hs : Sound s.1 sock) (he : Exact p w₀ turns s.1 s.2)
    (hwhole : Complete p.file s act) (h : live p sock s act = some t) :
    ∃ later, Exact p w₀ (turns ++ later) t.1 t.2 := by
  obtain ⟨hstep,hstate⟩ := live_some h
  obtain ⟨s,state⟩ := s
  obtain ⟨t,state'⟩ := t
  obtain ⟨act,now⟩ := act
  obtain ⟨batch,rfl,-,-,rfl⟩ | ⟨calls,ev,batch,rfl,hb,hstep⟩ := step_cases hstep
  · obtain rfl : state = state' := Option.some.inj hstate
    exact ⟨[],(List.append_nil turns).symm ▸ { he with }⟩
  · obtain ⟨hs',hev,-⟩ := sound_next hs hb
    obtain ⟨hfork,hwhole⟩ := hwhole
    replace hb : s.batch = ev::batch := hb
    have he' : Exact p w₀ turns { s with batch := batch } state := { he with }
    have hchild : s.child (p.at state now) sock (.event calls) =
        readChild (p.at state now) sock { s with batch := batch } ev calls := by
      rw [Server.child, hb]
      rfl
    simp only [hchild] at hstate
    obtain ⟨hnone,hcases⟩ | ⟨a,c,r,hc,hreg,ha,hr,hsome,rfl⟩ := hs'.child_cases hev hfork hstep
    · rw [hnone] at hstate
      obtain rfl : state = state' := Option.some.inj hstate
      refine ⟨[],(List.append_nil turns).symm ▸ ?_⟩
      obtain rfl | rfl | ⟨fd,request,hfd,hne,rfl⟩ | ⟨c,n,data,bytes,hc,ha,hreg,hsent,rfl⟩ := hcases
      · exact he'
      · exact { he with }
      · exact exact_add hs' he' request hfd hne
      · exact exact_delete hs' he' hc ha (hwhole ev (by simp only [hb]; rfl) hreg (n,data) ha) hsent
    · rw [hsome] at hstate
      exact ⟨_,exact_modify hs' he' hc hreg ha hr hstate⟩

/-- The turns go on where they were. -/
theorem exact_of_reaches (hs : Sound s.1 sock) (he : Exact p w₀ turns s.1 s.2)
    (h : Reaches (live p sock) (Complete p.file) s t) :
    Sound t.1 sock ∧ ∃ later, Exact p w₀ (turns ++ later) t.1 t.2 := by
  have hstep (s : Server × σ) (act : Action × τ) (t : Server × σ)
      (hI : Sound s.1 sock ∧ ∃ later, Exact p w₀ (turns ++ later) s.1 s.2)
      (hwhole : Complete p.file s act) (h : live p sock s act = some t) :
      Sound t.1 sock ∧ ∃ later, Exact p w₀ (turns ++ later) t.1 t.2 := by
    obtain ⟨hs,later,he⟩ := hI
    obtain ⟨more,ht⟩ := exact_live hs he hwhole h
    exact ⟨sound_step hs (live_some h).1,later ++ more,List.append_assoc turns later more ▸ ht⟩
  exact h.keeps (I := fun s => Sound s.1 sock ∧ ∃ later, Exact p w₀ (turns ++ later) s.1 s.2) hstep
    ⟨hs,[],(List.append_nil turns).symm ▸ he⟩

theorem exists_exact {epEv : ℕ} (hsock : sock < 2^31)
    (h : Reaches (live p sock) (Complete p.file) (start sock epEv env₀,state₀) s) :
    Sound s.1 sock ∧ ∃ turns, Exact p ⟨env₀,state₀⟩ turns s.1 s.2 :=
  exact_of_reaches (sound_start hsock epEv env₀) (exact_start p sock epEv env₀ state₀) h

theorem Exact.explains (hs : Sound s.1 sock) (he : Exact p w₀ turns s.1 s.2) :
    Explains p w₀ turns s.1.outside ⟨s.1.env,s.2⟩ where
  inTurn := he.inTurn
  waits := by
    rintro c hc ⟨fd,hfd⟩
    obtain ⟨data,hr,-⟩ | ⟨a,n,data,-,ha,rfl⟩ := hs.armed fd c hfd
    · exact (he.toRead fd c data hfd hr).2.1
    · exact (he.toWrite a n data c ha hfd).1
  answered := fun c hc hclosed => he.closed c hc (not_exists.mp hclosed)

/-- The requests are read one after the other, each client's once, by programs that find what those
before them have left. In every order of the events a client gets nothing but the response that its
turn makes. Who is read later comes later. -/
theorem explained_of_complete {epEv : ℕ} (hsock : sock < 2^31)
    (h : Reaches (live p sock) (Complete p.file) (start sock epEv env₀,state₀) s)
    (h' : Reaches (live p sock) (Complete p.file) s t) :
    ∃ turns later, Explains p ⟨env₀,state₀⟩ turns s.1.outside ⟨s.1.env,s.2⟩ ∧
      Explains p ⟨env₀,state₀⟩ (turns ++ later) t.1.outside ⟨t.1.env,t.2⟩ := by
  obtain ⟨hs,turns,he⟩ := exists_exact hsock h
  obtain ⟨ht,later,he'⟩ := exact_of_reaches hs he h'
  exact ⟨turns,later,he.explains hs,he'.explains ht⟩

theorem explained_pages : ∃ s t, run (live pages.programs 3) (start 3 0 ⟨none,none,none⟩,())
      [(.wait [⟨3,true,false,3⟩],()),(.event (succeed (some (5,getA)) none),()),
        (.wait [⟨5,true,false,5⟩],()),(.event (succeed none (some 4096)),())] = some s ∧
    run (live pages.programs 3) s
      [(.wait [⟨5,false,true,4096⟩],()),(.event (succeed none none),())] = some t ∧
    ∃ turns later, Explains pages.programs ⟨⟨none,none,none⟩,()⟩ turns s.1.outside
        ⟨s.1.env,s.2⟩ ∧
      Explains pages.programs ⟨⟨none,none,none⟩,()⟩ (turns ++ later) t.1.outside
        ⟨t.1.env,t.2⟩ := by
  refine ⟨_,_,rfl,rfl,?_⟩
  have h₀ : Reaches (live pages.programs 3) (Complete pages.file)
      (start 3 0 ⟨none,none,none⟩,()) _ := Reaches.refl _
  have h₁ := h₀.next (.wait [⟨3,true,false,3⟩],()) trivial rfl
  have h₂ := h₁.next (.event (succeed (some (5,getA)) none),()) ⟨rfl,by
    intro ev hev hout
    rw [← Option.some.inj hev] at hout
    exact absurd hout (by decide)⟩ rfl
  have h₃ := h₂.next (.wait [⟨5,true,false,5⟩],()) trivial rfl
  refine explained_of_complete (by decide) (h₃.next (.event (succeed none (some 4096)),()) ⟨rfl,by
    intro ev hev hout
    rw [← Option.some.inj hev] at hout
    exact absurd hout (by decide)⟩ rfl) ?_
  refine ((Reaches.refl _).next (.wait [⟨5,false,true,4096⟩],()) trivial rfl).next
    (.event (succeed none none),()) ⟨rfl,?_⟩ rfl
  intro ev hev hout p hp r hr
  rw [← Option.some.inj hev] at hp
  rw [← Option.some.inj hp] at hr
  rw [← Option.some.inj hr]
  decide

theorem Faithful.complete {act : Action × τ} (h : Faithful p s act) : Complete p.file s act := by
  obtain ⟨batch | calls,now⟩ := act
  · exact trivial
  · exact h.1

theorem complete_of_faithful (h : Reaches (live p sock) (Faithful p) s t) :
    Reaches (live p sock) (Complete p.file) s t :=
  h.mono fun _ _ hfaithful => hfaithful.complete

/-- There is always an address left for a record. -/
theorem Sound.exists_free {s : Server} (hs : Sound s sock) : ∃ a, s.heap a = none := by
  by_contra hno
  have hfull (a : ℕ) : ∃ p, s.heap a = some p :=
    Option.ne_none_iff_exists'.mp fun hnone => hno ⟨a,hnone⟩
  choose p hp using hfull
  have hlt (a : ℕ) : (p a).1 < s.records := (hs.live a (p a).1 (p a).2 (hp a)).1
  have hinj : Function.Injective fun a => (⟨(p a).1,hlt a⟩ : Fin s.records) := by
    intro a a' heq
    have hnum : (p a).1 = (p a').1 := congrArg Fin.val heq
    have ha' : s.heap a' = some ((p a).1,(p a').2) := by rw [hp a', hnum]
    exact hs.numbered a a' (p a).1 (p a).2 (p a').2 (hp a) ha'
  exact not_injective_infinite_finite _ hinj

/-- Nothing is left of a batch, and the function has not returned. -/
def Idle (s : Server) : Prop := s.returned = false ∧ s.batch = []

/-- `epoll_wait` can report any event of a registration alone. -/
theorem reaches_event {C : Server × σ → Action × τ → Prop} {s t : Server} {state state' : σ}
    {now : τ} {ev : Ready} {calls : Calls} (hidle : Idle s) (hev : Reported s ev)
    (hC : C (s,state) (.wait [ev],now))
    (hC' : C ({ s with batch := [ev] },state) (.event calls,now))
    (h : handleEvent (p.at state now) sock s ev calls = some t)
    (hstate : p.after state now (readChild (p.at state now) sock s ev calls) = some state') :
    Reaches (live p sock) C (s,state) (t,state') := by
  have hwait : live p sock (s,state) (.wait [ev],now) =
      some ({ s with batch := [ev] },state) := by
    have hstep : step (p.at state now) sock s (.wait [ev]) = some { s with batch := [ev] } := by
      rw [step, if_pos]
      exact ⟨hidle.1,hidle.2,by simp,by simpa using hev⟩
    simp only [live, hstep]
    rfl
  have hsame : { s with batch := [] } = s := by rw [← hidle.2]
  have hevent : live p sock ({ s with batch := [ev] },state) (.event calls,now) =
      some (t,state') := by
    have hstep : step (p.at state now) sock { s with batch := [ev] } (.event calls) = some t := by
      rw [← h, ← hsame]
      simp only [step, hidle.1, Bool.false_eq_true, if_false]
    have hchild : Server.child (p.at state now) sock { s with batch := [ev] } (.event calls) =
        readChild (p.at state now) sock s ev calls := rfl
    simp only [live, hstep, hchild, hstate, Option.bind_eq_bind, Option.bind_some]
    rfl
  exact (reaches_of_step hC hwait).next _ hC' hevent

/-- What is asked of `stat` before a page that is there is sent. -/
theorem stat_of_reply {file : List CChar → List CChar} {stat : Stat} {data : DataBuf}
    {bytes : List CChar} (hthere : ¬data.Missing stat) (hreply : reply file data = some bytes) :
    ¬(data.errNum = 0 ∧ data.cgi = false ∧ (data.path.bind stat).isSome = false) := by
  rintro ⟨herr,hcgi,hstat⟩
  cases hpath : data.path with
  | none =>
    rw [reply, if_pos herr, if_neg (by simp [hcgi]), hpath] at hreply
    cases hreply
  | some path => exact hthere ⟨herr,hcgi,path,hpath,by simpa [hpath] using hstat⟩

/-- Once a connection has its record, one more event answers it. -/
theorem exists_written {s : Server} {state : σ} {a n : ℕ} {data : DataBuf} {bytes : List CChar}
    (hs : Sound s sock) (he : Exact p w₀ turns s state) (hidle : Idle s)
    (hfd : s.fds data.fd = some c) (ha : s.heap a = some (n,data))
    (hthere : ¬data.Missing p.stat) (hreply : reply p.file data = some bytes) (now : τ) :
    ∃ t, Reaches (live p sock) (Faithful p) (s,state) (t,state) ∧
      (∀ fd, t.fds fd ≠ some c) ∧ t.conns = s.conns ∧ t.request = s.request := by
  obtain ⟨-,r,hprepares,rfl,-⟩ := he.toWrite a n data c ha hfd
  obtain ⟨state',now',env,fd,hr⟩ := hprepares.accepted
  have hfound := stat_of_reply hthere hreply
  rw [reply_eq] at hreply
  obtain ⟨q,hq,-⟩ := Option.map_eq_some_iff.mp hreply
  have hset : ¬(r.data.errNum = 0 ∧ r.data.cgi = true ∧ r.data.buf = none) :=
    fun h => acceptRequest_buf hr h.1 h.2.1 h.2.2
  let calls : Calls :=
    ⟨none,none,true,(r.data.path.bind p.stat).isSome,(q.1.length,q.2.length),[]⟩
  have hsent : sent p.file calls r.data = some (q.1 ++ q.2) := by
    rw [sent, if_neg hset, hq, Option.map_some, List.take_length, List.take_length]
  have hwrite : writeEvent (p.at state now) s ⟨r.data.fd,false,true,a⟩ calls =
      some (s.delete a n r.data (q.1 ++ q.2)) := by
    have hfile : (p.at state now).file = p.file := rfl
    simp only [writeEvent, ha, if_neg hfound, hfile, hsent, Option.bind_eq_bind, Option.bind_some,
      calls]
    rfl
  have hhandle : handleEvent (p.at state now) sock s ⟨r.data.fd,false,true,a⟩ calls =
      some (s.delete a n r.data (q.1 ++ q.2)) := by simpa [handleEvent] using hwrite
  have hchild : readChild (p.at state now) sock s ⟨r.data.fd,false,true,a⟩ calls = none := by
    simp [readChild]
  have howned := hs.owned a n r.data ha
  refine ⟨_,reaches_event hidle ⟨_,howned,rfl,by simp,by simp⟩ trivial ⟨⟨rfl,?_⟩,?_⟩ hhandle
    (by rw [hchild]; rfl),fun fd' hfd' => ?_,rfl,rfl⟩
  · rintro ev hev - q' hq' w hw
    obtain rfl := Option.some.inj hev
    obtain rfl := Option.some.inj (ha.symm.trans hq')
    obtain rfl := Option.some.inj (hq.symm.trans hw)
    exact ⟨le_rfl,le_rfl⟩
  · intro ev hev reg hreg
    obtain rfl := Option.some.inj hev
    obtain rfl := Option.some.inj (howned.symm.trans hreg)
    intro q' hq' path hpath
    obtain rfl := Option.some.inj (ha.symm.trans hq')
    exact congrArg (fun o => (o.bind p.stat).isSome) hpath
  · obtain ⟨hne,hfd'⟩ := Server.delete_fds_iff.mp hfd'
    exact hne (hs.injective fd' r.data.fd c hfd' hfd)

/-- A connection that waits to be read gets its record with one event. -/
theorem exists_read {s : Server} {state : σ} {fd d : ℕ} {now : τ} {w : World σ} {r : Accepted}
    {x : Dispatch} (hs : Sound s sock) (he : Exact p w₀ turns s state) (hidle : Idle s)
    (hfd : s.fds fd = some c) (hreg : s.registered fd = some ⟨.epollIn,d⟩) (hd : fdOf d = fd)
    (hread : p.read ⟨s.env,state⟩ ⟨fd,now,s.request c⟩ = some (w,r))
    (hx : dispatch p.stat s.env fd (s.request c) = some x) (hcompletes : x.Completes p.stat) :
    ∃ t a n, Reaches (live p sock) (Faithful p) (s,state) (t,w.state) ∧ Idle t ∧
      t.fds r.data.fd = some c ∧ t.heap a = some (n,r.data) ∧ t.request = s.request ∧
      t.conns = s.conns := by
  obtain ⟨a,ha⟩ := hs.exists_free
  obtain ⟨hr,hstate,-⟩ := read_some hread
  have hsock : s.sock fd = s.request c := by
    rw [Server.sock, hfd, ← (he.toRead fd c d hfd hreg).1]
    rfl
  have hne : fd ≠ sock := (hs.opened fd c hfd).2
  have haccept : acceptRequest (p.at state now) true s.env fd (s.sock fd) =
      some (r.data,r.env,r.sock) := by
    rw [acceptRequest, Site.accept_fork, hsock]
    exact congrArg (Option.map fun a : Accepted => (a.data,a.env,a.sock)) hr
  have hhandle : handleEvent (p.at state now) sock s ⟨fd,true,false,d⟩
      ⟨none,some a,true,true,(0,0),[]⟩ = some (s.modify fd a r.data r.env r.sock) := by
    simp [handleEvent, readEvent, hd, hne, ha, haccept]
  have hchild : readChild (p.at state now) sock s ⟨fd,true,false,d⟩
      ⟨none,some a,true,true,(0,0),[]⟩ = r.child := by
    rw [readChild, if_neg (by simp [hd, hne]), hd, hsock]
    exact congrArg (fun o : Option Accepted => o.bind Accepted.child) hr
  refine ⟨_,a,s.records,reaches_event hidle ⟨_,hreg,rfl,by simp,by simp⟩ trivial ⟨⟨rfl,?_⟩,?_⟩
    hhandle (by rw [hchild]; exact hstate),hidle,?_,Function.update_self _ _ _,rfl,rfl⟩
  · intro ev hev hout
    obtain rfl := Option.some.inj hev
    cases hreg.symm.trans hout
  · intro ev hev reg hreg'
    obtain rfl := Option.some.inj hev
    obtain rfl := Option.some.inj (hreg.symm.trans hreg')
    intro call hcall
    have hcall' : dispatch p.stat s.env fd (s.sock fd) = some (.exec call) := hcall
    rw [hsock, hx] at hcall'
    obtain rfl := Option.some.inj hcall'
    exact hcompletes
  · rw [LibeventHttpd.acceptRequest_fd hr]
    exact hfd

/-- A client that is alone is served by three events. -/
theorem reaches_alone {request : Stream} {fd : ℕ} {now : τ} {w : World σ} {x : Exchange}
    {d : Dispatch} (epEv : ℕ) (hsock : sock < 2^31) (hfd : fd < 2^31) (hne : fd ≠ sock)
    (hserve : p.serve ⟨env₀,state₀⟩ ⟨fd,now,request⟩ = some (w,x))
    (hd : dispatch p.stat env₀ fd request = some d) (hcompletes : d.Completes p.stat) :
    ∃ s, Reaches (live p sock) (Complete p.file) (start sock epEv env₀,state₀) (s,w.state) ∧
      s.conns = 1 ∧ s.request 0 = request ∧ ∀ fd, s.fds fd ≠ some 0 := by
  obtain ⟨r,hread,hreply,-⟩ := read_of_serve hserve
  have hthere : ¬r.data.Missing (p.at state₀ now).stat :=
    hcompletes.not_missing hd (read_some hread).1
  have hhandle : handleEvent (p.at state₀ now) sock (start sock epEv env₀)
      ⟨sock,true,false,setFd epEv sock⟩ ⟨some (fd,request),none,true,true,(0,0),[]⟩ =
      some ((start sock epEv env₀).add fd request) := by
    simpa [handleEvent, acceptEvent, fdOf_setFd hsock, start, hne] using hfd
  have hchild : readChild (p.at state₀ now) sock (start sock epEv env₀)
      ⟨sock,true,false,setFd epEv sock⟩ ⟨some (fd,request),none,true,true,(0,0),[]⟩ = none :=
    if_pos (.inl (fdOf_setFd hsock))
  have hlistener : Reported (start sock epEv env₀) ⟨sock,true,false,setFd epEv sock⟩ :=
    ⟨⟨.epollIn,setFd epEv sock⟩,by simp [start],rfl,by simp,by simp⟩
  have h₁ : Reaches (live p sock) (Complete p.file) (start sock epEv env₀,state₀)
      ((start sock epEv env₀).add fd request,state₀) := by
    refine reaches_event ⟨rfl,rfl⟩ hlistener trivial ⟨rfl,?_⟩ hhandle (by rw [hchild]; rfl)
    intro ev hev hout
    obtain rfl := Option.some.inj hev
    simp [start] at hout
  obtain ⟨hs₁,turns₁,he₁⟩ := exists_exact hsock h₁
  have hrequest₁ : ((start sock epEv env₀).add fd request).request 0 = request := by
    simp [Server.add, start]
  obtain ⟨s₂,a,n,h₂,hidle,hfd₂,ha,hrequest₂,hconns₂⟩ := exists_read hs₁ he₁ ⟨rfl,rfl⟩
    (Function.update_self _ _ _) (Function.update_self _ _ _) (fdOf_setFd hfd) hread hd hcompletes
  replace h₂ := complete_of_faithful h₂
  obtain ⟨hs₂,turns₂,he₂⟩ := exists_exact hsock (h₁.trans h₂)
  obtain ⟨s₃,h₃,hclosed,hconns₃,hrequest₃⟩ :=
    exists_written hs₂ he₂ hidle hfd₂ ha hthere hreply now
  refine ⟨s₃,(h₁.trans h₂).trans (complete_of_faithful h₃),?_,?_,hclosed⟩
  · rw [hconns₃, hconns₂]
    rfl
  · rw [hrequest₃, hrequest₂, hrequest₁]

end Runs

end LibeventHttpd.Epoll
