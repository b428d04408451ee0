import LibeventHttpd.EventLoop
import LibeventHttpd.Programs

/-! Which client gets which response, in any order of the callbacks. There is one record, the one
of the request that was read last, and `write_fc` looks at nothing else. -/
namespace LibeventHttpd
open Transition Turns

/-- Callbacks in any order; those for writing come at any time, for closed connections too. -/
def callback (site : Site) (s : Server) : Event → Option Server
  | .accept fd request => acceptFc s fd request
  | .read fd calls => readFc site s fd calls
  | .write _ => sendData site s

/-- The program that a callback runs. -/
def Server.child (site : Site) (s : Server) : Event → Option Child
  | .read fd calls =>
    if calls.malloc ∧ calls.fork then
      (acceptRequest site.stat site.cgi s.env fd (s.sock fd)).bind Accepted.child
    else none
  | _ => none

/-- A callback at some time, and what its program leaves. -/
def live {σ τ : Type} (p : Programs σ τ) (s : Server × σ) (e : Event × τ) :
    Option (Server × σ) := do
  let t ← callback (p.at s.2 e.2) s.1 e.1
  let state ← p.after s.2 e.2 (s.1.child (p.at s.2 e.2) e.1)
  return (t,state)

def Server.outside (s : Server) : Outside :=
  ⟨s.conns,s.request,s.received,s.unread,fun c => ∃ fd, s.fds fd = some c⟩

/-- The descriptor in `_data` is not the one of a client whose request is still to be read. -/
def NotReused (s : Server) : Event → Prop
  | .write _ => ∀ data c, s.data = some data → s.fds data.fd = some c → s.record c ≠ none
  | _ => True

/-- A program finds a process. -/
def Forks : Event → Prop
  | .read _ calls => calls.fork = true
  | _ => True

/-- No client is taken for another one, and every program is run. -/
def Apart {σ τ : Type} (s : Server × σ) (e : Event × τ) : Prop := NotReused s.1 e.1 ∧ Forks e.1

section Delivering
variable {σ τ : Type} (p : Programs σ τ) (w₀ : World σ) (turns : List (ℕ × Visit τ)) (s : Server)
  (c : ℕ)

/-- The client has got the response to its request. -/
def Responded : Prop := Answers p w₀ turns c (s.request c) (s.received c) (s.unread c)

/-- A request that was read is answered and its connection closed, or nothing is sent yet. -/
def Handled (data : DataBuf) : Prop :=
  (∀ fd, s.fds fd ≠ some c) ∧ Responded p w₀ turns s c ∨
    (∃ fd, s.fds fd = some c) ∧ s.received c = [] ∧
      ∃ a, Prepares p w₀ turns c (s.request c) a ∧ a.data = data ∧ s.unread c = a.sock

/-- What holds between callbacks as long as no new client is taken for an old one. -/
structure Delivering (state : σ) : Prop where
  injective : ∀ fd fd' c, s.fds fd = some c → s.fds fd' = some c → fd = fd'
  opened : ∀ fd c, s.fds fd = some c → c < s.conns
  unopened : ∀ c, s.conns ≤ c → s.record c = none
  toRead : ∀ fd c, s.reading fd = some c →
    s.fds fd = some c ∧ s.unread c = s.request c ∧ s.record c = none
  latest : ∀ data c, s.data = some data → s.fds data.fd = some c → ∀ data' ∈ s.record c,
    data' = data
  silent : ∀ c, s.record c = none → s.received c = []
  waiting : ∀ c, c < s.conns → s.record c = none → ∃ fd, s.fds fd = some c
  recorded : ∀ c, ∀ data ∈ s.record c, Handled p w₀ turns s c data
  inTurn : InTurn p.read (Sends s.conns s.request) w₀ turns ⟨s.env,state⟩
  hadTurn : ∀ c ∈ turns.map Prod.fst, s.record c ≠ none

end Delivering

section Steps
variable {σ τ : Type} {p : Programs σ τ} {w₀ : World σ} {turns : List (ℕ × Visit τ)}
variable {s t : Server} {state state' : σ} {now : τ} {fd c : ℕ}

theorem delivering_listening (p : Programs σ τ) (env : Env) (state : σ) :
    Delivering p ⟨env,state⟩ [] (listening env) state := by
  constructor
  case inTurn => exact inTurn_nil _ _
  all_goals simp [listening]

/-- A callback for another client changes nothing for this one. -/
theorem Handled.congr {data : DataBuf} (h : Handled p w₀ turns s c data)
    (hrequest : t.request c = s.request c) (hreceived : t.received c = s.received c)
    (hunread : t.unread c = s.unread c) (hfds : ∀ fd, t.fds fd = some c ↔ s.fds fd = some c) :
    Handled p w₀ turns t c data := by
  obtain ⟨hclosed,hresp⟩ | ⟨⟨fd,hfd⟩,hsilent,a,ha,hdata,hrest⟩ := h
  · left
    refine ⟨fun fd hfd => hclosed fd ((hfds fd).mp hfd),?_⟩
    rwa [Responded, hrequest, hreceived, hunread]
  · right
    exact ⟨⟨fd,(hfds fd).mpr hfd⟩,hreceived.trans hsilent,a,hrequest ▸ ha,hdata,
      hunread.trans hrest⟩

/-- The next turn is that of another client. -/
theorem Handled.append {data : DataBuf} (h : Handled p w₀ turns s c data)
    (turns' : List (ℕ × Visit τ)) : Handled p w₀ (turns ++ turns') s c data := by
  obtain ⟨hclosed,hresp⟩ | ⟨hopen,hsilent,a,ha,hdata,hrest⟩ := h
  · exact .inl ⟨hclosed,At.append hresp turns'⟩
  · exact .inr ⟨hopen,hsilent,a,At.append ha turns',hdata,hrest⟩

theorem Delivering.ne (hs : Delivering p w₀ turns s state) {fd' c' : ℕ}
    (hfd : s.fds fd = some c) (hne : fd' ≠ fd) (hfd' : s.fds fd' = some c') : c' ≠ c := by
  rintro rfl
  exact hne (hs.injective fd' fd c' hfd' hfd)

theorem delivering_accept {request : Stream} (hs : Delivering p w₀ turns s state)
    (h : acceptFc s fd request = some t) : Delivering p w₀ turns t state := by
  unfold acceptFc at h
  split_ifs at h with hfree
  obtain rfl := Option.some.inj h
  have hold {fd' c : ℕ} (hfd : s.fds fd' = some c) : c ≠ s.conns := (hs.opened fd' c hfd).ne
  have hother {fd' c : ℕ} (hfd : s.fds fd' = some c) : fd' ≠ fd := by
    rintro rfl
    simp [hfree] at hfd
  have hnew := hs.unopened s.conns le_rfl
  constructor
  case injective =>
    intro fd₁ fd₂ c h₁ h₂
    exact update_injective hs.injective (fun fd hfd => hold hfd rfl) h₁ h₂
  case opened =>
    intro fd' c hfd
    obtain ⟨-,rfl⟩ | ⟨-,hfd⟩ := update_some_iff.mp hfd
    · exact Nat.lt_succ_self _
    · exact Nat.lt_succ_of_lt (hs.opened fd' c hfd)
  case unopened => exact fun c hc => hs.unopened c (Nat.le_of_succ_le hc)
  case toRead =>
    intro fd' c hread
    obtain ⟨rfl,rfl⟩ | ⟨hne,hread⟩ := update_some_iff.mp hread
    · simp [hnew]
    · obtain ⟨hfd,hunread,hrecord⟩ := hs.toRead fd' c hread
      simp [hne, hold hfd, hfd, hunread, hrecord]
  case latest =>
    intro data c hlast hfd data' hdata'
    obtain ⟨-,rfl⟩ | ⟨-,hfd⟩ := update_some_iff.mp hfd
    · rw [hnew] at hdata'
      cases hdata'
    · exact hs.latest data c hlast hfd data' hdata'
  case silent => exact hs.silent
  case waiting =>
    intro c hc hnone
    rcases Nat.eq_or_lt_of_le (Nat.le_of_lt_succ hc) with rfl | hc
    · exact ⟨fd,Function.update_self _ _ _⟩
    · obtain ⟨fd',hfd'⟩ := hs.waiting c hc hnone
      exact ⟨fd',update_some_iff.mpr (.inr ⟨hother hfd',hfd'⟩)⟩
  case recorded =>
    intro c data hdata
    have hc : c ≠ s.conns := by
      rintro rfl
      rw [hnew] at hdata
      cases hdata
    refine (hs.recorded c data hdata).congr (Function.update_of_ne hc _ _) rfl
      (Function.update_of_ne hc _ _) fun fd' => ?_
    rw [update_some_iff]
    exact ⟨fun hfd => (hfd.resolve_left fun h => hc h.2).2,fun hfd => .inr ⟨hother hfd,hfd⟩⟩
  case inTurn => exact hs.inTurn.mono fun c v hv => hv.connect request
  case hadTurn => exact hs.hadTurn

theorem delivering_noRecord (hs : Delivering p w₀ turns s state) (fd : ℕ) :
    Delivering p w₀ turns (s.noRecord fd) state where
  injective := hs.injective
  opened := hs.opened
  unopened := hs.unopened
  toRead := fun fd' c hread => hs.toRead fd' c (update_none_iff.mp hread).2
  latest := fun data c hlast => by cases hlast
  silent := hs.silent
  waiting := hs.waiting
  recorded := hs.recorded
  inTurn := hs.inTurn
  hadTurn := hs.hadTurn

/-- The request that is read is that of a client that has got nothing. -/
theorem delivering_newRecord (hs : Delivering p w₀ turns s state) {a : Accepted}
    (hread : s.reading fd = some c)
    (ha : acceptRequest p.stat (p.at state now).cgi s.env fd (s.sock fd) = some a)
    (hstate : p.after state now a.child = some state') :
    Delivering p w₀ (turns ++ [(c,⟨fd,now,s.request c⟩)]) (s.newRecord fd c a) state' := by
  obtain ⟨hfd,hunread,hrecord⟩ := hs.toRead fd c hread
  have hdata : a.data.fd = fd := acceptRequest_fd ha
  have hsock : s.sock fd = s.request c := by rw [Server.sock, hfd, ← hunread]; rfl
  rw [hsock] at ha
  have hserve : p.read ⟨s.env,state⟩ ⟨fd,now,s.request c⟩ = some (⟨a.env,state'⟩,a) :=
    read_of_accepted ha hstate
  have hfirst : c ∉ turns.map Prod.fst := fun hc => hs.hadTurn c hc hrecord
  have hturn := hs.inTurn.snoc hfirst ⟨hs.opened fd c hfd,rfl⟩ hserve
  have hprepares : Prepares p w₀ (turns ++ [(c,⟨fd,now,s.request c⟩)]) c (s.request c) a :=
    hs.inTurn.at_last ⟨rfl,_,hserve⟩
  constructor
  case injective => exact hs.injective
  case opened => exact hs.opened
  case unopened =>
    intro c' hc'
    have hc : c' ≠ c := ((hs.opened fd c hfd).trans_le hc').ne'
    exact (Function.update_of_ne hc _ _).trans (hs.unopened c' hc')
  case toRead =>
    intro fd' c' hread'
    obtain ⟨hne,hread'⟩ := update_none_iff.mp hread'
    obtain ⟨hfd',hunread',hrecord'⟩ := hs.toRead fd' c' hread'
    simp [Server.newRecord, atFd, hfd, hs.ne hfd hne hfd', hfd', hunread', hrecord']
  case latest =>
    intro data c' hlast hfd' data' hdata'
    obtain rfl := Option.some.inj hlast
    obtain rfl : c' = c := Option.some.inj (hfd'.symm.trans (hdata ▸ hfd))
    obtain ⟨-,rfl⟩ | ⟨hne,-⟩ := update_some_iff.mp hdata'
    · rfl
    · exact absurd rfl hne
  case silent =>
    intro c' hnone
    by_cases hc : c' = c
    · subst hc
      exact hs.silent c' hrecord
    · exact hs.silent c' ((Function.update_of_ne hc _ _).symm.trans hnone)
  case waiting =>
    intro c' hc' hnone
    by_cases hc : c' = c
    · exact ⟨fd,hc ▸ hfd⟩
    · exact hs.waiting c' hc' ((Function.update_of_ne hc _ _).symm.trans hnone)
  case recorded =>
    intro c' data hdata'
    obtain ⟨rfl,rfl⟩ | ⟨hc,hdata'⟩ := update_some_iff.mp hdata'
    · right
      exact ⟨⟨fd,hfd⟩,hs.silent c' hrecord,a,hprepares,rfl,by simp [Server.newRecord, atFd, hfd]⟩
    · refine ((hs.recorded c' data hdata').append _).congr rfl rfl ?_ fun fd' => Iff.rfl
      simp [Server.newRecord, atFd, hfd, hc]
  case inTurn => exact hturn
  case hadTurn =>
    intro c' hc'
    by_cases hc : c' = c
    · simp [Server.newRecord, hc]
    · have hold : c' ∈ turns.map Prod.fst := by simpa [hc] using hc'
      simpa [Server.newRecord, hc] using hs.hadTurn c' hold

theorem delivering_read {calls : ReadCalls} (hs : Delivering p w₀ turns s state)
    (hfork : calls.fork = true) (h : readFc (p.at state now) s fd calls = some t)
    (hstate : p.after state now (s.child (p.at state now) (.read fd calls)) = some state') :
    ∃ later, Delivering p w₀ (turns ++ later) t state' := by
  obtain ⟨c,hread,⟨hmalloc,rfl⟩ | ⟨hmalloc,a,ha,rfl⟩⟩ := readFc_cases h
  · rw [Server.child, if_neg (by simp [hmalloc])] at hstate
    obtain rfl := Option.some.inj hstate
    exact ⟨[],(List.append_nil turns).symm ▸ delivering_noRecord hs fd⟩
  · rw [hfork, Site.accept_fork] at ha
    rw [Server.child, if_pos ⟨hmalloc,hfork⟩, ha, Option.bind_some] at hstate
    exact ⟨_,delivering_newRecord hs hread ha hstate⟩

/-- What is sent to an open connection is the response to the request that came on it. -/
theorem delivering_send (hs : Delivering p w₀ turns s state) (hkept : NotReused s (.write fd))
    (h : sendData (p.at state now) s = some t) : Delivering p w₀ turns t state := by
  obtain ⟨data,hlast,⟨-,rfl⟩ | ⟨-,bytes,hreply,rfl⟩⟩ := sendData_cases h
  · exact hs
  have hclosed (fd' c : ℕ) : (s.send data bytes).fds fd' = some c ↔
      s.fds fd' = some c ∧ s.fds data.fd ≠ some c := by
    rw [Server.send, update_none_iff]
    constructor
    · rintro ⟨hne,hfd'⟩
      exact ⟨hfd',fun hfd => hs.ne hfd hne hfd' rfl⟩
    · rintro ⟨hfd',hno⟩
      refine ⟨?_,hfd'⟩
      rintro rfl
      exact hno hfd'
  constructor
  case injective =>
    intro fd₁ fd₂ c h₁ h₂
    exact hs.injective fd₁ fd₂ c ((hclosed fd₁ c).mp h₁).1 ((hclosed fd₂ c).mp h₂).1
  case opened => exact fun fd' c hfd' => hs.opened fd' c ((hclosed fd' c).mp hfd').1
  case unopened => exact hs.unopened
  case toRead =>
    intro fd' c hread
    obtain ⟨hfd',hrest,hnone⟩ := hs.toRead fd' c hread
    have hc : s.fds data.fd ≠ some c := fun hfd => hkept data c hlast hfd hnone
    exact ⟨(hclosed fd' c).mpr ⟨hfd',hc⟩,(Server.send_of_ne bytes hc).2.trans hrest,hnone⟩
  case latest =>
    intro data' c hlast' hfd
    obtain rfl := Option.some.inj (hlast.symm.trans hlast')
    exact absurd rfl (update_none_iff.mp hfd).1
  case silent =>
    intro c hnone
    have hc : s.fds data.fd ≠ some c := fun hfd => hkept data c hlast hfd hnone
    exact (Server.send_of_ne bytes hc).1.trans (hs.silent c hnone)
  case waiting =>
    intro c hlt hnone
    obtain ⟨fd',hfd'⟩ := hs.waiting c hlt hnone
    exact ⟨fd',(hclosed fd' c).mpr ⟨hfd',fun hfd => hkept data c hlast hfd hnone⟩⟩
  case recorded =>
    intro c data' hdata'
    by_cases hc : s.fds data.fd = some c
    · obtain rfl := hs.latest data c hlast hc data' hdata'
      obtain ⟨hno,-⟩ | ⟨-,hsilent,a,ha,rfl,hrest⟩ := hs.recorded c data' hdata'
      · exact absurd hc (hno _)
      · left
        refine ⟨fun fd' hfd' => ((hclosed fd' c).mp hfd').2 hc,ha.answers hreply ?_ ?_⟩
        · simp [Server.send, atFd, hc, hsilent]
        · by_cases herr : a.data.errNum > 0 <;> simp [Server.send, atFd, hc, herr, hrest]
    · obtain ⟨hreceived,hunread⟩ := Server.send_of_ne (s := s) bytes hc
      exact (hs.recorded c data' hdata').congr rfl hreceived hunread
        fun fd' => (hclosed fd' c).trans (and_iff_left hc)
  case inTurn => exact hs.inTurn
  case hadTurn => exact hs.hadTurn

end Steps

section Runs
variable {σ τ : Type} {p : Programs σ τ} {env₀ : Env} {state₀ : σ} {w₀ : World σ}
  {turns : List (ℕ × Visit τ)} {s t : Server × σ} {fd c : ℕ}

theorem live_some {e : Event × τ} (h : live p s e = some t) :
    callback (p.at s.2 e.2) s.1 e.1 = some t.1 ∧
      p.after s.2 e.2 (s.1.child (p.at s.2 e.2) e.1) = some t.2 := by
  obtain ⟨u,hu,h⟩ := Option.bind_eq_some_iff.mp h
  obtain ⟨state,hstate,h⟩ := Option.bind_eq_some_iff.mp h
  obtain rfl := Option.some.inj h
  exact ⟨hu,hstate⟩

/-- A write callback that has a response to send. -/
theorem live_write {data : DataBuf} {bytes : List CChar} (hlast : s.1.data = some data)
    (hthere : ¬data.Missing p.stat) (hreply : reply p.file data = some bytes) (fd : ℕ) (now : τ) :
    live p s (.write fd,now) = some (s.1.send data bytes,s.2) := by
  have hresp : respond (p.at s.2 now).file (p.at s.2 now).stat data = some (some bytes) :=
    (respond_some_iff p.file).mpr ⟨hthere,hreply⟩
  simp only [live, callback, sendData, hlast, hresp, Option.bind_eq_bind, Option.bind_some]
  rfl

theorem delivering_live {e : Event × τ} (hs : Delivering p w₀ turns s.1 s.2) (hapart : Apart s e)
    (h : live p s e = some t) : ∃ later, Delivering p w₀ (turns ++ later) t.1 t.2 := by
  obtain ⟨hstep,hstate⟩ := live_some h
  obtain ⟨e,now⟩ := e
  cases e with
  | accept fd request =>
    rw [← Option.some.inj hstate]
    exact ⟨[],(List.append_nil turns).symm ▸ delivering_accept hs hstep⟩
  | read fd calls => exact delivering_read hs hapart.2 hstep hstate
  | write fd =>
    rw [← Option.some.inj hstate]
    exact ⟨[],(List.append_nil turns).symm ▸ delivering_send hs hapart.1 hstep⟩

/-- The turns go on where they were. -/
theorem delivering_of_reaches (hs : Delivering p w₀ turns s.1 s.2)
    (h : Reaches (live p) Apart s t) :
    ∃ later, Delivering p w₀ (turns ++ later) t.1 t.2 := by
  have hstep (s : Server × σ) (e : Event × τ) (t : Server × σ)
      (hs : ∃ later, Delivering p w₀ (turns ++ later) s.1 s.2) (hapart : Apart s e)
      (h : live p s e = some t) : ∃ later, Delivering p w₀ (turns ++ later) t.1 t.2 := by
    obtain ⟨later,hs⟩ := hs
    obtain ⟨more,ht⟩ := delivering_live hs hapart h
    exact ⟨later ++ more,List.append_assoc turns later more ▸ ht⟩
  exact h.keeps (I := fun s => ∃ later, Delivering p w₀ (turns ++ later) s.1 s.2) hstep
    ⟨[],(List.append_nil turns).symm ▸ hs⟩

theorem exists_delivering (h : Reaches (live p) Apart (listening env₀,state₀) s) :
    ∃ turns, Delivering p ⟨env₀,state₀⟩ turns s.1 s.2 :=
  delivering_of_reaches (delivering_listening p env₀ state₀) h

/-- A client is connected and has got nothing, or it has got its response. -/
theorem Delivering.responded (hs : Delivering p w₀ turns s.1 s.2) (hc : c < s.1.conns) :
    (∃ fd, s.1.fds fd = some c) ∧ s.1.received c = [] ∨
      (∀ fd, s.1.fds fd ≠ some c) ∧ Responded p w₀ turns s.1 c := by
  cases hrecord : s.1.record c with
  | none => exact .inl ⟨hs.waiting c hc hrecord,hs.silent c hrecord⟩
  | some data =>
    obtain hdone | ⟨hopen,hsilent,-⟩ := hs.recorded c data hrecord
    · exact .inr hdone
    · exact .inl ⟨hopen,hsilent⟩

theorem Delivering.explains (hs : Delivering p w₀ turns s.1 s.2) :
    Explains p w₀ turns s.1.outside ⟨s.1.env,s.2⟩ where
  inTurn := hs.inTurn
  waits := by
    rintro c hc ⟨fd,hfd⟩
    obtain ⟨-,hsilent⟩ | ⟨hclosed,-⟩ := hs.responded hc
    · exact hsilent
    · exact absurd hfd (hclosed fd)
  answered := by
    intro c hc hclosed
    obtain ⟨hopen,-⟩ | ⟨-,hresp⟩ := hs.responded hc
    · exact absurd hopen hclosed
    · exact hresp

/-- Every order of the callbacks comes to the requests being read one after the other, by programs
that find what those before them have left: a client gets the response that its request has in its
turn, once, as long as no descriptor is given to a new client while it is the one in `_data`. Who is
read later comes later. -/
theorem explained_of_apart (h : Reaches (live p) Apart (listening env₀,state₀) s)
    (h' : Reaches (live p) Apart s t) :
    ∃ turns later, Explains p ⟨env₀,state₀⟩ turns s.1.outside ⟨s.1.env,s.2⟩ ∧
      Explains p ⟨env₀,state₀⟩ (turns ++ later) t.1.outside ⟨t.1.env,t.2⟩ := by
  obtain ⟨turns,hs⟩ := exists_delivering h
  obtain ⟨later,ht⟩ := delivering_of_reaches hs h'
  exact ⟨turns,later,hs.explains,ht.explains⟩

/-- Two requests are read before the first is answered: its client waits. -/
theorem explained_a_b : ∃ s t, run (live pages.programs) (listening ⟨none,none,none⟩,())
      [(.accept 5 getA,()),(.accept 6 getB,()),(.read 5 .succeed,())] = some s ∧
    run (live pages.programs) s [(.read 6 .succeed,()),(.write 5,())] = some t ∧
    ∃ turns later, Explains pages.programs ⟨⟨none,none,none⟩,()⟩ turns s.1.outside
        ⟨s.1.env,s.2⟩ ∧
      Explains pages.programs ⟨⟨none,none,none⟩,()⟩ (turns ++ later) t.1.outside
        ⟨t.1.env,t.2⟩ := by
  refine ⟨_,_,rfl,rfl,?_⟩
  have h₀ : Reaches (live pages.programs) Apart (listening ⟨none,none,none⟩,()) _ := Reaches.refl _
  have h₁ := h₀.next (.accept 5 getA,()) ⟨trivial,trivial⟩ rfl
  have h₂ := h₁.next (.accept 6 getB,()) ⟨trivial,trivial⟩ rfl
  refine explained_of_apart (h₂.next (.read 5 .succeed,()) ⟨trivial,rfl⟩ rfl) ?_
  refine ((Reaches.refl _).next (.read 6 .succeed,()) ⟨trivial,rfl⟩ rfl).next (.write 5,())
    ⟨?_,trivial⟩ rfl
  intro data c hlast hfd
  rw [← Option.some.inj hlast] at hfd
  have hc : 1 = c := Option.some.inj hfd
  subst hc
  exact Option.ne_none_iff_exists'.mpr ⟨_,rfl⟩

/-- A client of a program that is alone is served by its three callbacks. -/
theorem reaches_alone {request : Stream} {fd : ℕ} {now : τ} {w : World σ} {x : Exchange}
    (hserve : p.serve ⟨env₀,state₀⟩ ⟨fd,now,request⟩ = some (w,x)) (hprogram : x.child ≠ none) :
    ∃ s, Reaches (live p) Apart (listening env₀,state₀) (s,w.state) ∧ s.conns = 1 ∧
      s.request 0 = request ∧ ∀ fd, s.fds fd ≠ some 0 := by
  obtain ⟨a,hread,hreply,hran⟩ := read_of_serve hserve
  obtain ⟨ha,hstate,-⟩ := read_some hread
  have hthere : ¬a.data.Missing p.stat := not_missing_of_child ha (hran ▸ hprogram)
  obtain ⟨s₁,haccept,hreading,hfds,hsock,henv,hconns,hrequest⟩ : ∃ s₁, live p
      (listening env₀,state₀) (.accept fd request,now) = some (s₁,state₀) ∧
      s₁.reading fd = some 0 ∧ s₁.fds = Function.update (fun _ => none) fd (some 0) ∧
      s₁.sock fd = request ∧ s₁.env = env₀ ∧ s₁.conns = 1 ∧ s₁.request 0 = request := by
    refine ⟨_,rfl,?_⟩
    simp [listening, Server.sock]
  have ha₁ : acceptRequest (p.at state₀ now).stat (p.at state₀ now).cgi s₁.env fd (s₁.sock fd) =
      some a := by
    rw [hsock, henv]
    exact ha
  have hstep : live p (s₁,state₀) (.read fd .succeed,now) = some (s₁.newRecord fd 0 a,w.state) := by
    have hreadFc : readFc (p.at state₀ now) s₁ fd .succeed = some (s₁.newRecord fd 0 a) := by
      refine Option.bind_eq_some_iff.mpr ⟨0,hreading,?_⟩
      exact (if_pos rfl).trans (Option.bind_eq_some_iff.mpr ⟨a,ha₁,rfl⟩)
    have hchild : s₁.child (p.at state₀ now) (.read fd .succeed) = a.child := by
      rw [Server.child, if_pos ⟨rfl,rfl⟩, ha₁, Option.bind_some]
    simp only [live, callback, hreadFc, hchild, hstate, Option.bind_eq_bind, Option.bind_some]
    rfl
  have hfd : a.data.fd = fd := acceptRequest_fd ha
  have hwrite : live p (s₁.newRecord fd 0 a,w.state) (.write fd,now) =
      some ((s₁.newRecord fd 0 a).send a.data x.sent,w.state) :=
    live_write rfl hthere hreply fd now
  have hapart : Apart (s₁.newRecord fd 0 a,w.state) (.write fd,now) := by
    refine ⟨fun data c hlast hc => ?_,trivial⟩
    obtain rfl := Option.some.inj hlast
    have hc' : some 0 = some c := by simpa [Server.newRecord, hfds, hfd] using hc
    obtain rfl := Option.some.inj hc'
    simp [Server.newRecord]
  have h₁ : Reaches (live p) Apart (listening env₀,state₀) (s₁,state₀) :=
    (Reaches.refl _).next (.accept fd request,now) ⟨trivial,trivial⟩ haccept
  have h₂ := h₁.next (.read fd .succeed,now) ⟨trivial,rfl⟩ hstep
  refine ⟨_,h₂.next (.write fd,now) hapart hwrite,hconns,hrequest,fun fd' => ?_⟩
  by_cases h : fd' = fd <;> simp [Server.send, Server.newRecord, hfds, hfd, h]

end Runs

section Serve
variable {site : Site} {env : Env} {s s' t : Server}

/-- The same but for the notes about write callbacks. -/
def Alike (s s' : Server) : Prop :=
  ∃ writing written, s' = { s with writing := writing, written := written }

theorem Alike.sendData (hsame : Alike s s') (h : sendData site s = some t) :
    ∃ t', sendData site s' = some t' ∧ Alike t t' := by
  obtain ⟨writing,written,rfl⟩ := hsame
  obtain ⟨data,hlast,h⟩ := Option.bind_eq_some_iff.mp h
  obtain ⟨r,hresp,h⟩ := Option.bind_eq_some_iff.mp h
  cases r with
  | none =>
    obtain rfl := Option.some.inj h
    exact ⟨_,Option.bind_eq_some_iff.mpr ⟨data,hlast,
      Option.bind_eq_some_iff.mpr ⟨none,hresp,rfl⟩⟩,writing,written,rfl⟩
  | some bytes =>
    obtain rfl := Option.some.inj h
    exact ⟨_,Option.bind_eq_some_iff.mpr ⟨data,hlast,
      Option.bind_eq_some_iff.mpr ⟨some bytes,hresp,rfl⟩⟩,writing,written,rfl⟩

theorem callback_of_serve {e : Event} (hsame : Alike s s') (h : serve site s e = some t) :
    ∃ t', callback site s' e = some t' ∧ Alike t t' := by
  cases e with
  | accept fd request =>
    obtain ⟨writing,written,rfl⟩ := hsame
    simp only [serve, acceptFc] at h
    split_ifs at h with hfree
    obtain rfl := Option.some.inj h
    exact ⟨_,if_pos hfree,writing,written,rfl⟩
  | read fd calls =>
    obtain ⟨writing,written,rfl⟩ := hsame
    obtain ⟨c,hread,⟨hmalloc,rfl⟩ | ⟨hmalloc,a,ha,rfl⟩⟩ := readFc_cases h
    · exact ⟨_,Option.bind_eq_some_iff.mpr ⟨c,hread,if_neg (by simp [hmalloc])⟩,_,_,rfl⟩
    · refine ⟨_,Option.bind_eq_some_iff.mpr ⟨c,hread,(if_pos hmalloc).trans
        (Option.bind_eq_some_iff.mpr ⟨a,ha,rfl⟩)⟩,_,_,rfl⟩
  | write fd =>
    obtain ⟨c,-,h⟩ := Option.bind_eq_some_iff.mp h
    obtain ⟨u,hsend,h⟩ := Option.bind_eq_some_iff.mp h
    obtain rfl := Option.some.inj h
    obtain ⟨t',ht',writing,written,rfl⟩ := hsame.sendData hsend
    exact ⟨_,ht',writing,written,rfl⟩

theorem Alike.apart {e : Event} (hsame : Alike s s') (h : Apart (s,()) (e,())) :
    Apart (s',()) (e,()) := by
  obtain ⟨writing,written,rfl⟩ := hsame
  cases e <;> exact h

/-- With its own record in `_data` a write callback finds its own client behind the descriptor. -/
theorem apart_of_ownRecord {e : Event} (hs : Serving site s) (hown : OwnRecord site s e)
    (h : serve site s e = some t) : Apart (s,()) (e,()) := by
  cases e with
  | accept fd request => exact ⟨trivial,trivial⟩
  | read fd calls => exact ⟨trivial,hown.1⟩
  | write fd =>
    obtain ⟨data,hlast,rfl,-⟩ := hown
    obtain ⟨c',hwrite,-⟩ := Option.bind_eq_some_iff.mp h
    obtain ⟨hfd',-,data',hrec,-⟩ := hs.toWrite data.fd c' hwrite
    refine ⟨fun data' c hlast' hfd => ?_,trivial⟩
    obtain rfl := Option.some.inj (hlast.symm.trans hlast')
    obtain rfl := Option.some.inj (hfd.symm.trans hfd')
    simp [hrec]

theorem live_of_callback {e : Event} (h : callback site s e = some t) :
    live site.programs (s,()) (e,()) = some (t,()) := by
  have hsite : site.programs.at () () = site := rfl
  simp only [live, hsite, h, after_programs, Option.bind_eq_bind, Option.bind_some]
  rfl

/-- As in `OwnRecord`, and there is memory for every record. -/
def Punctual (site : Site) (s : Server) (e : Event) : Prop :=
  OwnRecord site s e ∧ ∀ fd calls, e = .read fd calls → calls.malloc = true

/-- A run in which each write callback comes before another request is read is a run with callbacks
at any time. -/
theorem exists_callbacks (h : Reaches (serve site) (Punctual site) (listening env) s) :
    ∃ s', Reaches (live site.programs) Apart (listening env,()) s' ∧ Serving site s ∧
      Alike s s'.1 := by
  have hstep (s : Server) (e : Event) (t : Server) (s' : Server × Unit)
      (hs : Serving site s ∧ Alike s s'.1) (hown : Punctual site s e)
      (h : serve site s e = some t) :
      ∃ t', Reaches (live site.programs) Apart s' t' ∧ Serving site t ∧ Alike t t'.1 := by
    obtain ⟨hs,hsame⟩ := hs
    obtain ⟨t',ht',hsame'⟩ := callback_of_serve hsame h
    have hapart : Apart s' (e,()) := hsame.apart (apart_of_ownRecord hs hown.1 h)
    exact ⟨(t',()),reaches_of_step hapart (live_of_callback ht'),serving_serve hs hown.1 h,hsame'⟩
  exact h.simulate hstep ⟨serving_listening site env,_,_,rfl⟩

/-- An open connection has an event to wait for. -/
def Awaited (s : Server) : Prop :=
  ∀ fd c, s.fds fd = some c → s.reading fd = some c ∨ s.writing fd = some c

theorem awaited_serve {e : Event} (hs : Serving site s) (hwait : Awaited s)
    (hown : Punctual site s e) (h : serve site s e = some t) : Awaited t := by
  intro fd c hfd
  cases e with
  | accept fd' request =>
    simp only [serve, acceptFc] at h
    split_ifs at h
    obtain rfl := Option.some.inj h
    obtain ⟨rfl,rfl⟩ | ⟨hne,hfd⟩ := update_some_iff.mp hfd
    · exact .inl (Function.update_self _ _ _)
    · exact (hwait fd c hfd).imp_left (Function.update_of_ne hne _ _).trans
  | read fd' calls =>
    obtain ⟨c',hread,⟨hno,-⟩ | ⟨-,a,ha,rfl⟩⟩ := readFc_cases h
    · rw [hown.2 fd' calls rfl] at hno
      cases hno
    · by_cases hne : fd = fd'
      · subst hne
        obtain rfl := Option.some.inj ((hs.toRead fd c' hread).1.symm.trans hfd)
        exact .inr (Function.update_self _ _ _)
      · simpa [Server.newRecord, hne] using hwait fd c hfd
  | write fd' =>
    obtain ⟨⟨data,hlast,rfl,hthere⟩,-⟩ := hown
    obtain ⟨c',hwrite,h⟩ := Option.bind_eq_some_iff.mp h
    obtain ⟨u,hsend,h⟩ := Option.bind_eq_some_iff.mp h
    obtain rfl := Option.some.inj h
    obtain ⟨data',hlast',⟨hmissing,-⟩ | ⟨-,bytes,-,rfl⟩⟩ := sendData_cases hsend
    · obtain rfl := Option.some.inj (hlast.symm.trans hlast')
      exact absurd hmissing hthere
    · obtain rfl := Option.some.inj (hlast.symm.trans hlast')
      obtain ⟨hne,hfd⟩ := update_none_iff.mp hfd
      simpa [Server.send, hne] using hwait fd c hfd

/-- When there is no event left to wait for, no descriptor is open and every client has got the
response to its own request. -/
theorem responded_of_idle (h : Reaches (serve site) (Punctual site) (listening env) s)
    (hidle : ∀ fd, s.reading fd = none ∧ s.writing fd = none) : (∀ fd, s.fds fd = none) ∧
      ∃ turns, InTurn site.programs.read (Sends s.conns s.request) ⟨env,()⟩ turns ⟨s.env,()⟩ ∧
        ∀ c < s.conns, Responded site.programs ⟨env,()⟩ turns s c := by
  have hstep (s : Server) (e : Event) (t : Server) (hs : Serving site s ∧ Awaited s)
      (hown : Punctual site s e) (h : serve site s e = some t) : Serving site t ∧ Awaited t :=
    ⟨serving_serve hs.1 hown.1 h,awaited_serve hs.1 hs.2 hown h⟩
  have hstart : Awaited (listening env) := fun fd c hfd => by cases hfd
  obtain ⟨-,hwait⟩ := h.keeps hstep ⟨serving_listening site env,hstart⟩
  have hclosed (fd : ℕ) : s.fds fd = none := by
    cases hfd : s.fds fd with
    | none => rfl
    | some c => simpa [hidle fd] using hwait fd c hfd
  obtain ⟨⟨s',_⟩,hs',-,writing,written,rfl⟩ := exists_callbacks h
  obtain ⟨turns,hdelivering⟩ := exists_delivering hs'
  refine ⟨hclosed,turns,hdelivering.inTurn,fun c hc => ?_⟩
  obtain ⟨⟨fd,hfd⟩,-⟩ | ⟨-,hresp⟩ := hdelivering.responded hc
  · rw [hclosed fd] at hfd
    cases hfd
  · exact hresp

theorem responded_a : ∃ s, run (serve pages) (listening ⟨none,none,none⟩)
    [.accept 5 getA,.read 5 .succeed,.write 5] = some s ∧ (∀ fd, s.fds fd = none) ∧
    ∃ turns, InTurn pages.programs.read (Sends s.conns s.request) ⟨⟨none,none,none⟩,()⟩ turns
        ⟨s.env,()⟩ ∧
      ∀ c < s.conns, Responded pages.programs ⟨⟨none,none,none⟩,()⟩ turns s c := by
  have h₀ : Reaches (serve pages) (Punctual pages) (listening ⟨none,none,none⟩) _ :=
    Reaches.refl _
  have h₁ := h₀.next (.accept 5 getA) ⟨trivial,fun fd calls he => by cases he⟩ rfl
  have h₂ := h₁.next (.read 5 .succeed)
    ⟨⟨rfl,fun _ h => by cases h⟩,fun fd calls he => by cases he; rfl⟩ rfl
  have h₃ := h₂.next (.write 5) ⟨⟨_,rfl,rfl,by decide⟩,fun fd calls he => by cases he⟩ rfl
  refine ⟨_,rfl,responded_of_idle h₃ fun fd => ?_⟩
  by_cases hfd : fd = 5
  · subst hfd
    exact ⟨rfl,rfl⟩
  · simp [Server.send, Server.newRecord, listening, hfd]

end Serve
end LibeventHttpd
