import LibeventHttpd.Library.Turns
import LibeventHttpd.Exchange

/-! Programs that keep something from one run to the next, and requests that are read one after the
other with them behind the server. -/
namespace LibeventHttpd
open Turns

/-- Files and programs. A program finds what the runs before it have left, and may look at
something else, as the time. A run that crashes, or that waits for more input than it is given, has
no result. -/
structure Programs (σ τ : Type) where
  stat : Stat
  file : List CChar → List CChar
  run : σ → τ → Child → Option (List CChar × σ)

/-- What is kept from one request to the next. -/
structure World (σ : Type) where
  env : Env
  state : σ

/-- A request, the descriptor it comes on, and the time. -/
structure Visit (τ : Type) where
  fd : ℕ
  now : τ
  sock : Stream

section Programs
variable {σ τ : Type} (p : Programs σ τ)

/-- What the server sees of the programs at a time. Of a crash it sees nothing printed. -/
def Programs.at (state : σ) (now : τ) : Site where
  stat := p.stat
  file := p.file
  cgi := fun child => (p.run state now child).elim [] Prod.fst

/-- What is left when the program of a request is done. -/
def Programs.after (state : σ) (now : τ) : Option Child → Option σ
  | none => some state
  | some child => (p.run state now child).map Prod.snd

/-- A request is read, and its program is run. -/
def Programs.read (w : World σ) (v : Visit τ) : Option (World σ × Accepted) := do
  let a ← acceptRequest p.stat (p.at w.state v.now).cgi w.env v.fd v.sock
  let state ← p.after w.state v.now a.child
  return (⟨a.env,state⟩,a)

/-- A request from its first byte to the last one of its response, if `exec_response` returns and
there is a file where one is to be sent. -/
def Programs.serve (w : World σ) (v : Visit τ) : Option (World σ × Exchange) := do
  let x ← outcome (p.at w.state v.now) w.env v.fd v.sock
  let state ← p.after w.state v.now x.child
  return (⟨x.env,state⟩,x)

/-- Programs that keep nothing. -/
def Site.programs (site : Site) : Programs Unit Unit where
  stat := site.stat
  file := site.file
  run := fun _ _ child => some (site.cgi child,())

/-- Connected clients, each with the request it sends. -/
def Sends (conns : ℕ) (request : ℕ → Stream) (c : ℕ) (v : Visit τ) : Prop :=
  c < conns ∧ v.sock = request c

/-- What is computed for the request of a client when it is its turn. -/
def Prepares (w₀ : World σ) (turns : List (ℕ × Visit τ)) (c : ℕ) (request : Stream)
    (a : Accepted) : Prop :=
  At p.read w₀ turns c fun w v => v.sock = request ∧ ∃ w', p.read w v = some (w',a)

/-- The response that a client gets when its request is read in its turn. -/
def Answers (w₀ : World σ) (turns : List (ℕ × Visit τ)) (c : ℕ) (request : Stream)
    (received : List CChar) (unread : Stream) : Prop :=
  At p.read w₀ turns c fun w v => v.sock = request ∧
    ∃ w' x, p.serve w v = some (w',x) ∧ received = x.sent ∧ unread = x.unread

/-- What there is to see of a server from the outside. -/
structure Outside where
  conns : ℕ
  request : ℕ → Stream
  received : ℕ → List CChar
  unread : ℕ → Stream
  connected : ℕ → Prop

/-- Turns that lead to the world `w` and account for what every client has got: nothing as long as
it is connected, and then the response that its own turn makes. -/
structure Explains (w₀ : World σ) (turns : List (ℕ × Visit τ)) (o : Outside) (w : World σ) :
    Prop where
  inTurn : InTurn p.read (Sends o.conns o.request) w₀ turns w
  waits : ∀ c < o.conns, o.connected c → o.received c = []
  answered : ∀ c < o.conns, ¬o.connected c →
    Answers p w₀ turns c (o.request c) (o.received c) (o.unread c)

variable {p} {w w' w₀ : World σ} {v : Visit τ} {turns : List (ℕ × Visit τ)} {c conns : ℕ}
  {request : ℕ → Stream} {a : Accepted}

theorem after_programs (site : Site) (child : Option Child) :
    site.programs.after () () child = some () := by cases child <;> rfl

theorem Sends.connect (h : Sends conns request c v) (sock : Stream) :
    Sends (conns+1) (Function.update request conns sock) c v :=
  ⟨Nat.lt_succ_of_lt h.1,h.2.trans (Function.update_of_ne h.1.ne _ _).symm⟩

theorem read_some (h : p.read w v = some (w',a)) :
    acceptRequest p.stat (p.at w.state v.now).cgi w.env v.fd v.sock = some a ∧
      p.after w.state v.now a.child = some w'.state ∧ w'.env = a.env := by
  obtain ⟨a',ha,h⟩ := Option.bind_eq_some_iff.mp h
  obtain ⟨state,hstate,h⟩ := Option.bind_eq_some_iff.mp h
  obtain ⟨rfl,rfl⟩ := Prod.mk.inj (Option.some.inj h)
  exact ⟨ha,hstate,rfl⟩

theorem read_of_accepted {state : σ}
    (ha : acceptRequest p.stat (p.at w.state v.now).cgi w.env v.fd v.sock = some a)
    (hstate : p.after w.state v.now a.child = some state) :
    p.read w v = some (⟨a.env,state⟩,a) := by
  rw [Programs.read, ha, Option.bind_eq_bind, Option.bind_some, hstate]
  rfl

/-- What is read and sent later is served. -/
theorem serve_of_read {bytes : List CChar} (h : p.read w v = some (w',a))
    (hreply : reply p.file a.data = some bytes) : p.serve w v = some (w',
      ⟨bytes,if a.data.errNum > 0 then clearHead a.sock else a.sock,a.env,a.child⟩) := by
  obtain ⟨ha,hstate,henv⟩ := read_some h
  have hx : outcome (p.at w.state v.now) w.env v.fd v.sock = _ := outcome_of_reply ha hreply
  rw [Programs.serve, hx, Option.bind_eq_bind, Option.bind_some, hstate, ← henv]
  rfl

theorem read_of_serve {x : Exchange} (h : p.serve w v = some (w',x)) :
    ∃ a, p.read w v = some (w',a) ∧ reply p.file a.data = some x.sent ∧ a.child = x.child := by
  obtain ⟨x',hx,h⟩ := Option.bind_eq_some_iff.mp h
  obtain ⟨a,ha,hx⟩ := Option.bind_eq_some_iff.mp hx
  obtain ⟨bytes,hreply,hx⟩ := Option.bind_eq_some_iff.mp hx
  obtain rfl := Option.some.inj hx
  obtain ⟨state,hstate,h⟩ := Option.bind_eq_some_iff.mp h
  obtain ⟨rfl,rfl⟩ := Prod.mk.inj (Option.some.inj h)
  exact ⟨a,read_of_accepted ha hstate,hreply,rfl⟩

theorem Prepares.accepted {request : Stream} (h : Prepares p w₀ turns c request a) :
    ∃ state now env fd, acceptRequest p.stat (p.at state now).cgi env fd request = some a := by
  obtain ⟨-,v,-,w,-,-,rfl,w',hread⟩ := h
  exact ⟨w.state,v.now,w.env,v.fd,(read_some hread).1⟩

/-- What is computed in a turn and sent later is the response. -/
theorem Prepares.answers {request unread : Stream} {received bytes : List CChar}
    (h : Prepares p w₀ turns c request a) (hreply : reply p.file a.data = some bytes)
    (hreceived : received = bytes)
    (hunread : unread = if a.data.errNum > 0 then clearHead a.sock else a.sock) :
    Answers p w₀ turns c request received unread := by
  refine At.mono h fun w v hv => ?_
  obtain ⟨hsock,w',hread⟩ := hv
  exact ⟨hsock,w',_,serve_of_read hread hreply,hreceived,hunread⟩

end Programs
end LibeventHttpd
