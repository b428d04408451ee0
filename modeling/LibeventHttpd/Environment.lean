import LibeventHttpd.AcceptRequest

/-! The environment a program is started with, after other requests have been handled by the same
server. -/
namespace LibeventHttpd

/-- A request, with the descriptor it comes on. -/
abbrev History := List (ℕ × Stream)

section Server
variable (stat : Stat) (cgi : Child → List CChar)

/-- The environment of the server after requests one after the other. -/
def serveAll (env : Env) : History → Option Env
  | [] => some env
  | (fd,sock)::rs => do
    let a ← acceptRequest stat cgi env fd sock
    serveAll a.env rs

/-- The environment the program of a request starts with, and the length recorded for it. -/
def childStart (env : Env) (fd : ℕ) (sock : Stream) : Option (Env × ℤ) :=
  match dispatch stat env fd sock with
  | some (.exec call) =>
    if ArgsFit call.method call.queryString then
      some ({ call.env with method := some call.method, queryString := some call.queryString },
        call.contentLength)
    else none
  | _ => none

/-- The program a request starts: what its first line says, the file, and the length of its body. -/
def started (sock : Stream) : Option (Request × List CChar × ContentLength) := do
  let req ← (parseRequest (text (getLine size sock).1)).join
  let (path,cgi) ← (locate stat req).join
  let len ← bodyLength req.method (getLine size sock).2
  if cgi ∧ ArgsFit req.method req.queryString then some (req,path,len) else none

/-- The text of the length that a request sends to the program it starts. -/
def announced (sock : Stream) : Option (List CChar) := (started stat sock).bind fun p => p.2.2.env

/-- The text announced last, where `before` is what the server itself was started with. -/
def lastAnnounced (before : Option (List CChar)) : History → Option (List CChar)
  | [] => before
  | (_,sock)::rs => lastAnnounced ((announced stat sock).orElse fun _ => before) rs

/-- A length in the environment is the one recorded. -/
def LengthAgrees (start : Env × ℤ) : Prop := ∀ v ∈ start.1.contentLength, atoi v = start.2

/-- After either history the program starts with the same environment, and its length is right. -/
def OwnEnvironment (env : Env) (h₁ h₂ : History) (fd : ℕ) (sock : Stream) : Prop :=
  ∀ e₁ e₂, serveAll stat cgi env h₁ = some e₁ → serveAll stat cgi env h₂ = some e₂ →
    childStart stat e₁ fd sock = childStart stat e₂ fd sock ∧
      ∀ start ∈ childStart stat e₁ fd sock, LengthAgrees start

/-- The request runs no program, or announces a length itself, or finds the same text announced
after both histories, which is none or stands for zero. -/
def LengthSettled (env : Env) (h₁ h₂ : History) (sock : Stream) : Prop :=
  started stat sock = none ∨ announced stat sock ≠ none ∨
    lastAnnounced stat env.contentLength h₁ = lastAnnounced stat env.contentLength h₂ ∧
      ∀ v ∈ lastAnnounced stat env.contentLength h₁, atoi v = 0

variable {stat cgi}

/-- The number `GetContentLength` returns is that of the text it sets, and zero without one. -/
theorem getContentLengthFrom_agrees {fuel : ℕ} {sock : Stream} {len : ContentLength}
    (h : getContentLengthFrom fuel sock = some len) :
    (∀ v ∈ len.env, atoi v = len.contLen) ∧ (len.env = none → len.contLen = 0) := by
  induction fuel generalizing sock with
  | zero =>
    obtain rfl := Option.some.inj h
    simp
  | succ fuel ih =>
    simp only [getContentLengthFrom] at h
    split_ifs at h
    · obtain rfl := Option.some.inj h
      simp
    · exact ih h
    · obtain rfl := Option.some.inj h
      simp

theorem bodyLength_agrees {method : List CChar} {sock : Stream} {len : ContentLength}
    (h : bodyLength method sock = some len) :
    (∀ v ∈ len.env, atoi v = len.contLen) ∧ (len.env = none → len.contLen = 0) := by
  unfold bodyLength at h
  split_ifs at h
  · exact getContentLengthFrom_agrees h
  · obtain rfl := Option.some.inj h
    simp

theorem started_agrees {sock : Stream} {req : Request} {path : List CChar} {len : ContentLength}
    (h : started stat sock = some (req,path,len)) :
    (∀ v ∈ len.env, atoi v = len.contLen) ∧ (len.env = none → len.contLen = 0) := by
  obtain ⟨req,-,h⟩ := Option.bind_eq_some_iff.mp h
  obtain ⟨⟨path,cgi⟩,-,h⟩ := Option.bind_eq_some_iff.mp h
  obtain ⟨len',hlen,h⟩ := Option.bind_eq_some_iff.mp h
  split_ifs at h
  obtain rfl : len' = len := (Prod.mk.inj (Prod.mk.inj (Option.some.inj h)).2).2
  exact bodyLength_agrees hlen

/-- Of the server's own environment a program sees the length alone, and only where its request
announces none. -/
theorem childStart_eq (env : Env) (fd : ℕ) (sock : Stream) :
    childStart stat env fd sock = (started stat sock).map fun p =>
      (⟨some p.1.method,some p.1.queryString,p.2.2.env.orElse fun _ => env.contentLength⟩,
        p.2.2.contLen) := by
  unfold childStart dispatch started
  generalize getLine size sock = line
  obtain ⟨requestLine,sock⟩ := line
  by_cases hne : requestLine = []
  · have hparse : parseRequest (text []) = some none := rfl
    simp [hne, hparse]
  · have hpos : requestLine.length ≠ 0 := by simpa using hne
    simp only [hpos, if_false]
    cases hparse : parseRequest (text requestLine) with
    | none => simp
    | some parsed =>
      cases parsed with
      | none => simp
      | some req =>
        rcases hloc : locate stat req with _ | _ | ⟨path,_ | _⟩
        · simp [hloc]
        · simp [hloc]
        · simp [hloc]
        · cases hlen : bodyLength req.method sock with
          | none => simp [hloc, hlen]
          | some len =>
            by_cases hfit : ArgsFit req.method req.queryString <;> simp [hloc, hlen, hfit]

/-- The server keeps the environment of the program it has started, and no other request changes
it. -/
theorem acceptRequest_env {env : Env} {fd : ℕ} {sock : Stream} {a : Accepted}
    (h : acceptRequest stat cgi env fd sock = some a) :
    a.child.map Child.env = (childStart stat env fd sock).map Prod.fst ∧
      a.env = ((childStart stat env fd sock).map Prod.fst).getD env := by
  obtain ⟨d,hd,h⟩ := Option.bind_eq_some_iff.mp h
  rw [childStart, hd]
  cases d with
  | done data rest =>
    obtain rfl := Option.some.inj h
    exact ⟨rfl,rfl⟩
  | exec call =>
    obtain ⟨e,he,h⟩ := Option.bind_eq_some_iff.mp h
    obtain rfl := Option.some.inj h
    unfold execResponse at he
    split_ifs at he with hfit
    obtain ⟨buf,-,he⟩ := Option.bind_eq_some_iff.mp he
    obtain rfl := Option.some.inj he
    simp only [hfit, if_true]
    exact ⟨rfl,rfl⟩

/-- One request changes the length to the one it announces, if it announces one. -/
theorem acceptRequest_contentLength {env : Env} {fd : ℕ} {sock : Stream} {a : Accepted}
    (h : acceptRequest stat cgi env fd sock = some a) :
    a.env.contentLength = (announced stat sock).orElse fun _ => env.contentLength := by
  rw [(acceptRequest_env h).2, childStart_eq, announced]
  cases started stat sock <;> rfl

/-- What is left of a history in the environment is the length announced last. -/
theorem serveAll_contentLength {env env' : Env} {rs : History}
    (h : serveAll stat cgi env rs = some env') :
    env'.contentLength = lastAnnounced stat env.contentLength rs := by
  induction rs generalizing env with
  | nil =>
    obtain rfl := Option.some.inj h
    rfl
  | cons r rs ih =>
    obtain ⟨fd,sock⟩ := r
    obtain ⟨a,ha,h⟩ := Option.bind_eq_some_iff.mp h
    rw [ih h, lastAnnounced, acceptRequest_contentLength ha]

/-- A program starts with the environment its own request calls for exactly if the length in it
is settled. -/
theorem ownEnvironment_iff {env : Env} {h₁ h₂ : History}
    (hh₁ : (serveAll stat cgi env h₁).isSome) (hh₂ : (serveAll stat cgi env h₂).isSome) (fd : ℕ)
    (sock : Stream) :
    OwnEnvironment stat cgi env h₁ h₂ fd sock ↔ LengthSettled stat env h₁ h₂ sock := by
  obtain ⟨e₁,he₁⟩ := Option.isSome_iff_exists.mp hh₁
  obtain ⟨e₂,he₂⟩ := Option.isSome_iff_exists.mp hh₂
  have hown : OwnEnvironment stat cgi env h₁ h₂ fd sock ↔
      childStart stat e₁ fd sock = childStart stat e₂ fd sock ∧
        ∀ start ∈ childStart stat e₁ fd sock, LengthAgrees start := by
    constructor
    · exact fun h => h e₁ e₂ he₁ he₂
    · intro h e₁' e₂' h₁' h₂'
      obtain rfl := Option.some.inj (he₁.symm.trans h₁')
      obtain rfl := Option.some.inj (he₂.symm.trans h₂')
      exact h
  rw [hown, LengthSettled, childStart_eq, childStart_eq, announced, serveAll_contentLength he₁,
    serveAll_contentLength he₂]
  cases hs : started stat sock with
  | none => simp
  | some p =>
    obtain ⟨req,path,len⟩ := p
    obtain ⟨hset,hunset⟩ := started_agrees hs
    cases hlen : len.env with
    | none => simp [hlen, LengthAgrees, hunset hlen]
    | some v => simpa [hlen, LengthAgrees] using hset v hlen

/-- A site of one program. -/
def oneProgram : Stat := fun _ => some 0o100755

def postFive : Stream := cstr "POST /a HTTP/1.0\r\nContent-Length: 5\r\n\r\nhello"
def getArgs : Stream := cstr "GET /a?x=1 HTTP/1.0\r\n\r\n"

theorem ownEnvironment_post :
    OwnEnvironment oneProgram (fun _ => []) ⟨none,none,none⟩ [] [(5,getArgs)] 6 postFive :=
  (ownEnvironment_iff rfl rfl 6 postFive).mpr (.inr (.inl (by decide)))

/-- The length of an earlier body reaches the program of a `GET`. -/
theorem not_ownEnvironment_get :
    ¬OwnEnvironment oneProgram (fun _ => []) ⟨none,none,none⟩ [] [(5,postFive)] 6 getArgs := by
  intro h
  obtain ⟨he,-⟩ := h _ _ rfl rfl
  have hlen := congrArg (fun start => start.map fun p => p.1.contentLength) he
  exact absurd hlen (by decide)

end Server
end LibeventHttpd
