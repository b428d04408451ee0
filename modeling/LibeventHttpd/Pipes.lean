import LibeventHttpd.Library.Transition
import LibeventHttpd.ExecResponse

/-! The two processes of `exec_response` and the pipes between them. The child runs the `main` of
the calculator for a post: it reads its standard input byte by byte, then prints and exits. -/
namespace LibeventHttpd.Pipes
open Transition

/-- Where the parent is: before `clear_head`, at the test of `while(con_len > 0)`, about to write a
byte, in the loop that reads `pipe2`, or past the closing of `pipe1[1]`. -/
inductive Parent where
  | head
  | copy (conLen : ℤ)
  | write (conLen : ℤ) (c : CChar)
  | collect
  | done

/-- Where the child is: at the test of `while(len)` with the bytes it has, at a byte of its output,
or gone with both pipes closed. -/
inductive Child where
  | read (len : ℤ) (buf : List CChar)
  | print (output : List CChar)
  | exited

/-- `pipe1` and `pipe2` are the bytes written and not yet read. -/
structure System where
  parent : Parent
  child : Child
  sock : Stream
  pipe1 : List CChar
  pipe2 : List CChar

inductive Mover where
  | parent
  | child

section Steps
-- each pipe holds `capacity` bytes, and what the program prints depends on what it has read
variable (capacity : ℕ) (contentLength : ℤ) (output : List CChar → List CChar)

/-- A step of the parent, `none` while it is blocked. -/
def parentStep (s : System) : Option System :=
  match s.parent with
  | .head => some { s with parent := .copy contentLength, sock := clearHead s.sock }
  | .copy conLen =>
    if conLen > 0 then
      match s.sock with
      | [] => some { s with parent := .copy (conLen-1) }
      | c::sock => some { s with parent := .write conLen c, sock := sock }
    else some { s with parent := .collect }
  | .write conLen c =>
    if s.pipe1.length < capacity then
      some { s with parent := .copy (conLen-1), pipe1 := s.pipe1 ++ [c] }
    else none
  | .collect =>
    match s.pipe2,s.child with
    | _::pipe2,_ => some { s with pipe2 := pipe2 }
    | [],.exited => some { s with parent := .done }
    | [],_ => none
  | .done => none

/-- A step of the child. Once `pipe1[1]` is closed its reads return 0. -/
def childStep (s : System) : Option System :=
  match s.child with
  | .read len buf =>
    if len ≠ 0 then
      match s.pipe1,s.parent with
      | c::pipe1,_ => some { s with child := .read (len-1) (buf ++ [c]), pipe1 := pipe1 }
      | [],.done => some { s with child := .read (len-1) buf }
      | [],_ => none
    else some { s with child := .print (output buf) }
  | .print [] => some { s with child := .exited }
  | .print (c::rest) =>
    if s.pipe2.length < capacity then
      some { s with child := .print rest, pipe2 := s.pipe2 ++ [c] }
    else none
  | .exited => none

def step (s : System) : Mover → Option System
  | .parent => parentStep capacity contentLength s
  | .child => childStep capacity output s

/-- After `fork`; the length is the same number on both sides. -/
def start (sock : Stream) : System := ⟨.head,.read contentLength [],sock,[],[]⟩

/-- The parent waits on `pipe2` and the child on `pipe1`, and no one else writes to them. -/
def Deadlock (s : System) : Prop :=
  s.parent = .collect ∧ s.pipe2 = [] ∧ ∃ len buf, s.child = .read len buf ∧ len ≠ 0 ∧ s.pipe1 = []

/-- Every interleaving of the two processes. -/
abbrev Steps (s t : System) : Prop :=
  Reaches (step capacity contentLength output) (fun _ _ => True) s t

def Reachable (sock : Stream) (s : System) : Prop :=
  Steps capacity contentLength output (start contentLength sock) s

end Steps

variable {capacity : ℕ} {contentLength : ℤ} {output : List CChar → List CChar}

/-- The bytes the parent has still to write to `pipe1`. -/
def toWrite (contentLength : ℤ) : Parent → ℤ
  | .head => contentLength
  | .copy conLen => conLen
  | .write conLen _ => conLen
  | .collect => 0
  | .done => 0

/-- The client has sent the bytes that are still to be written. -/
def Supplied (contentLength : ℤ) (s : System) : Prop :=
  match s.parent with
  | .head => 0 ≤ contentLength ∧ contentLength ≤ (clearHead s.sock).length
  | .copy conLen => 0 ≤ conLen ∧ conLen ≤ s.sock.length
  | .write conLen _ => 0 < conLen ∧ conLen ≤ s.sock.length+1
  | _ => True

/-- Every byte the child waits for is in `pipe1` or will be written. -/
structure Balanced (contentLength : ℤ) (s : System) : Prop where
  supplied : Supplied contentLength s
  balance : ∀ len buf, s.child = .read len buf →
    len = s.pipe1.length+toWrite contentLength s.parent
  done : s.parent = .done → s.child = .exited

theorem Balanced.parentStep {s t : System} (h : Balanced contentLength s)
    (hs : parentStep capacity contentLength s = some t) : Balanced contentLength t := by
  obtain ⟨parent,child,sock,pipe1,pipe2⟩ := s
  obtain ⟨hsup,hbal,hdone⟩ := h
  cases parent with
  | head =>
    obtain rfl := Option.some.inj hs
    exact ⟨hsup,hbal,by simp⟩
  | copy conLen =>
    simp only [Pipes.parentStep] at hs
    split_ifs at hs with hpos
    · cases sock with
      | nil =>
        have hle : conLen ≤ 0 := hsup.2
        omega
      | cons c sock =>
        obtain rfl := Option.some.inj hs
        have hle : conLen ≤ ((c::sock).length : ℤ) := hsup.2
        rw [List.length_cons] at hle
        exact ⟨⟨hpos,by push_cast at hle; exact hle⟩,hbal,by simp⟩
    · obtain rfl := Option.some.inj hs
      have hge : 0 ≤ conLen := hsup.1
      obtain rfl : conLen = 0 := by omega
      exact ⟨trivial,hbal,by simp⟩
  | write conLen c =>
    simp only [Pipes.parentStep] at hs
    split_ifs at hs
    obtain rfl := Option.some.inj hs
    have hpos : 0 < conLen := hsup.1
    have hle : conLen ≤ (sock.length : ℤ)+1 := hsup.2
    have hsup' : 0 ≤ conLen-1 ∧ conLen-1 ≤ (sock.length : ℤ) := ⟨by omega,by omega⟩
    refine ⟨hsup',fun len buf hc => ?_,by simp⟩
    rw [hbal len buf hc, List.length_append, List.length_singleton]
    simp only [toWrite]
    push_cast
    ring
  | collect =>
    cases pipe2 with
    | cons c pipe2 =>
      obtain rfl := Option.some.inj hs
      exact ⟨trivial,hbal,by simp⟩
    | nil =>
      cases child with
      | exited =>
        obtain rfl := Option.some.inj hs
        exact ⟨trivial,by simp,fun _ => rfl⟩
      | read len buf => simp [Pipes.parentStep] at hs
      | print output => simp [Pipes.parentStep] at hs
  | done => simp [Pipes.parentStep] at hs

theorem Balanced.childStep {s t : System} (h : Balanced contentLength s)
    (hs : childStep capacity output s = some t) : Balanced contentLength t := by
  obtain ⟨parent,child,sock,pipe1,pipe2⟩ := s
  obtain ⟨hsup,hbal,hdone⟩ := h
  cases child with
  | read len buf =>
    have hnot : parent ≠ .done := fun he => by simpa using hdone he
    simp only [Pipes.childStep] at hs
    split_ifs at hs
    · cases pipe1 with
      | cons c pipe1 =>
        obtain rfl := Option.some.inj hs
        refine ⟨hsup,fun len' buf' hc => ?_,fun he => absurd he hnot⟩
        have hb := hbal len buf rfl
        rw [List.length_cons] at hb
        obtain ⟨rfl,-⟩ := Child.read.inj hc
        change len-1 = (pipe1.length : ℤ)+toWrite contentLength parent
        push_cast at hb
        omega
      | nil => cases parent <;> simp at hs hnot
    · obtain rfl := Option.some.inj hs
      exact ⟨hsup,by simp,fun he => absurd he hnot⟩
  | print out =>
    have hnot : parent ≠ .done := fun he => by simpa using hdone he
    cases out with
    | nil =>
      obtain rfl := Option.some.inj hs
      exact ⟨hsup,by simp,fun _ => rfl⟩
    | cons c rest =>
      simp only [Pipes.childStep] at hs
      split_ifs at hs
      obtain rfl := Option.some.inj hs
      exact ⟨hsup,by simp,fun he => absurd he hnot⟩
  | exited => simp [Pipes.childStep] at hs

/-- With all bytes accounted for, a child that waits has a parent that still writes. -/
theorem Balanced.not_deadlock {s : System} (h : Balanced contentLength s) : ¬Deadlock s := by
  rintro ⟨hp,-,len,buf,hc,hlen,h1⟩
  have hb := h.balance len buf hc
  rw [hp, h1] at hb
  exact hlen hb

theorem Reachable.balanced {sock : Stream} {s : System} (h0 : 0 ≤ contentLength)
    (hle : contentLength ≤ (clearHead sock).length)
    (h : Reachable capacity contentLength output sock s) : Balanced contentLength s := by
  refine Reaches.keeps (fun s m t hI _ hs => ?_) h ⟨⟨h0,hle⟩,fun len buf hc => ?_,by simp [start]⟩
  · cases m with
    | parent => exact hI.parentStep hs
    | child => exact hI.childStep hs
  · obtain ⟨rfl,-⟩ := Child.read.inj hc
    simp [start, toWrite]

section Starved
variable (hcap : 0 < capacity)

theorem reaches_step {s t : System} (m : Mover)
    (h : step capacity contentLength output s m = some t) :
    Steps capacity contentLength output s t := reaches_of_step trivial h

/-- At the end of the stream the parent counts down without writing. -/
theorem reaches_collect (k : ℕ) (child : Child) :
    Steps capacity contentLength output
      ⟨.copy k,child,[],[],[]⟩ ⟨.collect,child,[],[],[]⟩ := by
  induction k with
  | zero => exact reaches_step .parent rfl
  | succ k ih =>
    have hstep : step capacity contentLength output ⟨.copy ((k+1 : ℕ) : ℤ),child,[],[],[]⟩ .parent =
        some ⟨.copy k,child,[],[],[]⟩ := by
      have hpos : ((k+1 : ℕ) : ℤ) > 0 := by omega
      have hless : ((k+1 : ℕ) : ℤ)-1 = k := by push_cast; ring
      simp only [step, parentStep, hpos, if_true, hless]
    exact (reaches_step .parent hstep).trans ih

include hcap in
/-- A byte goes from the client through `pipe1` into the child. -/
theorem reaches_byte (k : ℕ) (c : CChar) (sock : Stream) (len : ℤ) (hlen : len ≠ 0)
    (buf : List CChar) :
    Steps capacity contentLength output
      ⟨.copy ((k+1 : ℕ) : ℤ),.read len buf,c::sock,[],[]⟩
      ⟨.copy k,.read (len-1) (buf ++ [c]),sock,[],[]⟩ := by
  have hpos : ((k+1 : ℕ) : ℤ) > 0 := by omega
  have hless : ((k+1 : ℕ) : ℤ)-1 = k := by push_cast; ring
  have hrecv : step capacity contentLength output
      ⟨.copy ((k+1 : ℕ) : ℤ),.read len buf,c::sock,[],[]⟩ .parent =
      some ⟨.write ((k+1 : ℕ) : ℤ) c,.read len buf,sock,[],[]⟩ := by
    simp only [step, parentStep, hpos, if_true]
  have hwrite : step capacity contentLength output
      ⟨.write ((k+1 : ℕ) : ℤ) c,.read len buf,sock,[],[]⟩ .parent =
      some ⟨.copy k,.read len buf,sock,[c],[]⟩ := by
    simp only [step, parentStep, List.length_nil, hcap, if_true, hless, List.nil_append]
  have hread : step capacity contentLength output ⟨.copy k,.read len buf,sock,[c],[]⟩ .child =
      some ⟨.copy k,.read (len-1) (buf ++ [c]),sock,[],[]⟩ := by
    simp only [step, childStep, hlen, ne_eq, not_false_eq_true, if_true]
  exact (reaches_step .parent hrecv).trans ((reaches_step .parent hwrite).trans
    (reaches_step .child hread))

include hcap in
/-- A body shorter than announced leaves the child waiting for the rest. -/
theorem reaches_deadlock {sock : Stream} {k : ℕ} (hk : sock.length < k) (buf : List CChar) :
    ∃ s, Steps capacity contentLength output ⟨.copy k,.read k buf,sock,[],[]⟩ s ∧ Deadlock s := by
  induction sock generalizing k buf with
  | nil =>
    have hne : (k : ℤ) ≠ 0 := by
      simp at hk
      omega
    exact ⟨_,reaches_collect k _,rfl,rfl,_,_,rfl,hne,rfl⟩
  | cons c sock ih =>
    rw [List.length_cons] at hk
    obtain ⟨k,rfl⟩ : ∃ j, k = j+1 := ⟨k-1,by omega⟩
    obtain ⟨s,hs,hdead⟩ := ih (show sock.length < k by omega) (buf ++ [c])
    have hless : ((k+1 : ℕ) : ℤ)-1 = k := by push_cast; ring
    have hbyte : Steps capacity contentLength output
        ⟨.copy ((k+1 : ℕ) : ℤ),.read ((k+1 : ℕ) : ℤ) buf,c::sock,[],[]⟩
        ⟨.copy k,.read (((k+1 : ℕ) : ℤ)-1) (buf ++ [c]),sock,[],[]⟩ :=
      reaches_byte hcap k c sock _ (by omega) buf
    rw [hless] at hbyte
    exact ⟨s,hbyte.trans hs,hdead⟩

include hcap in
theorem exists_deadlock {sock : Stream}
    (h : ¬(0 ≤ contentLength ∧ contentLength ≤ (clearHead sock).length)) :
    ∃ s, Reachable capacity contentLength output sock s ∧ Deadlock s := by
  have hhead : Steps capacity contentLength output (start contentLength sock)
      ⟨.copy contentLength,.read contentLength [],clearHead sock,[],[]⟩ := reaches_step .parent rfl
  rcases lt_or_ge contentLength 0 with hneg | hpos
  · -- the parent writes nothing, the child counts down from a negative number
    have hcollect : step capacity contentLength output
        ⟨.copy contentLength,.read contentLength [],clearHead sock,[],[]⟩ .parent =
        some ⟨.collect,.read contentLength [],clearHead sock,[],[]⟩ := by
      simp only [step, parentStep, show ¬contentLength > 0 by omega, if_false]
    exact ⟨_,hhead.trans (reaches_step .parent hcollect),rfl,rfl,_,_,rfl,by omega,rfl⟩
  · obtain ⟨k,rfl⟩ := Int.eq_ofNat_of_zero_le hpos
    have hk : (clearHead sock).length < k := by
      have := not_and.mp h hpos
      omega
    have hstarve : ∃ s, Steps capacity k output ⟨.copy k,.read k [],clearHead sock,[],[]⟩ s ∧
        Deadlock s := reaches_deadlock hcap hk []
    obtain ⟨s,hs,hdead⟩ := hstarve
    exact ⟨s,hhead.trans hs,hdead⟩

end Starved

/-- The server never hangs together with its child exactly if the announced length is not negative
and the client sends at least as many bytes after the headers. -/
theorem no_deadlock_iff {capacity : ℕ} (hcap : 0 < capacity) (value : List CChar)
    (output : List CChar → List CChar) (sock : Stream) :
    (∀ s, Reachable capacity (atoi value) output sock s → ¬Deadlock s) ↔
      0 ≤ atoi value ∧ atoi value ≤ (clearHead sock).length := by
  constructor
  · intro h
    by_contra hno
    obtain ⟨s,hs,hdead⟩ := exists_deadlock hcap hno
    exact h s hs hdead
  · rintro ⟨h0,hle⟩ s hs
    exact (hs.balanced h0 hle).not_deadlock

theorem no_deadlock_3 : ¬∃ s,
    Reachable 1 (atoi (cstr " 3\n")) id (cstr "Accept: b\r\n\r\nx=1") s ∧ Deadlock s := by
  rintro ⟨s,hs,hdead⟩
  exact (no_deadlock_iff (by decide) _ _ _).mpr (by decide) s hs hdead

/-- Five bytes are announced, and the client closes its side after two. -/
theorem deadlock_5 : ∃ s,
    Reachable 65536 (atoi (cstr " 5\n")) id (cstr "\r\nab") s ∧ Deadlock s :=
  exists_deadlock (by decide) (by decide)

end LibeventHttpd.Pipes
