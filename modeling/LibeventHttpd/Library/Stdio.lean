import Mathlib.Data.List.Basic
import Mathlib.Data.List.Flatten

/-! A buffered output stream that shares its descriptor with direct writes. Printed bytes wait in
the buffer until it is full or the program ends; a direct write of the file arrives at once. -/
namespace LibeventHttpd.Stdio
variable {α : Type*}

inductive Output (α : Type*) where
  | print (bytes : List α)
  | direct
  deriving DecidableEq

/-- What has arrived at the descriptor, and what waits in the buffer. -/
structure Stream (α : Type*) where
  arrived : List α
  pending : List α

/-- Everything that arrives when the buffer is written out at exit. -/
def Stream.exit (s : Stream α) : List α := s.arrived ++ s.pending

section Semantics
variable (cap : ℕ) (file : List α)

def putByte (s : Stream α) (b : α) : Stream α :=
  if cap ≤ (s.pending ++ [b]).length then ⟨s.arrived ++ (s.pending ++ [b]),[]⟩
  else ⟨s.arrived,s.pending ++ [b]⟩

def step (s : Stream α) : Output α → Stream α
  | .print bytes => bytes.foldl (putByte cap) s
  | .direct => ⟨s.arrived ++ file,s.pending⟩

def run (s : Stream α) (outs : List (Output α)) : Stream α := outs.foldl (step cap file) s

/-- The bytes at the descriptor after a run from an empty buffer. -/
def received (outs : List (Output α)) : List α := (run cap file ⟨[],[]⟩ outs).exit

def Output.bytes : Output α → List α
  | print bytes => bytes
  | direct => file

/-- The bytes in program order. -/
def ordered (outs : List (Output α)) : List α := (outs.map (Output.bytes file)).flatten

def Output.copied : Output α → List α
  | print _ => []
  | direct => file

/-- The direct writes alone. -/
def copies (outs : List (Output α)) : List α := (outs.map (Output.copied file)).flatten

/-- At every direct write it makes no difference whether the buffer is written before or after. -/
def Commutes (s : Stream α) (outs : List (Output α)) : Prop :=
  ∀ before after, outs = before ++ .direct::after →
    (run cap file s before).pending ++ file = file ++ (run cap file s before).pending

end Semantics

section Words
variable {p f u : List α}

theorem flatten_replicate_comm (k : ℕ) (f : List α) :
    f ++ (List.replicate k f).flatten = (List.replicate k f).flatten ++ f := by
  rw [← List.flatten_cons, ← List.replicate_succ, List.replicate_succ', List.flatten_append,
    List.flatten_singleton]

/-- Two words that agree on a prefix this long commute. -/
theorem commute_of_prefix {k : ℕ}
    (h : p ++ f <+: f ++ ((List.replicate k f).flatten ++ (p ++ u))) : p ++ f = f ++ p := by
  induction hn : p.length using Nat.strongRecOn generalizing p u with
  | ind n ih =>
    rcases f with _ | ⟨c,f'⟩
    · rw [List.append_nil, List.nil_append]
    generalize hf : c::f' = f at *
    have hpos : 0 < f.length := by
      rw [← hf]
      exact Nat.succ_pos _
    have hp := (List.prefix_append p f).trans h
    have hfp := List.prefix_append f ((List.replicate k f).flatten ++ (p ++ u))
    rcases Nat.le_total f.length p.length with hle | hle
    · -- the word begins with `f`: cancel it on both sides
      obtain ⟨q,rfl⟩ := List.prefix_of_prefix_length_le hfp hp hle
      rw [List.append_assoc, List.prefix_append_right_inj, List.append_assoc,
        ← List.append_assoc _ f, ← flatten_replicate_comm, List.append_assoc] at h
      have hq := ih q.length (by rw [← hn, List.length_append]; omega) h rfl
      rw [List.append_assoc, hq]
    · obtain ⟨g,rfl⟩ := List.prefix_of_prefix_length_le hp hfp hle
      rw [List.append_assoc, List.prefix_append_right_inj] at h
      -- what follows the first `f` begins with `p`, whether or not `f` is repeated
      have hnext : g ++ p <+: g ++ ((List.replicate k (p ++ g)).flatten ++ (p ++ u)) := by
        rw [List.prefix_append_right_inj]
        cases k with
        | zero => exact List.prefix_append p u
        | succ k =>
          rw [List.replicate_succ, List.flatten_cons, List.append_assoc, List.append_assoc]
          exact List.prefix_append p _
      have hsame : p ++ g = g ++ p := by
        have hlen : (p ++ g).length = (g ++ p).length := by
          rw [List.length_append, List.length_append, Nat.add_comm]
        exact (List.prefix_of_prefix_length_le h hnext (Nat.le_of_eq hlen)).eq_of_length hlen
      rw [List.append_assoc, ← hsame]

end Words

section Runs
variable {cap : ℕ} {file : List α}

/-- Whether or not the buffer is written, nothing printed is lost or moved. -/
theorem putByte_exit (s : Stream α) (b : α) : (putByte cap s b).exit = s.exit ++ [b] := by
  unfold putByte
  split_ifs
  · simp [Stream.exit]
  · simp [Stream.exit]

theorem print_exit (s : Stream α) (bytes : List α) :
    (bytes.foldl (putByte cap) s).exit = s.exit ++ bytes := by
  induction bytes generalizing s with
  | nil => rw [List.foldl_nil, List.append_nil]
  | cons b bytes ih =>
    rw [List.foldl_cons, ih, putByte_exit, List.append_assoc, List.singleton_append]

/-- Printing extends what waits, or writes all of it. -/
theorem print_cases (cap : ℕ) (s : Stream α) (bytes : List α) :
    (∃ w, bytes.foldl (putByte cap) s = ⟨s.arrived,s.pending ++ w⟩) ∨
      ∃ w, (bytes.foldl (putByte cap) s).arrived = s.arrived ++ (s.pending ++ w) := by
  induction bytes generalizing s with
  | nil =>
    left
    exact ⟨[],by rw [List.foldl_nil, List.append_nil]⟩
  | cons b bytes ih =>
    rw [List.foldl_cons]
    by_cases hfull : cap ≤ (s.pending ++ [b]).length
    · right
      have hput : putByte cap s b = ⟨s.arrived ++ (s.pending ++ [b]),[]⟩ := if_pos hfull
      rw [hput]
      rcases ih ⟨s.arrived ++ (s.pending ++ [b]),[]⟩ with ⟨w,hw⟩ | ⟨w,hw⟩
      · exact ⟨[b],by rw [hw]⟩
      · exact ⟨[b] ++ w,by rw [hw]; simp⟩
    · have hput : putByte cap s b = ⟨s.arrived,s.pending ++ [b]⟩ := if_neg hfull
      rw [hput]
      rcases ih ⟨s.arrived,s.pending ++ [b]⟩ with ⟨w,hw⟩ | ⟨w,hw⟩
      · left
        exact ⟨[b] ++ w,by rw [hw, List.append_assoc]⟩
      · right
        exact ⟨[b] ++ w,by rw [hw, List.append_assoc]⟩

theorem run_cons (s : Stream α) (out : Output α) (outs : List (Output α)) :
    run cap file s (out::outs) = run cap file (step cap file s out) outs := rfl

/-- Before the waiting bytes arrive nothing but copies of the file can. -/
theorem exit_form (cap : ℕ) (file : List α) (s : Stream α) (outs : List (Output α)) : ∃ k u,
    (run cap file s outs).exit =
      s.arrived ++ ((List.replicate k file).flatten ++ (s.pending ++ u)) := by
  induction outs generalizing s with
  | nil => exact ⟨0,[],by simp [run, Stream.exit]⟩
  | cons out outs ih =>
    rw [run_cons]
    cases out with
    | direct =>
      obtain ⟨k,u,h⟩ := ih ⟨s.arrived ++ file,s.pending⟩
      refine ⟨k+1,u,?_⟩
      rw [List.replicate_succ, List.flatten_cons, List.append_assoc file, ← List.append_assoc,
        ← h]
      rfl
    | print bytes =>
      obtain ⟨k,u,h⟩ := ih (bytes.foldl (putByte cap) s)
      rcases print_cases cap s bytes with ⟨w,hw⟩ | ⟨w,hw⟩
      · refine ⟨k,w ++ u,?_⟩
        rw [hw] at h
        rw [← List.append_assoc s.pending, ← h, ← hw]
        rfl
      · refine ⟨0,w ++ ((List.replicate k file).flatten ++
          ((bytes.foldl (putByte cap) s).pending ++ u)),?_⟩
        rw [hw] at h
        refine h.trans ?_
        simp

theorem commutes_cons (s : Stream α) (out : Output α) (outs : List (Output α)) :
    Commutes cap file s (out::outs) ↔
      (out = .direct → s.pending ++ file = file ++ s.pending) ∧
        Commutes cap file (step cap file s out) outs := by
  constructor
  · intro h
    constructor
    · rintro rfl
      exact h [] outs rfl
    · intro before after hsplit
      exact h (out::before) after (by rw [hsplit, List.cons_append])
  · rintro ⟨hhead,htail⟩ before after hsplit
    cases before with
    | nil =>
      obtain ⟨rfl,-⟩ := List.cons.inj hsplit
      exact hhead rfl
    | cons o before =>
      obtain ⟨rfl,rfl⟩ := List.cons.inj hsplit
      exact htail before after rfl

/-- From any state the bytes arrive in program order exactly if every direct write commutes with
what waits then. -/
theorem exit_eq_iff (s : Stream α) (outs : List (Output α)) :
    (run cap file s outs).exit = s.exit ++ ordered file outs ↔ Commutes cap file s outs := by
  induction outs generalizing s with
  | nil =>
    refine iff_of_true (by simp [run, ordered]) fun before after h => ?_
    cases before <;> cases h
  | cons out outs ih =>
    have hordered : ordered file (out::outs) = out.bytes file ++ ordered file outs := rfl
    rw [run_cons, commutes_cons, hordered, ← List.append_assoc, ← ih]
    cases out with
    | print bytes =>
      have hstep : (step cap file s (.print bytes)).exit = s.exit ++ bytes := print_exit s bytes
      rw [hstep]
      simp [Output.bytes]
    | direct =>
      have hexit : (step cap file s .direct).exit = s.arrived ++ (file ++ s.pending) :=
        List.append_assoc _ _ _
      have hnow : s.exit ++ Output.bytes file .direct = s.arrived ++ (s.pending ++ file) :=
        List.append_assoc _ _ _
      rw [hexit, hnow]
      constructor
      · intro h
        obtain ⟨k,u,hform⟩ := exit_form cap file (step cap file s .direct) outs
        have hcommute : s.pending ++ file = file ++ s.pending := by
          apply commute_of_prefix (k := k) (u := u)
          refine ⟨ordered file outs,?_⟩
          have hboth : s.arrived ++ (s.pending ++ file) ++ ordered file outs =
              (s.arrived ++ file) ++ ((List.replicate k file).flatten ++ (s.pending ++ u)) :=
            h.symm.trans hform
          rwa [List.append_assoc, List.append_assoc s.arrived, List.append_cancel_left_eq] at hboth
        exact ⟨fun _ => hcommute,by rw [h, hcommute]⟩
      · rintro ⟨hcommute,h⟩
        rw [h, hcommute rfl]

theorem received_iff (outs : List (Output α)) :
    received cap file outs = ordered file outs ↔ Commutes cap file ⟨[],[]⟩ outs := by
  rw [← exit_eq_iff]
  rfl

theorem print_short {s : Stream α} {bytes : List α}
    (h : s.pending.length+bytes.length < cap) :
    bytes.foldl (putByte cap) s = ⟨s.arrived,s.pending ++ bytes⟩ := by
  induction bytes generalizing s with
  | nil => rw [List.foldl_nil, List.append_nil]
  | cons b bytes ih =>
    rw [List.length_cons] at h
    have hlen : (s.pending ++ [b]).length = s.pending.length+1 := List.length_append
    have hput : putByte cap s b = ⟨s.arrived,s.pending ++ [b]⟩ := if_neg (by omega)
    rw [List.foldl_cons, hput, ih (by rw [hlen]; omega), List.append_assoc,
      List.singleton_append]

/-- As long as the buffer does not fill, only direct writes arrive. -/
theorem run_short {s : Stream α} {outs : List (Output α)}
    (h : s.pending.length+(ordered [] outs).length < cap) :
    run cap file s outs = ⟨s.arrived ++ copies file outs,s.pending ++ ordered [] outs⟩ := by
  induction outs generalizing s with
  | nil => simp [run, copies, ordered]
  | cons out outs ih =>
    rw [run_cons]
    cases out with
    | print bytes =>
      have hordered : ordered [] (.print bytes::outs) = bytes ++ ordered [] outs := rfl
      have hcopies : copies file (.print bytes::outs) = copies file outs := rfl
      rw [hordered, List.length_append] at h
      have hstep : step cap file s (.print bytes) = ⟨s.arrived,s.pending ++ bytes⟩ :=
        print_short (by omega)
      rw [hstep, ih (by rw [List.length_append]; omega), hordered, hcopies, List.append_assoc]
    | direct =>
      have hordered : ordered [] (.direct::outs) = ordered [] outs := rfl
      have hcopies : copies file (.direct::outs) = file ++ copies file outs := rfl
      have hnext : run cap file ⟨s.arrived ++ file,s.pending⟩ outs =
          ⟨s.arrived ++ file ++ copies file outs,s.pending ++ ordered [] outs⟩ := ih h
      have hstep : step cap file s .direct = ⟨s.arrived ++ file,s.pending⟩ := rfl
      rw [hstep, hnext, hordered, hcopies, List.append_assoc]

theorem received_short {outs : List (Output α)} (h : (ordered [] outs).length < cap) :
    received cap file outs = copies file outs ++ ordered [] outs := by
  rw [received, run_short (by rwa [List.length_nil, Nat.zero_add])]
  rfl

end Runs

end LibeventHttpd.Stdio
