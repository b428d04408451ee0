import Mathlib.Data.List.Basic
import Mathlib.Data.Int.Notation
import Mathlib.Tactic.SplitIfs

/-! Memory as a list of cells with checked access. An index outside the list, negative
ones included, makes the access fail; a block starts with no cell initialised. -/
namespace LibeventHttpd.Cells
variable {α : Type*}

def fetch (cells : List α) (i : ℤ) : Option α :=
  if 0 ≤ i then cells[i.toNat]? else none

def store (cells : List α) (i : ℤ) (v : α) : Option (List α) :=
  if 0 ≤ i ∧ i.toNat < cells.length then some (cells.set i.toNat v) else none

/-- A block whose uninitialised cells are `none`. -/
abbrev Block (α : Type*) := List (Option α)

/-- A negative size is a request no allocator can meet. -/
def malloc (size : ℤ) : Option (Block α) :=
  if 0 ≤ size then some (List.replicate size.toNat none) else none

/-- Reading an uninitialised cell fails like an access outside the block. -/
def load (block : Block α) (i : ℤ) : Option α := (fetch block i).join

def put (block : Block α) (i : ℤ) (v : α) : Option (Block α) := store block i (some v)

/-- The contents of a block over its whole size, when every cell is initialised. -/
def contents (block : Block α) : Option (List α) := block.mapM id

@[simp] theorem contents_filled (xs : List α) : contents (xs.map some) = some xs := by
  induction xs with
  | nil => rfl
  | cons x xs ih =>
    simp only [contents, List.map_cons, List.mapM_cons] at ih ⊢
    simp [ih]

@[simp] theorem fetch_natCast (cells : List α) (n : ℕ) : fetch cells n = cells[n]? := by
  simp [fetch]

/-- Fetching at an index given by any expression that evaluates to `n`. -/
theorem fetch_eq {cells : List α} {i : ℤ} {n : ℕ} (hi : i = n) : fetch cells i = cells[n]? := by
  rw [hi, fetch_natCast]

theorem store_eq {cells : List α} {i : ℤ} {n : ℕ} {v : α} (hi : i = n) (hn : n < cells.length) :
    store cells i v = some (cells.set n v) := by
  subst hi
  simp [store, hn]

theorem store_length {cells cells' : List α} {i : ℤ} {v : α} (h : store cells i v = some cells') :
    cells'.length = cells.length := by
  unfold store at h
  split_ifs at h
  obtain rfl := Option.some.inj h
  exact List.length_set

theorem store_eq_some {cells cells' : List α} {i : ℤ} {v : α}
    (h : store cells i v = some cells') :
    0 ≤ i ∧ i.toNat < cells.length ∧ cells' = cells.set i.toNat v := by
  unfold store at h
  split_ifs at h with hi
  exact ⟨hi.1,hi.2,(Option.some.inj h).symm⟩

theorem malloc_natCast (n : ℕ) : (malloc (n : ℤ) : Option (Block α)) =
    some (List.replicate n none) := by simp [malloc]

theorem malloc_eq {size : ℤ} {n : ℕ} (h : size = n) :
    (malloc size : Option (Block α)) = some (List.replicate n none) := by
  rw [h, malloc_natCast]

theorem put_zero_cons (c : Option α) (cs : Block α) (v : α) :
    put (c::cs) 0 v = some (some v::cs) := by simp [put, store]

/-- Writing the cell where a prefix of known length ends. -/
theorem store_append (xs : List α) {ys : List α} {x v : α} {i : ℤ} (hi : i = xs.length) :
    store (xs ++ x::ys) i v = some (xs ++ v::ys) := by
  rw [store_eq hi (by simp)]
  simp

/-- An access that succeeds in part of the memory succeeds in the whole. -/
theorem fetch_frame (pre : List α) {cells : List α} {i : ℤ} {x : α}
    (h : fetch cells i = some x) : fetch (pre ++ cells) (pre.length+i) = some x := by
  unfold fetch at h ⊢
  split_ifs at h with hi
  rw [if_pos (by omega), show ((pre.length : ℤ)+i).toNat = pre.length+i.toNat by omega,
    List.getElem?_append_right (Nat.le_add_right _ _), Nat.add_sub_cancel_left, h]

theorem store_frame (pre : List α) {cells cells' : List α} {i : ℤ} {v : α}
    (h : store cells i v = some cells') :
    store (pre ++ cells) (pre.length+i) v = some (pre ++ cells') := by
  obtain ⟨hi,hlt,rfl⟩ := store_eq_some h
  have hn : ((pre.length : ℤ)+i) = ((pre.length+i.toNat : ℕ) : ℤ) := by omega
  rw [store_eq hn (by rw [List.length_append]; omega), List.set_append_right _ _ (by omega),
    Nat.add_sub_cancel_left]

/-- Writing the last free cell in front of a tail. -/
theorem put_free (c : Option α) (k : ℕ) (ys : Block α) (v : α) {i : ℤ} (hi : i = (k+1 : ℕ)) :
    put (c::(List.replicate (k+1) none ++ ys)) i v =
      some (c::(List.replicate k none ++ some v::ys)) := by
  have hs : c::(List.replicate (k+1) none ++ ys) = (c::List.replicate k none) ++ none::ys := by
    rw [List.replicate_succ', List.append_assoc]
    rfl
  rw [put, hs, store_append _ (by simpa using hi)]
  rfl

/-- The loop that assigns `v` to the first `n` cells of a block. -/
def fill (block : Block α) (v : α) : ℕ → Option (Block α)
  | 0 => some block
  | n+1 => do put (← fill block v n) n v

theorem fill_free (v : α) (n k : ℕ) :
    fill (List.replicate (n+k) none) v n =
      some ((List.replicate n v).map some ++ List.replicate k none) := by
  induction n generalizing k with
  | zero => simp [fill]
  | succ n ih =>
    have h : n+1+k = n+(k+1) := by omega
    rw [fill, h, ih, List.replicate_succ (n := k)]
    change put _ _ _ = _
    rw [put, store_append _ (by simp), List.replicate_succ']
    simp

theorem fill_malloc (v : α) (n : ℕ) :
    fill (List.replicate n none) v n = some ((List.replicate n v).map some) := by
  simpa using fill_free v n 0

end LibeventHttpd.Cells
