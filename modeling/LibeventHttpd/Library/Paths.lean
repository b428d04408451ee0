import Mathlib.Data.List.Basic

/-! Lexical resolution of paths given by their components. Some components stay in the directory,
one goes up, and any other names an entry. At the top going up stays. -/
namespace LibeventHttpd.Paths
variable {α : Type*} [DecidableEq α] (stay : α → Bool) (up : α)

def enter (dir : List α) (c : α) : List α :=
  if stay c then dir else if c = up then dir.dropLast else dir ++ [c]

/-- The directory reached from `dir`. -/
def resolve (dir : List α) (cs : List α) : List α := cs.foldl (enter stay up) dir

/-- How many directories a relative path leaves, and the names it enters then. -/
structure Walk (α : Type*) where
  climbs : ℕ
  names : List α

def Walk.enter (w : Walk α) (c : α) : Walk α :=
  if stay c then w
  else if c = up then (if w.names = [] then ⟨w.climbs+1,[]⟩ else ⟨w.climbs,w.names.dropLast⟩)
  else ⟨w.climbs,w.names ++ [c]⟩

def walk (cs : List α) : Walk α := cs.foldl (Walk.enter stay up) ⟨0,[]⟩

/-- The walk from a given directory. -/
def Walk.from (w : Walk α) (dir : List α) : List α := dir.take (dir.length-w.climbs) ++ w.names

/-- A walk that ends in the directory it starts from or below: what it leaves of the directory it
enters again. -/
def Stays (dir cs : List α) : Prop :=
  dir.drop (dir.length-(walk stay up cs).climbs) <+: (walk stay up cs).names

instance (dir cs : List α) : Decidable (Stays stay up dir cs) :=
  inferInstanceAs (Decidable (_ <+: _))

variable {stay up}

theorem enter_from (w : Walk α) (dir : List α) (c : α) :
    enter stay up (w.from dir) c = (w.enter stay up c).from dir := by
  obtain ⟨climbs,names⟩ := w
  unfold enter Walk.enter
  split_ifs with hs hu hn
  · rfl
  · obtain rfl : names = [] := hn
    simp only [Walk.from, List.append_nil, List.dropLast_eq_take, List.take_take, List.length_take]
    congr 1
    omega
  · exact List.dropLast_append_of_ne_nil hn
  · exact List.append_assoc _ _ _

/-- Resolution from a directory follows the walk of the path alone. -/
theorem resolve_eq (dir cs : List α) :
    resolve stay up dir cs = (walk stay up cs).from dir := by
  have hgo (w : Walk α) : resolve stay up (w.from dir) cs =
      (cs.foldl (Walk.enter stay up) w).from dir := by
    induction cs generalizing w with
    | nil => rfl
    | cons c cs ih =>
      rw [resolve, List.foldl_cons, enter_from]
      exact ih (w.enter stay up c)
  have h0 : (⟨0,[]⟩ : Walk α).from dir = dir := by simp [Walk.from]
  have h := hgo ⟨0,[]⟩
  rwa [h0] at h

theorem resolve_append (dir cs ds : List α) :
    resolve stay up dir (cs ++ ds) = resolve stay up (resolve stay up dir cs) ds :=
  List.foldl_append

theorem prefix_resolve_iff (dir cs : List α) :
    dir <+: resolve stay up dir cs ↔ Stays stay up dir cs := by
  have hsplit := List.take_append_drop (dir.length-(walk stay up cs).climbs) dir
  rw [resolve_eq, Stays]
  calc dir <+: (walk stay up cs).from dir
    _ ↔ dir.take _ ++ dir.drop _ <+: (walk stay up cs).from dir := by rw [hsplit]
    _ ↔ dir.drop _ <+: (walk stay up cs).names := List.prefix_append_right_inj _

end LibeventHttpd.Paths
