import Mathlib.Data.List.Basic

/-! A collection whose members stay in the order they were added, and its history. -/
namespace LibeventHttpd.Collection
variable {α : Type*}

inductive Change (α : Type*) where
  | add (a : α)
  | remove (p : α → Bool)

def Change.apply (l : List α) : Change α → List α
  | .add a => l ++ [a]
  | .remove p => l.filter fun a => !p a

def replay (l : List α) (cs : List (Change α)) : List α := cs.foldl Change.apply l

section History
variable {l : List α} {cs cs' : List (Change α)} {a : α}

end History
end LibeventHttpd.Collection
