import LibeventHttpd.Library.Transition
import Mathlib.Data.List.Nodup

/-! Clients that are served one after the other. Each input is taken in the state that those before
it have left. -/
namespace LibeventHttpd.Turns
open Transition
variable {κ ω ι ρ : Type*} (serve : ω → ι → Option (ω × ρ))

/-- What an input leaves. -/
def next (w : ω) (i : ι) : Option ω := (serve w i).map Prod.fst

/-- The turns of some clients, none of them twice and each with an input that is its own, lead from
`w₀` to `w`. -/
structure InTurn (own : κ → ι → Prop) (w₀ : ω) (turns : List (κ × ι)) (w : ω) : Prop where
  leaves : run (next serve) w₀ (turns.map Prod.snd) = some w
  once : (turns.map Prod.fst).Nodup
  own : ∀ turn ∈ turns, own turn.1 turn.2

/-- The state that a client finds when it is its turn, and its input. -/
def At (w₀ : ω) (turns : List (κ × ι)) (c : κ) (Q : ω → ι → Prop) : Prop :=
  ∃ before i after w, turns = before ++ (c,i)::after ∧
    run (next serve) w₀ (before.map Prod.snd) = some w ∧ Q w i

variable {serve} {own own' : κ → ι → Prop} {w₀ w w' : ω} {turns : List (κ × ι)} {c : κ} {i : ι}
  {r : ρ} {Q Q' : ω → ι → Prop}

theorem inTurn_nil (own : κ → ι → Prop) (w₀ : ω) : InTurn serve own w₀ [] w₀ :=
  ⟨rfl,List.nodup_nil,fun _ h => by cases h⟩

theorem InTurn.mono (h : InTurn serve own w₀ turns w) (hown : ∀ c i, own c i → own' c i) :
    InTurn serve own' w₀ turns w :=
  ⟨h.leaves,h.once,fun turn hturn => hown _ _ (h.own turn hturn)⟩

/-- Who has no input of its own has had no turn. -/
theorem InTurn.not_mem (h : InTurn serve own w₀ turns w) (hc : ∀ i, ¬own c i) :
    c ∉ turns.map Prod.fst := by
  intro hmem
  obtain ⟨turn,hturn,rfl⟩ := List.mem_map.mp hmem
  exact hc _ (h.own turn hturn)

theorem InTurn.snoc (h : InTurn serve own w₀ turns w) (hc : c ∉ turns.map Prod.fst)
    (hown : own c i) (hserve : serve w i = some (w',r)) :
    InTurn serve own w₀ (turns ++ [(c,i)]) w' := by
  constructor
  case leaves =>
    rw [List.map_append, run_append, h.leaves, Option.bind_some, List.map_singleton, run, next,
      hserve]
    rfl
  case once =>
    rw [List.map_append, List.map_singleton, ← List.concat_eq_append, List.nodup_concat]
    exact ⟨hc,h.once⟩
  case own =>
    rw [List.forall_mem_append, List.forall_mem_singleton]
    exact ⟨h.own,hown⟩

theorem InTurn.at_last (h : InTurn serve own w₀ turns w) (hQ : Q w i) :
    At serve w₀ (turns ++ [(c,i)]) c Q := ⟨turns,i,[],w,rfl,h.leaves,hQ⟩

/-- Later turns change nothing for a client. -/
theorem At.append (h : At serve w₀ turns c Q) (turns' : List (κ × ι)) :
    At serve w₀ (turns ++ turns') c Q := by
  obtain ⟨before,i,after,w,rfl,hrun,hQ⟩ := h
  exact ⟨before,i,after ++ turns',w,by simp,hrun,hQ⟩

theorem At.mono (h : At serve w₀ turns c Q) (hQ : ∀ w i, Q w i → Q' w i) :
    At serve w₀ turns c Q' := by
  obtain ⟨before,i,after,w,hturns,hrun,hi⟩ := h
  exact ⟨before,i,after,w,hturns,hrun,hQ w i hi⟩

end LibeventHttpd.Turns
