import Mathlib.Logic.Relation
import Mathlib.Order.Nat

/-! Systems given by a partial step function with labels. A label says which party moves; a run
takes any labels whose steps are defined, restricted to the steps a condition admits. -/
namespace LibeventHttpd.Transition
variable {σ ε : Type*} (step : σ → ε → Option σ) (C : σ → ε → Prop)

/-- One step that the condition admits. -/
def Moves (s t : σ) : Prop := ∃ e, C s e ∧ step s e = some t

def Reaches : σ → σ → Prop := Relation.ReflTransGen (Moves step C)

/-- The labels of a run one after the other. -/
def run (s : σ) : List ε → Option σ
  | [] => some s
  | e::es => (step s e).bind fun t => run t es

variable {step C} {s t u : σ}

theorem Reaches.refl (s : σ) : Reaches step C s s := Relation.ReflTransGen.refl

theorem Reaches.trans (h : Reaches step C s t) (h' : Reaches step C t u) : Reaches step C s u :=
  Relation.ReflTransGen.trans h h'

theorem reaches_of_step {e : ε} (hC : C s e) (h : step s e = some t) : Reaches step C s t :=
  Relation.ReflTransGen.single ⟨e,hC,h⟩

theorem Reaches.next (h : Reaches step C s t) (e : ε) (hC : C t e) (hstep : step t e = some u) :
    Reaches step C s u := h.trans (reaches_of_step hC hstep)

theorem Reaches.mono {C' : σ → ε → Prop} (hC : ∀ s e, C s e → C' s e) (h : Reaches step C s t) :
    Reaches step C' s t := by
  have hmoves (s t : σ) : Moves step C s t → Moves step C' s t :=
    fun ⟨e,he,hstep⟩ => ⟨e,hC s e he,hstep⟩
  exact Relation.ReflTransGen.mono hmoves s t h

/-- What every admitted step keeps holds in every state that is reached. -/
theorem Reaches.keeps {I : σ → Prop} (hI : ∀ s e t, I s → C s e → step s e = some t → I t)
    (h : Reaches step C s t) (h0 : I s) : I t := by
  induction h with
  | refl => exact h0
  | tail _ hlast ih =>
    obtain ⟨e,hC,hstep⟩ := hlast
    exact hI _ e _ ih hC hstep

section Runs

theorem run_append (s : σ) (es es' : List ε) :
    run step s (es ++ es') = (run step s es).bind fun t => run step t es' := by
  induction es generalizing s with
  | nil => rfl
  | cons e es ih =>
    rw [List.cons_append, run, run, Option.bind_assoc]
    exact Option.bind_congr fun t _ => ih t

end Runs

section Simulation
variable {τ δ : Type*} {step' : τ → δ → Option τ} {C' : τ → δ → Prop} {R : σ → τ → Prop}

/-- What one system does the other can do too, in any number of steps. -/
theorem Reaches.simulate {s' : τ}
    (hR : ∀ s e t s', R s s' → C s e → step s e = some t → ∃ t', Reaches step' C' s' t' ∧ R t t')
    (h : Reaches step C s t) (h0 : R s s') : ∃ t', Reaches step' C' s' t' ∧ R t t' := by
  induction h with
  | refl => exact ⟨s',Reaches.refl s',h0⟩
  | tail _ hlast ih =>
    obtain ⟨e,hC,hstep⟩ := hlast
    obtain ⟨u',hu',hRu⟩ := ih
    obtain ⟨t',ht',hRt⟩ := hR _ e _ u' hRu hC hstep
    exact ⟨t',hu'.trans ht',hRt⟩

end Simulation

end LibeventHttpd.Transition
