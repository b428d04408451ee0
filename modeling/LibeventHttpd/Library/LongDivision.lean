import LibeventHttpd.Library.Positional
import Mathlib.Data.Nat.ModEq

/-! Long division of a word of base-`b` digits by a number, one digit at a time. -/
namespace LibeventHttpd.Positional

/-- The quotient digits of long division, starting from the remainder `r`. -/
def longDigits (b B : ℕ) : ℕ → List ℕ → List ℕ
  | _,[] => []
  | r,d::ds => (b*r+d)/B::longDigits b B ((b*r+d)%B) ds

/-- The remainder that is left. -/
def longRest (b B : ℕ) : ℕ → List ℕ → ℕ
  | r,[] => r
  | r,d::ds => longRest b B ((b*r+d)%B) ds

variable {b B : ℕ}

@[simp] theorem longDigits_length (r : ℕ) (ds : List ℕ) :
    (longDigits b B r ds).length = ds.length := by
  induction ds generalizing r with
  | nil => rfl
  | cons d ds ih => simp [longDigits, ih]

theorem longDigits_append (r : ℕ) (xs ys : List ℕ) :
    longDigits b B r (xs ++ ys) =
      longDigits b B r xs ++ longDigits b B (longRest b B r xs) ys := by
  induction xs generalizing r with
  | nil => rfl
  | cons x xs ih => simp [longDigits, longRest, ih]

theorem longRest_eq {r : ℕ} (hr : r < B) (ds : List ℕ) :
    longRest b B r ds = (r*b^ds.length+value b ds)%B := by
  induction ds generalizing r with
  | nil => simp [longRest, Nat.mod_eq_of_lt hr]
  | cons d ds ih =>
    have he : r*b^(ds.length+1)+(d*b^ds.length+value b ds) =
        (b*r+d)*b^ds.length+value b ds := by ring
    rw [longRest, ih (Nat.mod_lt _ (by omega)), List.length_cons, value_cons, he]
    exact (((Nat.mod_modEq (b*r+d) B).mul_right _).add_right _)

theorem value_longDigits {r : ℕ} (hr : r < B) (ds : List ℕ) :
    value b (longDigits b B r ds) = (r*b^ds.length+value b ds)/B := by
  induction ds generalizing r with
  | nil => simp [longDigits, Nat.div_eq_of_lt hr]
  | cons d ds ih =>
    have he : r*b^(ds.length+1)+(d*b^ds.length+value b ds) =
        ((b*r+d)%B*b^ds.length+value b ds)+B*((b*r+d)/B*b^ds.length) := by
      have hw := Nat.mod_add_div (b*r+d) B
      calc
        r*b^(ds.length+1)+(d*b^ds.length+value b ds) =
            (b*r+d)*b^ds.length+value b ds := by ring
        _ = ((b*r+d)%B+B*((b*r+d)/B))*b^ds.length+value b ds := by rw [hw]
        _ = _ := by ring
    rw [longDigits, value_cons, longDigits_length, ih (Nat.mod_lt _ (by omega)),
      List.length_cons, value_cons, he, Nat.add_mul_div_left _ _ (by omega), Nat.add_comm]

theorem step_lt {r d : ℕ} (hr : r < B) (hd : d < b) : (b*r+d)/B < b := by
  apply Nat.div_lt_of_lt_mul
  nlinarith

/-- Every quotient digit is a digit. -/
theorem longDigits_lt {r : ℕ} (hr : r < B) {ds : List ℕ} (hd : ∀ d ∈ ds, d < b) :
    ∀ q ∈ longDigits b B r ds, q < b := by
  induction ds generalizing r with
  | nil => simp [longDigits]
  | cons d ds ih =>
    intro q hq
    rcases List.mem_cons.mp hq with rfl | hq
    · exact step_lt hr (hd d (by simp))
    · exact ih (Nat.mod_lt _ (by omega)) (fun e he => hd e (by simp [he])) q hq

end LibeventHttpd.Positional
