import LibeventHttpd.MathCgi.HandleData
import LibeventHttpd.MySql.SplitQuery

/-! How `handle_data` of the calculator finds its two operands and the operator in the query
string. -/
namespace LibeventHttpd.MathCgi
open Cells
open MySql (Ordinary text_ordinary)

/-- The loop from position `i` on: the characters as it leaves them, and the array `val`, whose
pointers are positions in the query string. -/
def splitFrom : ℕ → ℕ → Block ℕ → List CChar → Option (List CChar × Block ℕ)
  | _,_,val,[] => some ([],val)
  | i,index,val,c::s =>
    if c = ch '=' then do
      let val ← put val index (i+1)
      let (s,val) ← splitFrom (i+1) (index+1) val s
      return (c::s,val)
    else if c = ch '&' then do
      let (s,val) ← splitFrom (i+1) index val s
      return (0::s,val)
    else do
      let (s,val) ← splitFrom (i+1) index val s
      return (c::s,val)

/-- The characters after the loop, and where the three parameters start in them. -/
structure Parameters where
  query : List CChar
  data1 : ℕ
  op : ℕ
  data2 : ℕ
  deriving DecidableEq

namespace Parameters

def data1Text (p : Parameters) : List CChar := text (p.query.drop p.data1)
def opText (p : Parameters) : List CChar := text (p.query.drop p.op)
def data2Text (p : Parameters) : List CChar := text (p.query.drop p.data2)

end Parameters

/-- The pointers `handle_data` dereferences after the loop. An unassigned pointer, or a pointer
stored outside `val`, gives `none`; an empty query has no parameters. -/
def parameters (query : List CChar) : Option (Option Parameters) :=
  if query = [] then some none
  else do
    -- `tmp < tail`, where `tail` is the last character
    let (s,val) ← splitFrom 0 0 (List.replicate 3 none) query.dropLast
    let op ← fetch val 1
    let val ← store val 1 (← fetch val 2)
    let val ← store val 2 none
    return some ⟨s ++ query.drop (query.length-1),← load val 0,← op,← load val 1⟩

def formQuery (x o y : List CChar) : List CChar :=
  cstr "data1=" ++ x ++ cstr "&operation=" ++ o ++ cstr "&data2=" ++ y

/-- The names of three parameters, which `handle_data` does not look at. -/
structure Names where
  data1 : List CChar
  op : List CChar
  data2 : List CChar
  ordinary : ∀ c ∈ data1 ++ op ++ data2, Ordinary c

namespace Names

/-- What stands before the first operand. -/
def toData1 (names : Names) : List CChar := names.data1 ++ cstr "="

/-- What stands between the first operand and the operator. -/
def toOp (names : Names) : List CChar := cstr "&" ++ names.op ++ cstr "="

/-- What stands between the operator and the second operand. -/
def toData2 (names : Names) : List CChar := cstr "&" ++ names.data2 ++ cstr "="

/-- The query with three parameters of these names. -/
def query (names : Names) (x o y : List CChar) : List CChar :=
  names.toData1 ++ x ++ names.toOp ++ o ++ names.toData2 ++ y

end Names

def formNames : Names := ⟨cstr "data1",cstr "operation",cstr "data2",by decide⟩

/-- The positions behind the `=` of a string whose first character has position `i`. -/
def starts : ℕ → List CChar → List ℕ
  | _,[] => []
  | i,c::s => if c = ch '=' then (i+1)::starts (i+1) s else starts (i+1) s

/-- Every `&` overwritten. -/
def cut (s : List CChar) : List CChar := s.map fun c => if c = ch '&' then 0 else c

section Loop
variable {s v : List CChar}

theorem starts_cons_eq (i : ℕ) (s : List CChar) :
    starts i (ch '='::s) = (i+1)::starts (i+1) s := if_pos rfl

theorem starts_cons_ne {c : CChar} (h : c ≠ ch '=') (i : ℕ) (s : List CChar) :
    starts i (c::s) = starts (i+1) s := if_neg h

theorem length_starts (i : ℕ) (s : List CChar) : (starts i s).length = s.count (ch '=') := by
  induction s generalizing i with
  | nil => rfl
  | cons c s ih =>
    by_cases h : c = ch '='
    · subst h
      rw [starts_cons_eq, List.length_cons, ih, List.count_cons_self]
    · rw [starts_cons_ne h, ih, List.count_cons_of_ne h]

theorem starts_append (i : ℕ) (s t : List CChar) :
    starts i (s ++ t) = starts i s ++ starts (i+s.length) t := by
  induction s generalizing i with
  | nil => rfl
  | cons c s ih =>
    have hlen : i+(c::s).length = i+1+s.length := by
      rw [List.length_cons]
      omega
    rw [List.cons_append, hlen]
    by_cases h : c = ch '='
    · subst h
      rw [starts_cons_eq, starts_cons_eq, ih, List.cons_append]
    · rw [starts_cons_ne h, starts_cons_ne h, ih]

/-- The loop fills `val` from the left with the starts of the parameters as long as there is
room. -/
theorem splitFrom_eq (i : ℕ) (done : List ℕ) (free : ℕ) (s : List CChar) :
    splitFrom i done.length (done.map some ++ List.replicate free none) s =
      if s.count (ch '=') ≤ free then
        some (cut s,(done ++ starts i s).map some ++
          List.replicate (free-s.count (ch '=')) none)
      else none := by
  induction s generalizing i done free with
  | nil => simp [splitFrom, cut, starts]
  | cons c s ih =>
    by_cases heq : c = ch '='
    · subst heq
      have hcut : cut (ch '='::s) = ch '='::cut s := rfl
      rw [splitFrom, if_pos rfl, starts_cons_eq, List.count_cons_self, hcut]
      cases free with
      | zero => simp [put, store]
      | succ free =>
        have hput : put (done.map some ++ List.replicate (free+1) none) done.length (i+1) =
            some ((done ++ [i+1]).map some ++ List.replicate free none) := by
          rw [put, List.replicate_succ, store_append _ (by simp)]
          simp
        have hi := ih (i+1) (done ++ [i+1]) free
        rw [List.length_append, List.length_singleton] at hi
        simp only [hput, Option.bind_eq_bind, Option.bind_some, hi, Nat.add_le_add_iff_right,
          Nat.add_sub_add_right, List.append_assoc, List.singleton_append]
        split_ifs <;> rfl
    · rw [splitFrom, if_neg heq, ih, starts_cons_ne heq, List.count_cons_of_ne heq]
      by_cases hamp : c = ch '&'
      · have hcut : cut (c::s) = 0::cut s := congrArg (·::cut s) (if_pos hamp)
        rw [if_pos hamp, hcut]
        split_ifs <;> rfl
      · have hcut : cut (c::s) = c::cut s := congrArg (·::cut s) (if_neg hamp)
        rw [if_neg hamp, hcut]
        split_ifs <;> rfl

theorem starts_ordinary (hv : ∀ c ∈ v, Ordinary c) (i : ℕ) : starts i v = [] := by
  have hnone : v.count (ch '=') = 0 := List.count_eq_zero.mpr fun h => (hv _ h).1 rfl
  exact List.length_eq_zero_iff.mp ((length_starts i v).trans hnone)

/-- Between two values the next name starts one parameter. -/
theorem starts_between (hv : ∀ c ∈ v, Ordinary c) (i : ℕ) :
    starts i (cstr "&" ++ v ++ cstr "=") = [i+(cstr "&" ++ v ++ cstr "=").length] := by
  have hlen : i+(cstr "&" ++ v ++ cstr "=").length = i+(cstr "&" ++ v).length+1 := by
    rw [List.length_append, ← Nat.add_assoc]
    rfl
  rw [starts_append, starts_append, starts_ordinary hv, List.append_nil, hlen]
  rfl

theorem cut_append (s t : List CChar) : cut (s ++ t) = cut s ++ cut t := List.map_append

theorem cut_ordinary (hv : ∀ c ∈ v, Ordinary c) : cut v = v :=
  (List.map_congr_left fun c hc => if_neg (hv c hc).2.1).trans (List.map_id v)

/-- A value ends at the next `&`, which the loop overwrites, or at the end of the string. -/
theorem text_start (hv : ∀ c ∈ v, Ordinary c) (hs : s = [] ∨ s.head? = some (ch '&'))
    (done : List CChar) : text ((cut (done ++ (v ++ s))).drop done.length) = v := by
  have hlen : done.length = (cut done).length := (List.length_map _).symm
  rw [cut_append, cut_append, cut_ordinary hv, hlen, List.drop_left]
  apply text_ordinary hv
  intro c hc
  cases hs with
  | inl hnil =>
    rw [hnil] at hc
    cases hc
  | inr hamp =>
    obtain ⟨t,rfl⟩ := List.head?_eq_some_iff.mp hamp
    exact (Option.some.inj hc).symm

/-- What the three dereferences find: the loop has looked at all characters but the last. -/
theorem parameters_eq {query : List CChar} (hne : query ≠ []) :
    parameters query = match starts 0 query.dropLast with
      | [a,b,c] => some (some ⟨cut query.dropLast ++ [query.getLast hne],a,b,c⟩)
      | _ => none := by
  have hloop := splitFrom_eq 0 [] 3 query.dropLast
  have hlast : query.drop (query.length-1) = [query.getLast hne] := List.drop_length_sub_one hne
  rw [List.length_nil, List.map_nil, List.nil_append, List.nil_append, ← length_starts 0] at hloop
  rw [parameters, if_neg hne, hloop, hlast]
  rcases starts 0 query.dropLast with _ | ⟨a,_ | ⟨b,_ | ⟨c,_ | ⟨d,rest⟩⟩⟩⟩
  · rfl
  · rfl
  · rfl
  · rfl
  · have hmany : ¬(a::b::c::d::rest).length ≤ 3 := by simp
    rw [if_neg hmany]
    rfl

end Loop

theorem parameters_isSome_of_ne {query : List CChar} (hne : query ≠ []) :
    (parameters query).isSome ↔ query.dropLast.count (ch '=') = 3 := by
  rw [parameters_eq hne, ← length_starts 0]
  rcases starts 0 query.dropLast with _ | ⟨a,_ | ⟨b,_ | ⟨c,_ | ⟨d,rest⟩⟩⟩⟩ <;> simp

/-- All accesses to `val` are in its bounds and to assigned pointers exactly if the query is empty
or three `=` stand before its last character. -/
theorem parameters_isSome_iff (query : List CChar) :
    (parameters query).isSome ↔ query = [] ∨ query.dropLast.count (ch '=') = 3 := by
  by_cases hne : query = []
  · rw [parameters, if_pos hne]
    exact iff_of_true rfl (.inl hne)
  · rw [parameters_isSome_of_ne hne, or_iff_right hne]

/-- Two parameters leave `val[2]` unassigned, four are stored behind it. -/
theorem parameters_two_four : parameters (cstr "data1=1&data2=2") = none ∧
    parameters (cstr "data1=1&operation=add&data2=2&data3=3") = none := by decide

/-- The parameters of a form come out as they were put in. -/
def Recovers (x o y : List CChar) : Prop :=
  ∃ p, parameters (formQuery x o y) = some (some p) ∧
    p.data1Text = x ∧ p.opText = o ∧ p.data2Text = y

namespace Names
variable {names : Names} {x o y : List CChar}

theorem ordinary_data1 (names : Names) : ∀ c ∈ names.data1, Ordinary c := fun c hc =>
  names.ordinary c (List.mem_append_left _ (List.mem_append_left _ hc))

theorem ordinary_op (names : Names) : ∀ c ∈ names.op, Ordinary c := fun c hc =>
  names.ordinary c (List.mem_append_left _ (List.mem_append_right _ hc))

theorem ordinary_data2 (names : Names) : ∀ c ∈ names.data2, Ordinary c := fun c hc =>
  names.ordinary c (List.mem_append_right _ hc)

theorem starts_toData1 (names : Names) (i : ℕ) :
    starts i names.toData1 = [i+names.toData1.length] := by
  rw [toData1, starts_append, starts_ordinary names.ordinary_data1, List.length_append]
  rfl

theorem starts_toOp (names : Names) (i : ℕ) :
    starts i names.toOp = [i+names.toOp.length] := starts_between names.ordinary_op i

theorem starts_toData2 (names : Names) (i : ℕ) :
    starts i names.toData2 = [i+names.toData2.length] := starts_between names.ordinary_data2 i

/-- Each parameter starts behind its name. -/
theorem starts_query (hx : ∀ c ∈ x, Ordinary c) (ho : ∀ c ∈ o, Ordinary c)
    (hy : ∀ c ∈ y, Ordinary c) :
    starts 0 (names.query x o y) = [names.toData1.length,
      (names.toData1 ++ x ++ names.toOp).length,
      (names.toData1 ++ x ++ names.toOp ++ o ++ names.toData2).length] := by
  simp only [query, starts_append, starts_toData1, starts_toOp, starts_toData2,
    starts_ordinary hx, starts_ordinary ho, starts_ordinary hy, List.length_append,
    List.append_nil, Nat.zero_add, List.cons_append, List.nil_append]

theorem query_ne_nil : names.query x o y ≠ [] := by
  simp [query, toData2, cstr]

/-- A query with three parameters whose last value is not empty, after the loop. -/
theorem parameters_query (hx : ∀ c ∈ x, Ordinary c) (ho : ∀ c ∈ o, Ordinary c)
    (hy : ∀ c ∈ y, Ordinary c) (hne : y ≠ []) :
    parameters (names.query x o y) = some (some ⟨cut (names.query x o y),names.toData1.length,
      (names.toData1 ++ x ++ names.toOp).length,
      (names.toData1 ++ x ++ names.toOp ++ o ++ names.toData2).length⟩) := by
  have hquery : names.query x o y = names.query x o y.dropLast ++ [y.getLast hne] := by
    rw [query, query, List.append_assoc _ y.dropLast, List.dropLast_concat_getLast]
  have hdrop : (names.query x o y).dropLast = names.query x o y.dropLast := by
    rw [hquery, List.dropLast_concat]
  have hlast : cut [y.getLast hne] = [y.getLast hne] := by
    apply cut_ordinary
    intro c hc
    rw [List.mem_singleton.mp hc]
    exact hy _ (List.getLast_mem hne)
  have hgetLast : (names.query x o y).getLast query_ne_nil = y.getLast hne :=
    List.getLast_append_of_right_ne_nil _ _ hne
  rw [parameters_eq query_ne_nil, hdrop, hgetLast,
    starts_query hx ho fun c hc => hy c (List.dropLast_subset y hc)]
  conv_rhs => rw [hquery, cut_append, hlast]

/-- Without a second operand the third `=` is the last character, which the loop does not see. -/
theorem parameters_query_nil (hx : ∀ c ∈ x, Ordinary c) (ho : ∀ c ∈ o, Ordinary c) :
    parameters (names.query x o []) = none := by
  have hquery : names.query x o [] =
      names.toData1 ++ x ++ names.toOp ++ o ++ (cstr "&" ++ names.data2) ++ [ch '='] := by
    rw [query, List.append_nil, List.append_assoc _ (cstr "&" ++ names.data2)]
    rfl
  have hcount : (names.query x o []).count (ch '=') = 3 := by
    rw [← length_starts 0, starts_query hx ho (List.forall_mem_nil _)]
    rfl
  rw [← Option.not_isSome_iff_eq_none, parameters_isSome_of_ne query_ne_nil, hquery,
    List.dropLast_concat]
  rw [hquery, List.count_append, List.count_singleton_self] at hcount
  omega

end Names

section Form
variable {x o y : List CChar}

theorem query_formNames (x o y : List CChar) : formNames.query x o y = formQuery x o y := rfl

/-- A form whose last value is not empty, after the loop. -/
theorem parameters_form (hx : ∀ c ∈ x, Ordinary c) (ho : ∀ c ∈ o, Ordinary c)
    (hy : ∀ c ∈ y, Ordinary c) (hne : y ≠ []) :
    parameters (formQuery x o y) = some (some ⟨cut (formQuery x o y),(cstr "data1=").length,
      (cstr "data1=" ++ x ++ cstr "&operation=").length,
      (cstr "data1=" ++ x ++ cstr "&operation=" ++ o ++ cstr "&data2=").length⟩) :=
  formNames.parameters_query hx ho hy hne

/-- The values of the form are recovered exactly if the second operand is not empty: the loop does
not look at the last character. -/
theorem recovers_iff (hx : ∀ c ∈ x, Ordinary c) (ho : ∀ c ∈ o, Ordinary c)
    (hy : ∀ c ∈ y, Ordinary c) : Recovers x o y ↔ y ≠ [] := by
  constructor
  · rintro ⟨p,hp,-⟩ rfl
    rw [← query_formNames, Names.parameters_query_nil hx ho] at hp
    cases hp
  · intro hne
    refine ⟨_,parameters_form hx ho hy hne,?_,?_,?_⟩
    · have hsplit : formQuery x o y =
          cstr "data1=" ++ (x ++ (cstr "&operation=" ++ (o ++ (cstr "&data2=" ++ y)))) := by
        simp only [formQuery, List.append_assoc]
      rw [Parameters.data1Text, hsplit]
      exact text_start hx (.inr rfl) _
    · have hsplit : formQuery x o y =
          cstr "data1=" ++ x ++ cstr "&operation=" ++ (o ++ (cstr "&data2=" ++ y)) := by
        simp only [formQuery, List.append_assoc]
      rw [Parameters.opText, hsplit]
      exact text_start ho (.inr rfl) _
    · have hsplit : formQuery x o y =
          cstr "data1=" ++ x ++ cstr "&operation=" ++ o ++ cstr "&data2=" ++ (y ++ []) := by
        rw [List.append_nil, formQuery]
      rw [Parameters.data2Text, hsplit]
      exact text_start hy (.inl rfl) _

theorem recovers_one : Recovers (cstr "1") [] (cstr "2") :=
  (recovers_iff (by decide) (by decide) (by decide)).mpr (by decide)

/-- A form sent without a second operand. -/
theorem not_recovers_empty : ¬Recovers (cstr "1") (cstr "add") [] := by
  rintro ⟨p,hp,-⟩
  have hnone : parameters (formQuery (cstr "1") (cstr "add") []) = none := by decide
  rw [hnone] at hp
  cases hp

end Form
end LibeventHttpd.MathCgi
