import LibeventHttpd.ContentLength

/-! How `handle_data` of the database program finds the five fields in its query string. -/
namespace LibeventHttpd.MySql

structure Fields where
  op : List CChar
  name : List CChar
  sex : List CChar
  age : List CChar
  school : List CChar
  deriving DecidableEq

/-- The loop from position `i` on: the characters as it leaves them, and the positions pushed to
`v_query`. -/
def splitFrom : ℕ → ℕ → List CChar → List CChar × List ℕ
  | _,_,[] => ([],[])
  | i,index,c::s =>
    if c = ch '=' then
      let (s,v) := splitFrom (i+1) (index+1) s
      (c::s,(i+1)::v)
    else if c = ch '&' then
      if index = 2 ∧ s.headD 0 ≠ ch 's' then
        let (s,v) := splitFrom (i+1) (index+1) s
        (0::s,i::v)
      else
        let (s,v) := splitFrom (i+1) index s
        (0::s,v)
    else
      let (s,v) := splitFrom (i+1) index s
      (c::s,v)

/-- The C strings behind the pushed pointers. The first five are assigned to the fields; without
five the vector is read outside its bounds. -/
def splitQuery (query : List CChar) : Option Fields :=
  let (q,v) := splitFrom 0 0 query
  match v.map fun p => text (q.drop p) with
  | op::name::sex::age::school::_ => some ⟨op,name,sex,age,school⟩
  | _ => none

/-- A character that is no separator and no end of a string. -/
def Ordinary (c : CChar) : Prop := c ≠ ch '=' ∧ c ≠ ch '&' ∧ c ≠ 0

instance : DecidablePred Ordinary :=
  fun c => inferInstanceAs (Decidable (c ≠ ch '=' ∧ c ≠ ch '&' ∧ c ≠ 0))

def formQuery (op name sex age school : List CChar) : List CChar :=
  cstr "operation=" ++ op ++ cstr "&name=" ++ name ++ cstr "&sex=" ++ sex ++ cstr "&age=" ++ age ++
    cstr "&school=" ++ school

/-- The query of a form without a choice for `sex`. -/
def formQueryNoSex (op name age school : List CChar) : List CChar :=
  cstr "operation=" ++ op ++ cstr "&name=" ++ name ++ cstr "&age=" ++ age ++ cstr "&school=" ++
    school

/-- The strings pushed from position `done.length` on, where `done` is the string before it. -/
def pushed (done : List CChar) (index : ℕ) (s : List CChar) : List (List CChar) :=
  (splitFrom done.length index s).2.map fun p =>
    text ((done ++ (splitFrom done.length index s).1).drop p)

section Loop
variable {s v : List CChar}

theorem splitFrom_ordinary (hv : ∀ c ∈ v, Ordinary c) (i index : ℕ) :
    splitFrom i index (v ++ s) = (v ++ (splitFrom (i+v.length) index s).1,
      (splitFrom (i+v.length) index s).2) := by
  induction v generalizing i with
  | nil => rfl
  | cons c v ih =>
    obtain ⟨heq,hamp,-⟩ := hv c (by simp)
    have hi := ih (fun d hd => hv d (by simp [hd])) (i+1)
    rw [List.cons_append, splitFrom, if_neg heq, if_neg hamp, hi, List.length_cons,
      Nat.add_assoc, Nat.add_comm 1]
    rfl

theorem pushed_ordinary (hv : ∀ c ∈ v, Ordinary c) (done : List CChar) (index : ℕ) :
    pushed done index (v ++ s) = pushed (done ++ v) index s := by
  rw [pushed, splitFrom_ordinary hv, pushed, List.length_append, List.append_assoc]

/-- A value ends where a NUL follows, or nothing. -/
theorem text_ordinary (hv : ∀ c ∈ v, Ordinary c) (hs : ∀ c ∈ s.head?, c = 0) :
    text (v ++ s) = v := by
  refine takeWhile_append_stop (fun c hc => decide_eq_true (hv c hc).2.2) fun c hc => ?_
  rw [hs c hc]
  decide

/-- A value ends at the next `&`, which the loop overwrites, or at the end of the string. -/
theorem text_splitFrom (hv : ∀ c ∈ v, Ordinary c) (hs : s = [] ∨ s.head? = some (ch '&'))
    (i index : ℕ) : text (splitFrom i index (v ++ s)).1 = v := by
  rw [splitFrom_ordinary hv]
  apply text_ordinary hv
  intro c hc
  cases hs with
  | inl hnil =>
    rw [hnil] at hc
    cases hc
  | inr hamp =>
    obtain ⟨t,rfl⟩ := List.head?_eq_some_iff.mp hamp
    have hne : ch '&' ≠ ch '=' := by decide
    rw [splitFrom, if_neg hne, if_pos rfl] at hc
    split_ifs at hc <;> exact (Option.some.inj hc).symm

/-- One turn of the loop: the character it leaves at its position, and what it pushes. -/
theorem pushed_cons {done : List CChar} {c d : CChar} {index next : ℕ} {ps : List ℕ}
    (h : splitFrom done.length index (c::s) =
      (d::(splitFrom (done.length+1) next s).1,ps ++ (splitFrom (done.length+1) next s).2)) :
    pushed done index (c::s) = ps.map (fun p =>
      text ((done ++ d::(splitFrom (done.length+1) next s).1).drop p)) ++
        pushed (done ++ [d]) next s := by
  have hlen : (done ++ [d]).length = done.length+1 := by simp
  rw [pushed, h, List.map_append, pushed, hlen]
  simp only [List.append_assoc, List.singleton_append]

/-- The value of a parameter, and what follows it. -/
theorem pushed_value (hv : ∀ c ∈ v, Ordinary c) (hs : s = [] ∨ s.head? = some (ch '&'))
    (done : List CChar) (index : ℕ) :
    pushed done index (ch '='::(v ++ s)) = v::pushed (done ++ [ch '='] ++ v) (index+1) s := by
  have hstep : splitFrom done.length index (ch '='::(v ++ s)) =
      (ch '='::(splitFrom (done.length+1) (index+1) (v ++ s)).1,
        [done.length+1] ++ (splitFrom (done.length+1) (index+1) (v ++ s)).2) := by
    rw [splitFrom, if_pos rfl]
    rfl
  have hdrop (t : List CChar) : (done ++ ch '='::t).drop (done.length+1) = t := by
    rw [List.drop_append, List.drop_eq_nil_of_le (Nat.le_succ _), Nat.add_sub_cancel_left]
    rfl
  rw [pushed_cons hstep, List.map_singleton, hdrop, text_splitFrom hv hs, pushed_ordinary hv]
  rfl

theorem splitFrom_amp (i index : ℕ) :
    splitFrom i index (ch '&'::s) =
      if index = 2 ∧ s.headD 0 ≠ ch 's' then
        (0::(splitFrom (i+1) (index+1) s).1,[i] ++ (splitFrom (i+1) (index+1) s).2)
      else (0::(splitFrom (i+1) index s).1,[] ++ (splitFrom (i+1) index s).2) := by
  have hne : ch '&' ≠ ch '=' := by decide
  rw [splitFrom, if_neg hne, if_pos rfl]
  rfl

/-- A `&` is overwritten; nothing is pushed unless a field is missing. -/
theorem pushed_amp {index : ℕ} (h : index ≠ 2 ∨ s.headD 0 = ch 's') (done : List CChar) :
    pushed done index (ch '&'::s) = pushed (done ++ [0]) index s := by
  have hno : ¬(index = 2 ∧ s.headD 0 ≠ ch 's') := by tauto
  exact pushed_cons ((splitFrom_amp _ _).trans (if_neg hno))

/-- Where the third parameter is not `sex`, an empty string stands for it. -/
theorem pushed_missing (h : s.headD 0 ≠ ch 's') (done : List CChar) :
    pushed done 2 (ch '&'::s) = []::pushed (done ++ [0]) 3 s := by
  rw [pushed_cons ((splitFrom_amp _ _).trans (if_pos ⟨rfl,h⟩)), List.map_singleton, List.drop_left]
  rfl

/-- A parameter `key=value`. -/
theorem pushed_param {key : List CChar} (hkey : ∀ c ∈ key, Ordinary c) (hv : ∀ c ∈ v, Ordinary c)
    (hs : s = [] ∨ s.head? = some (ch '&')) (done : List CChar) (index : ℕ) :
    pushed done index (key ++ [ch '='] ++ (v ++ s)) =
      v::pushed (done ++ key ++ [ch '='] ++ v) (index+1) s := by
  rw [List.append_assoc, pushed_ordinary hkey]
  exact pushed_value hv hs _ _

end Loop

section Form
variable {op name sex age school : List CChar}

theorem splitQuery_eq (query : List CChar) :
    splitQuery query = match pushed [] 0 query with
      | op::name::sex::age::school::_ => some ⟨op,name,sex,age,school⟩
      | _ => none := rfl

/-- The last two parameters, without the `&` before them. -/
theorem pushed_age (hage : ∀ c ∈ age, Ordinary c) (hschool : ∀ c ∈ school, Ordinary c)
    (done : List CChar) :
    pushed done 3 (cstr "age=" ++ (age ++ (cstr "&school=" ++ (school ++ [])))) = [age,school] := by
  have hkey : ∀ c ∈ cstr "age", Ordinary c := by decide
  have hkey' : ∀ c ∈ cstr "school", Ordinary c := by decide
  calc pushed done 3 (cstr "age=" ++ (age ++ (cstr "&school=" ++ (school ++ []))))
    _ = age::pushed _ 4 (cstr "&school=" ++ (school ++ [])) :=
        pushed_param hkey hage (.inr rfl) done 3
    _ = age::pushed _ 4 (cstr "school=" ++ (school ++ [])) :=
        congrArg (age::·) (pushed_amp (.inl (by decide)) _)
    _ = [age,school] := congrArg (age::·) (pushed_param hkey' hschool (.inl rfl) _ 4)

/-- The first two parameters, whatever follows them. -/
theorem pushed_op (hop : ∀ c ∈ op, Ordinary c) (hname : ∀ c ∈ name, Ordinary c)
    {s : List CChar} (hs : s.head? = some (ch '&')) :
    ∃ done, pushed [] 0 (cstr "operation=" ++ (op ++ (cstr "&name=" ++ (name ++ s)))) =
      op::name::pushed done 2 s := by
  have hkey : ∀ c ∈ cstr "operation", Ordinary c := by decide
  have hkey' : ∀ c ∈ cstr "name", Ordinary c := by decide
  refine ⟨[] ++ cstr "operation" ++ [ch '='] ++ op ++ [0] ++ cstr "name" ++ [ch '='] ++ name,?_⟩
  calc pushed [] 0 (cstr "operation=" ++ (op ++ (cstr "&name=" ++ (name ++ s))))
    _ = op::pushed _ 1 (cstr "&name=" ++ (name ++ s)) := pushed_param hkey hop (.inr rfl) [] 0
    _ = op::pushed _ 1 (cstr "name=" ++ (name ++ s)) :=
        congrArg (op::·) (pushed_amp (.inl (by decide)) _)
    _ = op::name::pushed _ 2 s := congrArg (op::·) (pushed_param hkey' hname (.inr hs) _ 1)

/-- The loop gives the fields of a form their own values, and an empty string to `sex` if the form
does not have it. -/
theorem splitQuery_form (hop : ∀ c ∈ op, Ordinary c) (hname : ∀ c ∈ name, Ordinary c)
    (hsex : ∀ c ∈ sex, Ordinary c) (hage : ∀ c ∈ age, Ordinary c)
    (hschool : ∀ c ∈ school, Ordinary c) :
    splitQuery (formQuery op name sex age school) = some ⟨op,name,sex,age,school⟩ ∧
      splitQuery (formQueryNoSex op name age school) = some ⟨op,name,[],age,school⟩ := by
  have htail (done : List CChar) := pushed_age hage hschool done
  rw [List.append_nil] at htail
  constructor
  · have hkey : ∀ c ∈ cstr "sex", Ordinary c := by decide
    obtain ⟨done,hfirst⟩ := pushed_op hop hname
      (s := cstr "&sex=" ++ (sex ++ (cstr "&age=" ++ (age ++ (cstr "&school=" ++ school))))) rfl
    have hthird : pushed done 2
        (cstr "&sex=" ++ (sex ++ (cstr "&age=" ++ (age ++ (cstr "&school=" ++ school))))) =
        [sex,age,school] := by
      calc _ = pushed _ 2
            (cstr "sex=" ++ (sex ++ (cstr "&age=" ++ (age ++ (cstr "&school=" ++ school))))) :=
            pushed_amp (.inr rfl) _
        _ = sex::pushed _ 3 (cstr "&age=" ++ (age ++ (cstr "&school=" ++ school))) :=
            pushed_param hkey hsex (.inr rfl) _ 2
        _ = sex::pushed _ 3 (cstr "age=" ++ (age ++ (cstr "&school=" ++ school))) :=
            congrArg (sex::·) (pushed_amp (.inl (by decide)) _)
        _ = [sex,age,school] := congrArg (sex::·) (htail _)
    rw [splitQuery_eq, formQuery]
    simp only [List.append_assoc]
    rw [hfirst, hthird]
  · -- the letter after the `&` is that of `age`
    have hne : (cstr "age=" ++ (age ++ (cstr "&school=" ++ school))).headD 0 ≠ ch 's' := by
      change ch 'a' ≠ ch 's'
      decide
    obtain ⟨done,hfirst⟩ := pushed_op hop hname
      (s := cstr "&age=" ++ (age ++ (cstr "&school=" ++ school))) rfl
    have hthird : pushed done 2 (cstr "&age=" ++ (age ++ (cstr "&school=" ++ school))) =
        [[],age,school] := by
      calc _ = []::pushed _ 3 (cstr "age=" ++ (age ++ (cstr "&school=" ++ school))) :=
            pushed_missing hne done
        _ = [[],age,school] := congrArg ([]::·) (htail _)
    rw [splitQuery_eq, formQueryNoSex]
    simp only [List.append_assoc]
    rw [hfirst, hthird]

/-- Values that read like parameters stay values. -/
theorem splitQuery_names :
    splitQuery (formQuery (cstr "insert") (cstr "sex") [] (cstr "school") []) =
        some ⟨cstr "insert",cstr "sex",[],cstr "school",[]⟩ ∧
      splitQuery (formQueryNoSex (cstr "insert") (cstr "sex") (cstr "school") []) =
        some ⟨cstr "insert",cstr "sex",[],cstr "school",[]⟩ :=
  splitQuery_form (by decide) (by decide) (by decide) (by decide) (by decide)

end Form

/-- A `&` behind `k` of the `=` that is not followed by an `s`. -/
def MissesSex (k : ℕ) (s : List CChar) : Prop :=
  ∃ a b, s = a ++ ch '&'::b ∧ a.count (ch '=') = k ∧ b.headD 0 ≠ ch 's'

section Count
variable {s : List CChar} {k : ℕ}

theorem not_missesSex_nil : ¬MissesSex k [] := by
  rintro ⟨a,b,h,-⟩
  exact List.append_ne_nil_of_right_ne_nil a (List.cons_ne_nil _ _) h.symm

/-- The `&` is the first character, or it comes later. -/
theorem missesSex_cons {c : CChar} : MissesSex k (c::s) ↔
    (c = ch '&' ∧ k = 0 ∧ s.headD 0 ≠ ch 's') ∨
      ∃ n, MissesSex n s ∧ k = n+(if c = ch '=' then 1 else 0) := by
  constructor
  · rintro ⟨a,b,h,rfl,hb⟩
    cases a with
    | nil =>
      obtain ⟨rfl,rfl⟩ := List.cons_eq_cons.mp h
      exact .inl ⟨rfl,List.count_nil,hb⟩
    | cons d a =>
      obtain ⟨rfl,rfl⟩ := List.cons_eq_cons.mp h
      refine .inr ⟨_,⟨a,b,rfl,rfl,hb⟩,?_⟩
      rw [List.count_cons]
      simp only [beq_iff_eq]
  · rintro (⟨rfl,rfl,hb⟩ | ⟨n,⟨a,b,rfl,rfl,hb⟩,rfl⟩)
    · exact ⟨[],s,rfl,List.count_nil,hb⟩
    · refine ⟨c::a,b,rfl,?_,hb⟩
      rw [List.count_cons]
      simp only [beq_iff_eq]

theorem missesSex_eq : MissesSex (k+1) (ch '='::s) ↔ MissesSex k s := by
  rw [missesSex_cons, if_pos rfl]
  constructor
  · rintro (⟨h,-⟩ | ⟨n,h,hk⟩)
    · exact absurd h (by decide)
    · rwa [Nat.succ_injective hk]
  · exact fun h => .inr ⟨k,h,rfl⟩

theorem missesSex_other {c : CChar} (heq : c ≠ ch '=') (hamp : c ≠ ch '&') :
    MissesSex k (c::s) ↔ MissesSex k s := by
  rw [missesSex_cons, if_neg heq, or_iff_right fun h => hamp h.1]
  exact ⟨fun ⟨_,h,hk⟩ => hk ▸ h,fun h => ⟨k,h,rfl⟩⟩

theorem missesSex_amp : MissesSex k (ch '&'::s) ↔
    (k = 0 ∧ s.headD 0 ≠ ch 's') ∨ MissesSex k s := by
  have hne : ch '&' ≠ ch '=' := by decide
  rw [missesSex_cons, if_neg hne, and_iff_right rfl]
  exact or_congr_right ⟨fun ⟨_,h,hk⟩ => hk ▸ h,fun h => ⟨k,h,rfl⟩⟩

/-- One pointer is pushed for each `=` if none is pushed for a `&`. -/
theorem length_splitFrom {i index : ℕ} (h : ∀ k, index+k = 2 → ¬MissesSex k s) :
    (splitFrom i index s).2.length = s.count (ch '=') := by
  induction s generalizing i index with
  | nil => rfl
  | cons c s ih =>
    by_cases heq : c = ch '='
    · subst heq
      rw [splitFrom, if_pos rfl, List.count_cons_self]
      exact congrArg (·+1) (ih fun k hk hm => h (k+1) (by omega) (missesSex_eq.mpr hm))
    · rw [List.count_cons_of_ne heq]
      by_cases hamp : c = ch '&'
      · subst hamp
        have hno : ¬(index = 2 ∧ s.headD 0 ≠ ch 's') := by
          rintro ⟨rfl,hs⟩
          exact h 0 rfl (missesSex_amp.mpr (.inl ⟨rfl,hs⟩))
        rw [splitFrom_amp, if_neg hno]
        exact ih fun k hk hm => h k hk (missesSex_amp.mpr (.inr hm))
      · rw [splitFrom, if_neg heq, if_neg hamp]
        exact ih fun k hk hm => h k hk ((missesSex_other heq hamp).mpr hm)

/-- At most one pointer is pushed for a `&`, since `index` is 3 afterwards. -/
theorem length_splitFrom_missesSex {i index : ℕ} (hk : index+k = 2) (h : MissesSex k s) :
    (splitFrom i index s).2.length = s.count (ch '=')+1 := by
  induction s generalizing i index k with
  | nil => exact absurd h not_missesSex_nil
  | cons c s ih =>
    by_cases heq : c = ch '='
    · subst heq
      cases k with
      | zero =>
        rw [missesSex_cons, if_pos rfl] at h
        rcases h with ⟨h,-⟩ | ⟨n,-,h⟩
        · exact absurd h (by decide)
        · omega
      | succ k =>
        rw [splitFrom, if_pos rfl, List.count_cons_self]
        exact congrArg (·+1) (ih (by omega) (missesSex_eq.mp h))
    · rw [List.count_cons_of_ne heq]
      by_cases hamp : c = ch '&'
      · subst hamp
        rw [splitFrom_amp]
        by_cases hyes : index = 2 ∧ s.headD 0 ≠ ch 's'
        · rw [if_pos hyes]
          exact congrArg (·+1) (length_splitFrom fun k hk' => by omega)
        · rw [if_neg hyes]
          refine ih hk ((missesSex_amp.mp h).resolve_left ?_)
          rintro ⟨rfl,hs⟩
          exact hyes ⟨hk,hs⟩
      · rw [splitFrom, if_neg heq, if_neg hamp]
        exact ih hk ((missesSex_other heq hamp).mp h)

/-- The vector has five entries. -/
theorem splitQuery_isSome_iff (query : List CChar) : (splitQuery query).isSome ↔
    5 ≤ query.count (ch '=') ∨ (query.count (ch '=') = 4 ∧ MissesSex 2 query) := by
  have hlen : (splitQuery query).isSome ↔ 5 ≤ (splitFrom 0 0 query).2.length := by
    rw [splitQuery]
    rcases splitFrom 0 0 query with ⟨q,_ | ⟨a,_ | ⟨b,_ | ⟨c,_ | ⟨d,_ | ⟨e,v⟩⟩⟩⟩⟩⟩ <;> simp
  rw [hlen]
  by_cases h : MissesSex 2 query
  · rw [length_splitFrom_missesSex rfl h, and_iff_left h]
    omega
  · have hnot : ∀ k, 0+k = 2 → ¬MissesSex k query := by
      rintro k hk
      obtain rfl : k = 2 := by omega
      exact h
    rw [length_splitFrom hnot, or_iff_left fun h' => h h'.2]

end Count
end LibeventHttpd.MySql
