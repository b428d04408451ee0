import LibeventHttpd.MySql.SplitQuery
import LibeventHttpd.Sql.Lexer

/-! The statements that the database program sends, and the shapes they are meant to have. -/
namespace LibeventHttpd.MySql
open Sql

/-- `_sex[0] == 'l'` -/
def sexCode (sex : List CChar) : List CChar :=
  if sex.head? = some (ch 'l') then cstr "F" else cstr "M"

/-- The text so far and `flag`, after one of the conditions behind the first: it is left out where
its field is empty. -/
def addCondition (field text : List CChar) (q : List CChar × Bool) : List CChar × Bool :=
  if field ≠ [] then (q.1 ++ (if q.2 then cstr " and " else cstr " where ") ++ text,true) else q

/-- The conditions that `Select` and `Delete` append to `op_query`. -/
def conditions (db : Fields) (opQuery : List CChar) : List CChar × Bool :=
  let q :=
    if db.name ≠ [] then (opQuery ++ cstr " where Name=\"" ++ db.name ++ cstr "\"",true)
    else (opQuery,false)
  let q := addCondition db.sex (cstr "Sex='" ++ sexCode db.sex ++ cstr "'") q
  let q := addCondition db.age (cstr "Age=" ++ db.age) q
  addCondition db.school (cstr "School=\"" ++ db.school ++ cstr "\"") q

def selectQuery (db : Fields) : List CChar := (conditions db (cstr "select * from Person")).1

def deleteQuery (db : Fields) : List CChar :=
  let q := conditions db (cstr "delete from Person")
  if q.2 then q.1 else cstr "delete * from Person"

/-- The field that `Insert` complains about. -/
def missingField (db : Fields) : Option (List CChar) :=
  if db.name = [] then some (cstr "name")
  else if db.sex = [] then some (cstr "sex")
  else if db.age = [] then some (cstr "age")
  else if db.school = [] then some (cstr "school")
  else none

def insertQuery (db : Fields) : List CChar :=
  cstr "insert into Person (Name, Sex, Age, School, Registration_time) values (\"" ++ db.name ++
    cstr "\", '" ++ sexCode db.sex ++ cstr "', " ++ db.age ++ cstr ", \"" ++ db.school ++
    cstr "\", NOW())"

/-- A place in a statement for a literal. The code of the sex is all that is known of that field. -/
inductive Literal where
  | name
  | sex (lady : Bool)
  | age
  | school

/-- A statement with the contents of the fields left open. -/
inductive Slot where
  | token (t : Token)
  | literal (l : Literal)

/-- Which fields are not empty, and the code of the sex. -/
structure Presence where
  name : Bool
  sex : Option Bool
  age : Bool
  school : Bool

def presence (db : Fields) : Presence where
  name := db.name ≠ []
  sex := if db.sex = [] then none else some (db.sex.head? = some (ch 'l'))
  age := db.age ≠ []
  school := db.school ≠ []

section Templates
variable (p : Presence)

/-- The columns that are compared, with the literal of each. -/
def compared : List (List CChar × Literal) :=
  (if p.name then [(cstr "Name",.name)] else []) ++
    (p.sex.toList.map fun lady => (cstr "Sex",.sex lady)) ++
    (if p.age then [(cstr "Age",.age)] else []) ++
    (if p.school then [(cstr "School",.school)] else [])

/-- The columns before that of the age. -/
def beforeAge : List (List CChar × Literal) :=
  (if p.name then [(cstr "Name",.name)] else []) ++
    (p.sex.toList.map fun lady => (cstr "Sex",.sex lady))

def behindAge : List (List CChar × Literal) := if p.school then [(cstr "School",.school)] else []

def conditionSlots : Bool → List (List CChar × Literal) → List Slot
  | _,[] => []
  | flag,(column,l)::ks =>
    .token (.word (if flag then cstr "and" else cstr "where"))::.token (.word column)::
      .token (.mark (ch '='))::.literal l::conditionSlots true ks

def word (s : String) : Slot := .token (.word (cstr s))
def mark (c : Char) : Slot := .token (.mark (ch c))

def selectTemplate : List Slot :=
  [word "select",mark '*',word "from",word "Person"] ++ conditionSlots false (compared p)

def deleteTemplate : List Slot :=
  match compared p with
  | [] => [word "delete",mark '*',word "from",word "Person"]
  | ks => [word "delete",word "from",word "Person"] ++ conditionSlots false ks

def insertHead : List Slot :=
  [word "insert",word "into",word "Person",mark '(',word "Name",mark ',',word "Sex",mark ',',
    word "Age",mark ',',word "School",mark ',',word "Registration_time",mark ')',word "values",
    mark '(']

def insertTemplate : List Slot :=
  insertHead ++ [.literal .name,mark ',',.literal (.sex (p.sex.getD false)),mark ',',
    .literal .age,mark ',',.literal .school,mark ',',word "NOW",mark '(',mark ')',mark ')']

end Templates

def sexLetter (lady : Bool) : List CChar := if lady then cstr "F" else cstr "M"

section Literals
variable (db : Fields)

/-- The literal token with the value of its field; for the age it is the number that the field is
by itself. -/
def Literal.fill : Literal → Token
  | .name => .str db.name
  | .sex lady => .str (sexLetter lady)
  | .age => .number ((numberIn db.age).getD [])
  | .school => .str db.school

/-- How the literal is written. -/
def Literal.text : Literal → List CChar
  | .name => quote::(db.name ++ [quote])
  | .sex lady => ch '\''::(sexLetter lady ++ [ch '\''])
  | .age => db.age
  | .school => quote::(db.school ++ [quote])

/-- The value may be written as it is. -/
def Literal.Good : Literal → Prop
  | .name => Verbatim db.name
  | .sex _ => True
  | .age => IsNumber db.age ∧ ¬OpenComment db.age
  | .school => Verbatim db.school

def Slot.fill : Slot → Token
  | .token t => t
  | .literal l => l.fill db

/-- The age is a number, and the text is lexed as the template with the values of the fields filled
in. -/
def Shaped (q : List CChar) (template : List Slot) : Prop :=
  (db.age ≠ [] → IsNumber db.age) ∧ lex q = template.map (Slot.fill db)

instance (q : List CChar) (template : List Slot) : Decidable (Shaped db q template) :=
  inferInstanceAs (Decidable ((_ → _) ∧ _ = _))

/-- No quote and no escape in name and school, and a number for the age. It does not end in a
comment that takes up the school behind it. -/
def Harmless : Prop :=
  Verbatim db.name ∧
    (db.age = [] ∨ IsNumber db.age ∧ (db.school = [] ∨ ¬OpenComment db.age)) ∧ Verbatim db.school

instance : Decidable (Harmless db) :=
  inferInstanceAs (Decidable (_ ∧ (_ ∨ _ ∧ (_ ∨ _)) ∧ _))

/-- The conditions as they are written. -/
def conditionText : Bool → List (List CChar × Literal) → List CChar
  | _,[] => []
  | flag,(column,l)::ks =>
    (if flag then cstr " and " else cstr " where ") ++ column ++ cstr "=" ++ l.text db ++
      conditionText true ks

end Literals

section Lexing
variable (db : Fields) {r : List CChar} {ts : List Token}

/-- A literal before a delimiter is lexed as its value exactly if that may be written as it is. -/
theorem lexFrom_literal (hr : Delimited r) {l : Literal} (hl : l ≠ .age) :
    lexFrom .blank (l.text db ++ r) = l.fill db::ts ↔ l.Good db ∧ ts = lexFrom .blank r := by
  have hquoted (v : List CChar) : lexFrom .blank (quote::(v ++ [quote]) ++ r) = .str v::ts ↔
      Verbatim v ∧ ts = lexFrom .blank r := by
    have h : lexFrom (.str quote []) (v ++ quote::r) = .str ([] ++ v)::ts ↔
        Verbatim v ∧ ts = lexFrom .blank r := literal_iff hr []
    rw [List.nil_append] at h
    rw [← h, List.cons_append, List.append_assoc]
    rfl
  cases l with
  | name => exact hquoted db.name
  | school => exact hquoted db.school
  | age => exact absurd rfl hl
  | sex lady =>
    have hclosed : lexFrom .blank (Literal.text db (.sex lady) ++ r) =
        lexFrom (.closed (ch '\'') (sexLetter lady)) r := by cases lady <;> rfl
    have hq : ∀ c ∈ r.head?, c ≠ ch '\'' := by
      intro c hc
      cases hr c hc with
      | inl h => rw [h]; decide
      | inr h => rw [h]; decide
    rw [hclosed, lexFrom_closed hq]
    simp [Literal.fill, Literal.Good, eq_comm]

/-- A number is lexed as itself before a delimiter, unless a comment takes up what comes behind
it. -/
theorem lexFrom_age (hr : Delimited r) (h : IsNumber db.age)
    (hts : ∀ s, s = .line ∨ s = .dashes → lexFrom s r ≠ ts) :
    lexFrom .blank (Literal.age.text db ++ r) = Literal.age.fill db::ts ↔
      Literal.age.Good db ∧ ts = lexFrom .blank r := by
  rw [Literal.Good, and_iff_right h]
  exact number_iff h.lex_eq hr hts

theorem conditionText_delimited (flag : Bool) (ks : List (List CChar × Literal)) :
    Delimited (conditionText db flag ks) := by
  cases ks with
  | nil => exact fun c hc => by cases hc
  | cons k ks =>
    intro c hc
    left
    cases flag <;> exact (Option.some.inj hc).symm

/-- A condition up to its literal. -/
theorem lexFrom_condition {column : List CChar} (h : IsWord column) (flag : Bool)
    (t : List CChar) :
    lexFrom .blank ((if flag then cstr " and " else cstr " where ") ++
        (column ++ (cstr "=" ++ t))) =
      .word (if flag then cstr "and" else cstr "where")::.word column::.mark (ch '=')::
        lexFrom .blank t := by
  have hstart (t : List CChar) :
      lexFrom .blank ((if flag then cstr " and " else cstr " where ") ++ t) =
        .word (if flag then cstr "and" else cstr "where")::lexFrom .blank t := by
    cases flag <;> rfl
  have hequals (t : List CChar) :
      lexFrom .blank (cstr "=" ++ t) = .mark (ch '=')::lexFrom .blank t := rfl
  have hend (t : List CChar) : ∀ c ∈ (cstr "=" ++ t).head?, ¬IsIdent c := by
    intro c hc
    obtain rfl : ch '=' = c := Option.some.inj hc
    decide
  rw [hstart, lexFrom_word h (hend _), hequals]

/-- The conditions are lexed as their template exactly if every literal may be written as it is. -/
theorem lexFrom_conditions {ks : List (List CChar × Literal)} (hr : Delimited r)
    (hks : ∀ k ∈ ks, IsWord k.1 ∧ k.2 ≠ .age) (flag : Bool) :
    lexFrom .blank (conditionText db flag ks ++ r) =
        (conditionSlots flag ks).map (Slot.fill db) ++ ts ↔
      (∀ k ∈ ks, k.2.Good db) ∧ lexFrom .blank r = ts := by
  induction ks generalizing flag with
  | nil => simp [conditionText, conditionSlots]
  | cons k ks ih =>
    obtain ⟨column,l⟩ := k
    obtain ⟨⟨hcolumn,hl⟩,hrest⟩ := List.forall_mem_cons.mp hks
    have hnext := ih hrest true
    have hdelimited : Delimited (conditionText db true ks ++ r) := by
      cases ks with
      | nil => exact hr
      | cons k ks => exact fun c hc => .inl (Option.some.inj hc).symm
    simp only [conditionText, conditionSlots, List.append_assoc]
    rw [lexFrom_condition hcolumn]
    simp only [List.map_cons, List.cons_append, Slot.fill, List.cons.injEq, true_and]
    rw [lexFrom_literal db hdelimited hl, eq_comm, hnext, List.forall_mem_cons, and_assoc]

theorem sexCode_eq (sex : List CChar) : sexCode sex = sexLetter (sex.head? = some (ch 'l')) := by
  unfold sexCode sexLetter
  split_ifs <;> simp_all

theorem conditionText_append (flag : Bool) (ks ks' : List (List CChar × Literal)) :
    conditionText db flag (ks ++ ks') =
      conditionText db flag ks ++ conditionText db (flag || decide (ks ≠ [])) ks' := by
  induction ks generalizing flag with
  | nil => simp [conditionText]
  | cons k ks ih =>
    obtain ⟨column,l⟩ := k
    rw [List.cons_append, conditionText, conditionText, ih, List.append_assoc]
    simp

/-- One more condition behind those that are written, if its field is not empty. -/
theorem addCondition_eq {field text column : List CChar} {l : Literal}
    (htext : text = column ++ cstr "=" ++ l.text db) (opQuery : List CChar)
    (ks : List (List CChar × Literal)) :
    addCondition field text (opQuery ++ conditionText db false ks,decide (ks ≠ [])) =
      let ks' := ks ++ if field ≠ [] then [(column,l)] else []
      (opQuery ++ conditionText db false ks',decide (ks' ≠ [])) := by
  by_cases h : field = []
  · simp [addCondition, h]
  · simp [addCondition, h, conditionText_append, conditionText, htext]

/-- The conditions that are appended, and `flag`. -/
theorem conditions_eq (opQuery : List CChar) :
    conditions db opQuery = (opQuery ++ conditionText db false (compared (presence db)),
      decide (compared (presence db) ≠ [])) := by
  have hname : (if db.name ≠ [] then (opQuery ++ cstr " where Name=\"" ++ db.name ++ cstr "\"",true)
      else (opQuery,false)) =
      let ks := if db.name ≠ [] then [(cstr "Name",Literal.name)] else []
      (opQuery ++ conditionText db false ks,decide (ks ≠ [])) := by
    split_ifs
    · simp [conditionText, Literal.text, cstr, ch, quote]
    · simp [conditionText]
  have hsex : cstr "Sex='" ++ sexCode db.sex ++ cstr "'" = cstr "Sex" ++ cstr "=" ++
      (Literal.sex (db.sex.head? = some (ch 'l'))).text db := by
    rw [sexCode_eq]
    simp [Literal.text, cstr, ch]
  have hage : cstr "Age=" ++ db.age = cstr "Age" ++ cstr "=" ++ Literal.age.text db := rfl
  have hschool : cstr "School=\"" ++ db.school ++ cstr "\"" =
      cstr "School" ++ cstr "=" ++ Literal.school.text db := by
    simp [Literal.text, cstr, ch, quote]
  rw [conditions, hname, addCondition_eq db hsex, addCondition_eq db hage,
    addCondition_eq db hschool]
  by_cases h : db.sex = []
  · simp [compared, presence, h]
  · simp [compared, presence, h]

theorem forall_compared_iff (p : Presence) {P : List CChar × Literal → Prop} :
    (∀ k ∈ compared p, P k) ↔ (p.name → P (cstr "Name",.name)) ∧
      (∀ lady ∈ p.sex, P (cstr "Sex",.sex lady)) ∧ (p.age → P (cstr "Age",.age)) ∧
        (p.school → P (cstr "School",.school)) := by
  obtain ⟨name,sex,age,school⟩ := p
  simp only [compared, List.forall_mem_append, and_assoc]
  refine and_congr ?_ (and_congr ?_ (and_congr ?_ ?_))
  · cases name <;> simp
  · cases sex <;> simp
  · cases age <;> simp
  · cases school <;> simp

theorem isWord_compared (p : Presence) : ∀ k ∈ compared p, IsWord k.1 := by
  have hsex : IsWord (cstr "Sex") := by decide
  rw [forall_compared_iff]
  exact ⟨fun _ => by decide,fun _ _ => hsex,fun _ => by decide,fun _ => by decide⟩

theorem compared_eq (p : Presence) : compared p =
    beforeAge p ++ ((if p.age then [(cstr "Age",.age)] else []) ++ behindAge p) := by
  simp only [compared, beforeAge, behindAge, List.append_assoc]

theorem conditionSlots_append (flag : Bool) (ks ks' : List (List CChar × Literal)) :
    conditionSlots flag (ks ++ ks') =
      conditionSlots flag ks ++ conditionSlots (flag || decide (ks ≠ [])) ks' := by
  induction ks generalizing flag with
  | nil => simp [conditionSlots]
  | cons k ks ih =>
    obtain ⟨column,l⟩ := k
    rw [List.cons_append, conditionSlots, conditionSlots, ih]
    simp

theorem isWord_beforeAge (p : Presence) : ∀ k ∈ beforeAge p, IsWord k.1 ∧ k.2 ≠ .age := by
  have hname : IsWord (cstr "Name") := by decide
  have hsex : IsWord (cstr "Sex") := by decide
  obtain ⟨name,sex,age,school⟩ := p
  cases name <;> cases sex <;> simp [beforeAge, hname, hsex]

theorem good_beforeAge_iff :
    (∀ k ∈ beforeAge (presence db), k.2.Good db) ↔ Verbatim db.name := by
  cases hname : db.name <;> by_cases hsex : db.sex = [] <;>
    simp [beforeAge, presence, Literal.Good, hname, hsex, Verbatim]

/-- The school alone. -/
theorem lexFrom_behindAge (flag : Bool) :
    lexFrom .blank (conditionText db flag (behindAge (presence db))) =
        (conditionSlots flag (behindAge (presence db))).map (Slot.fill db) ↔
      Verbatim db.school := by
  have hword : IsWord (cstr "School") := by decide
  have hks : ∀ k ∈ behindAge (presence db), IsWord k.1 ∧ k.2 ≠ .age := by
    by_cases h : db.school = [] <;> simp [behindAge, presence, h, hword]
  have hgood : (∀ k ∈ behindAge (presence db), k.2.Good db) ↔ Verbatim db.school := by
    cases h : db.school <;> simp [behindAge, presence, Literal.Good, h, Verbatim]
  have hend : Delimited [] := fun c hc => by cases hc
  have hlex := @lexFrom_conditions db [] [] _ hend hks flag
  rw [List.append_nil, List.append_nil, hgood] at hlex
  rw [hlex]
  exact and_iff_left rfl

/-- A comment takes up the school, or a part of it that is too short for its literal. -/
theorem not_school_in_comment {s : State} (hs : s = .line ∨ s = .dashes) :
    lexFrom s (conditionText db true [(cstr "School",.school)]) ≠
      (conditionSlots true [(cstr "School",.school)]).map (Slot.fill db) := by
  intro h
  have hline : lexFrom s (conditionText db true [(cstr "School",.school)]) =
      lexFrom .line (db.school ++ [quote]) := by
    simp only [conditionText, List.append_nil]
    obtain rfl | rfl := hs <;> rfl
  have hlen := lengths_lexFrom .line (db.school ++ [quote])
  rw [← hline, h] at hlen
  simp [conditionSlots, Slot.fill, Literal.fill, Token.length, State.length] at hlen
  omega

/-- The conditions from the age on. -/
theorem lexFrom_fromAge (hage : db.age ≠ [] → IsNumber db.age) (flag : Bool) :
    let ks := (if (presence db).age then [(cstr "Age",.age)] else []) ++ behindAge (presence db)
    lexFrom .blank (conditionText db flag ks) = (conditionSlots flag ks).map (Slot.fill db) ↔
      (db.age = [] ∨ db.school = [] ∨ ¬OpenComment db.age) ∧ Verbatim db.school := by
  intro ks
  by_cases hempty : db.age = []
  · have hks : ks = behindAge (presence db) := by simp [ks, presence, hempty]
    rw [hks, lexFrom_behindAge, and_iff_right (.inl hempty)]
  have hks : ks = (cstr "Age",.age)::behindAge (presence db) := by simp [ks, presence, hempty]
  have hword : IsWord (cstr "Age") := by decide
  rw [hks]
  simp only [conditionText, conditionSlots, List.append_assoc]
  rw [lexFrom_condition hword]
  simp only [List.map_cons, Slot.fill, List.cons.injEq, true_and]
  by_cases hschool : db.school = []
  · have hlast : behindAge (presence db) = [] := by simp [behindAge, presence, hschool]
    rw [hlast, hschool]
    refine iff_of_true ?_ ⟨.inr (.inl rfl),trivial⟩
    rw [conditionText, List.append_nil]
    exact (hage hempty).lex_eq
  · have hlast : behindAge (presence db) = [(cstr "School",.school)] := by
      simp [behindAge, presence, hschool]
    have hnext := lexFrom_behindAge db true
    rw [hlast] at hnext ⊢
    rw [lexFrom_age db (conditionText_delimited db _ _) (hage hempty)
      fun s hs => not_school_in_comment db hs, eq_comm (b := lexFrom _ _), hnext]
    simp [Literal.Good, hempty, hschool, hage hempty]

/-- A statement made of a fixed text and conditions. -/
theorem shaped_conditions_iff {opQuery : List CChar} {slots : List Slot}
    (h : ∀ t, Delimited t →
      lex (opQuery ++ t) = slots.map (Slot.fill db) ++ lexFrom .blank t) :
    Shaped db (opQuery ++ conditionText db false (compared (presence db)))
      (slots ++ conditionSlots false (compared (presence db))) ↔ Harmless db := by
  rw [Shaped, h _ (conditionText_delimited db _ _), List.map_append, List.append_cancel_left_eq,
    compared_eq, conditionText_append, conditionSlots_append, List.map_append,
    lexFrom_conditions db (conditionText_delimited db _ _) (isWord_beforeAge _),
    good_beforeAge_iff, Harmless]
  constructor
  · rintro ⟨hage,hname,hrest⟩
    obtain ⟨hcomment,hschool⟩ := (lexFrom_fromAge db hage _).mp hrest
    refine ⟨hname,?_,hschool⟩
    by_cases hempty : db.age = []
    · exact .inl hempty
    · exact .inr ⟨hage hempty,hcomment.resolve_left hempty⟩
  · rintro ⟨hname,hnumber,hschool⟩
    have hage : db.age ≠ [] → IsNumber db.age := fun hne => (hnumber.resolve_left hne).1
    exact ⟨hage,hname,(lexFrom_fromAge db hage _).mpr ⟨hnumber.imp_right And.right,hschool⟩⟩

theorem lex_select {t : List CChar} (ht : Delimited t) :
    lex (cstr "select * from Person" ++ t) =
      [word "select",mark '*',word "from",word "Person"].map (Slot.fill db) ++
        lexFrom .blank t := by
  have h : lex (cstr "select * from Person" ++ t) = .word (cstr "select")::.mark (ch '*')::
      .word (cstr "from")::lexFrom (.word (cstr "Person")) t := rfl
  rw [h, lexFrom_word_end ht.not_ident]
  rfl

theorem lex_delete {t : List CChar} (ht : Delimited t) :
    lex (cstr "delete from Person" ++ t) =
      [word "delete",word "from",word "Person"].map (Slot.fill db) ++ lexFrom .blank t := by
  have h : lex (cstr "delete from Person" ++ t) = .word (cstr "delete")::.word (cstr "from")::
      lexFrom (.word (cstr "Person")) t := rfl
  rw [h, lexFrom_word_end ht.not_ident]
  rfl

theorem shaped_select_iff :
    Shaped db (selectQuery db) (selectTemplate (presence db)) ↔ Harmless db := by
  rw [selectQuery, conditions_eq]
  exact shaped_conditions_iff db fun t ht => lex_select db ht

/-- Nothing is compared only where every field is empty. -/
theorem compared_eq_nil (h : compared (presence db) = []) :
    db.name = [] ∧ db.age = [] ∧ db.school = [] := by
  simp [compared, presence] at h
  exact ⟨h.1,h.2.2⟩

theorem shaped_delete_iff :
    Shaped db (deleteQuery db) (deleteTemplate (presence db)) ↔ Harmless db := by
  rw [deleteQuery, conditions_eq]
  cases hks : compared (presence db) with
  | nil =>
    obtain ⟨hname,hage,hschool⟩ := compared_eq_nil db hks
    refine iff_of_true ⟨fun h => absurd hage h,?_⟩ ?_
    · rw [deleteTemplate, hks]
      rfl
    · rw [Harmless, hname, hschool]
      exact ⟨trivial,.inl hage,trivial⟩
  | cons k ks =>
    have htemplate : deleteTemplate (presence db) = [word "delete",word "from",word "Person"] ++
        conditionSlots false (compared (presence db)) := by rw [deleteTemplate, hks]
    simp only [ne_eq, reduceCtorEq, not_false_eq_true, decide_true, if_true]
    rw [← hks, htemplate]
    exact shaped_conditions_iff db fun t ht => lex_delete db ht

theorem delimited_comma (t : List CChar) : Delimited (cstr ", " ++ t) := by
  intro c hc
  right
  exact (Option.some.inj hc).symm

/-- The values of an `insert`, each with what is written behind it. -/
theorem insertQuery_eq (lady : Bool) (h : sexCode db.sex = sexLetter lady) :
    insertQuery db =
      cstr "insert into Person (Name, Sex, Age, School, Registration_time) values (" ++
        (Literal.name.text db ++ (cstr ", " ++ ((Literal.sex lady).text db ++ (cstr ", " ++
          (Literal.age.text db ++ (cstr ", " ++ (Literal.school.text db ++
            (cstr ", " ++ cstr "NOW())")))))))) := by
  simp [insertQuery, h, Literal.text, cstr, ch, quote]

theorem missingField_none (h : missingField db = none) :
    db.name ≠ [] ∧ db.sex ≠ [] ∧ db.age ≠ [] ∧ db.school ≠ [] := by
  unfold missingField at h
  split_ifs at h with hname hsex hage hschool
  exact ⟨hname,hsex,hage,hschool⟩

theorem lex_insert (t : List CChar) :
    lex (cstr "insert into Person (Name, Sex, Age, School, Registration_time) values (" ++ t) =
      insertHead.map (Slot.fill db) ++ lexFrom .blank t := by
  have hinsert (t : List CChar) : lex (cstr "insert into Person (" ++ t) =
      .word (cstr "insert")::.word (cstr "into")::.word (cstr "Person")::.mark (ch '(')::
        lexFrom .blank t := rfl
  have hcolumns (t : List CChar) : lexFrom .blank (cstr "Name, Sex, Age, School, " ++ t) =
      .word (cstr "Name")::.mark (ch ',')::.word (cstr "Sex")::.mark (ch ',')::.word (cstr "Age")::
        .mark (ch ',')::.word (cstr "School")::.mark (ch ',')::lexFrom .blank t := rfl
  have htime (t : List CChar) : lexFrom .blank (cstr "Registration_time) values (" ++ t) =
      .word (cstr "Registration_time")::.mark (ch ')')::.word (cstr "values")::.mark (ch '(')::
        lexFrom .blank t := rfl
  have hparts : cstr "insert into Person (Name, Sex, Age, School, Registration_time) values (" =
      cstr "insert into Person (" ++
        (cstr "Name, Sex, Age, School, " ++ cstr "Registration_time) values (") := by decide
  rw [hparts, List.append_assoc, List.append_assoc, hinsert, hcolumns, htime]
  rfl

/-- A comment takes up the school, or a part of it that is too short for its literal and what is
written behind that. -/
theorem not_rest_in_comment {s : State} (hs : s = .line ∨ s = .dashes) :
    lexFrom s (cstr ", " ++ (Literal.school.text db ++ (cstr ", " ++ cstr "NOW())"))) ≠
      .mark (ch ',')::Literal.school.fill db::.mark (ch ',')::.word (cstr "NOW")::
        .mark (ch '(')::.mark (ch ')')::[.mark (ch ')')] := by
  intro h
  obtain rfl | rfl := hs
  · have hline : lexFrom .line (cstr ", " ++ (Literal.school.text db ++
          (cstr ", " ++ cstr "NOW())"))) =
        lexFrom .line (db.school ++ [quote] ++ (cstr ", " ++ cstr "NOW())")) := rfl
    have hlen := lengths_lexFrom .line (db.school ++ [quote] ++ (cstr ", " ++ cstr "NOW())"))
    have hend : (cstr ", " ++ cstr "NOW())").length = 8 := rfl
    have hnow : (cstr "NOW").length = 3 := rfl
    rw [← hline, h, List.length_append, hend] at hlen
    simp [Literal.fill, Token.length, State.length, hnow] at hlen
  · have hdash : Token.mark (ch '-') ≠ .mark (ch ',') := by decide
    exact hdash (List.cons.inj h).1

theorem shaped_insert_iff (h : missingField db = none) :
    Shaped db (insertQuery db) (insertTemplate (presence db)) ↔ Harmless db := by
  obtain ⟨-,hsex,hage,hschool⟩ := missingField_none db h
  have hcode : (presence db).sex.getD false = decide (db.sex.head? = some (ch 'l')) := by
    simp [presence, hsex]
  have hcomma (t : List CChar) :
      lexFrom .blank (cstr ", " ++ t) = .mark (ch ',')::lexFrom .blank t := rfl
  have hnow : lexFrom .blank (cstr "NOW())") =
      [.word (cstr "NOW"),.mark (ch '('),.mark (ch ')'),.mark (ch ')')] := rfl
  have hlit {l : Literal} (hl : l ≠ .age) (t : List CChar) (ts : List Token) :
      lexFrom .blank (l.text db ++ (cstr ", " ++ t)) = l.fill db::.mark (ch ',')::ts ↔
        l.Good db ∧ lexFrom .blank t = ts := by
    rw [lexFrom_literal db (delimited_comma t) hl, hcomma]
    simp [eq_comm]
  rw [Shaped, insertQuery_eq db _ (sexCode_eq db.sex), lex_insert db, insertTemplate, hcode,
    List.map_append, List.append_cancel_left_eq]
  simp only [List.map_cons, List.map_nil, Slot.fill, mark, word]
  rw [hlit (by simp), hlit (by simp)]
  have hnumber (hage : IsNumber db.age) : lexFrom .blank (Literal.age.text db ++ (cstr ", " ++
      (Literal.school.text db ++ (cstr ", " ++ cstr "NOW())")))) =
      Literal.age.fill db::.mark (ch ',')::Literal.school.fill db::.mark (ch ',')::
        .word (cstr "NOW")::.mark (ch '(')::.mark (ch ')')::[.mark (ch ')')] ↔
      ¬OpenComment db.age ∧ Verbatim db.school := by
    have hlast := hlit (l := .school) (by simp) (cstr "NOW())")
      [.word (cstr "NOW"),.mark (ch '('),.mark (ch ')'),.mark (ch ')')]
    rw [lexFrom_age db (delimited_comma _) hage fun s hs => not_rest_in_comment db hs, hcomma,
      List.cons.injEq, and_iff_right rfl, eq_comm (b := lexFrom _ _), hlast, hnow]
    simp [Literal.Good, hage]
  constructor
  · rintro ⟨hnum,hname,-,hrest⟩
    obtain ⟨hopen,hverbatim⟩ := (hnumber (hnum hage)).mp hrest
    exact ⟨hname,.inr ⟨hnum hage,.inr hopen⟩,hverbatim⟩
  · rintro ⟨hname,hnum,hverbatim⟩
    obtain ⟨hnum,hopen⟩ := hnum.resolve_left hage
    exact ⟨fun _ => hnum,hname,trivial,
      (hnumber hnum).mpr ⟨hopen.resolve_left hschool,hverbatim⟩⟩

/-- A statement has its shape exactly if the values in it are harmless. -/
theorem shaped_iff :
    (Shaped db (selectQuery db) (selectTemplate (presence db)) ↔ Harmless db) ∧
      (Shaped db (deleteQuery db) (deleteTemplate (presence db)) ↔ Harmless db) ∧
        (missingField db = none →
          (Shaped db (insertQuery db) (insertTemplate (presence db)) ↔ Harmless db)) :=
  ⟨shaped_select_iff db,shaped_delete_iff db,shaped_insert_iff db⟩

def baby : Fields := ⟨cstr "insert",cstr "baby",cstr "lady",cstr "25",cstr "XPU"⟩

theorem shaped_baby : Shaped baby (insertQuery baby) (insertTemplate (presence baby)) :=
  ((shaped_iff baby).2.2 (by decide)).mpr (by decide)

/-- A name that closes its own quotes. -/
theorem not_shaped_select :
    ¬Shaped ⟨cstr "select",cstr "\" or \"1\"=\"1",[],[],[]⟩
      (selectQuery ⟨cstr "select",cstr "\" or \"1\"=\"1",[],[],[]⟩)
      (selectTemplate (presence ⟨cstr "select",cstr "\" or \"1\"=\"1",[],[],[]⟩)) := by
  decide

end Lexing

section Condition
variable (db : Fields)

/-- The comparisons of the fields that are not empty. -/
def fieldConditions : List (List CChar) :=
  (if db.name ≠ [] then [cstr "Name=\"" ++ db.name ++ cstr "\""] else []) ++
    (if db.sex ≠ [] then [cstr "Sex='" ++ sexCode db.sex ++ cstr "'"] else []) ++
    (if db.age ≠ [] then [cstr "Age=" ++ db.age] else []) ++
    (if db.school ≠ [] then [cstr "School=\"" ++ db.school ++ cstr "\""] else [])

/-- The condition a statement is meant to carry. -/
def whereText : List CChar :=
  if fieldConditions db = [] then []
  else cstr " where " ++ (cstr " and ").intercalate (fieldConditions db)

/-- `Select` and `Delete` choose the same rows. -/
def SameCondition : Prop :=
  selectQuery db = cstr "select * from Person" ++ whereText db ∧
    deleteQuery db = cstr "delete from Person" ++ whereText db

theorem fieldConditions_eq :
    (compared (presence db)).map (fun k => k.1 ++ cstr "=" ++ k.2.text db) =
      fieldConditions db := by
  have hsex := sexCode_eq db.sex
  obtain ⟨op,name,sex,age,school⟩ := db
  cases name <;> cases sex <;> cases age <;> cases school <;>
    simp_all [compared, presence, fieldConditions, Literal.text, cstr, ch, quote]

theorem conditionText_true (ks : List (List CChar × Literal)) : conditionText db true ks =
    (ks.map fun k => cstr " and " ++ (k.1 ++ cstr "=" ++ k.2.text db)).flatten := by
  induction ks with
  | nil => rfl
  | cons k ks ih =>
    rw [conditionText, ih]
    simp

/-- The connective written before each condition makes them joined by it. -/
theorem conditionText_false (ks : List (List CChar × Literal)) : conditionText db false ks =
    if ks = [] then [] else cstr " where " ++
      (cstr " and ").intercalate (ks.map fun k => k.1 ++ cstr "=" ++ k.2.text db) := by
  have hjoin (x : List CChar) (xs : List (List CChar)) :
      (cstr " and ").intercalate (x::xs) = x ++ (xs.map (cstr " and " ++ ·)).flatten := by
    induction xs generalizing x with
    | nil => simp
    | cons y ys ih =>
      rw [List.intercalate_cons_cons, ih, List.map_cons, List.flatten_cons, List.append_assoc,
        List.append_assoc]
  cases ks with
  | nil => rfl
  | cons k ks =>
    rw [if_neg (List.cons_ne_nil k ks), conditionText, conditionText_true, List.map_cons, hjoin]
    simp [Function.comp_def]

theorem compared_nil_iff : compared (presence db) = [] ↔ fieldConditions db = [] := by
  rw [← fieldConditions_eq, List.map_eq_nil_iff]

theorem conditionText_eq : conditionText db false (compared (presence db)) = whereText db := by
  simp only [conditionText_false, whereText, fieldConditions_eq, compared_nil_iff]

theorem fieldConditions_nil_iff : fieldConditions db = [] ↔
    db.name = [] ∧ db.sex = [] ∧ db.age = [] ∧ db.school = [] := by
  simp [fieldConditions]

theorem selectQuery_eq : selectQuery db = cstr "select * from Person" ++ whereText db := by
  rw [selectQuery, conditions_eq, conditionText_eq]

theorem deleteQuery_eq : deleteQuery db = if fieldConditions db = [] then
    cstr "delete * from Person" else cstr "delete from Person" ++ whereText db := by
  rw [deleteQuery, conditions_eq, conditionText_eq]
  by_cases h : fieldConditions db = []
  · simp [compared_nil_iff, h]
  · simp [compared_nil_iff, h]

/-- The two statements carry the same condition of exactly the fields that are not empty, unless
none is: then `Delete` replaces its statement. -/
theorem sameCondition_iff : SameCondition db ↔
    ¬(db.name = [] ∧ db.sex = [] ∧ db.age = [] ∧ db.school = []) := by
  rw [SameCondition, and_iff_right (selectQuery_eq db), deleteQuery_eq, ← fieldConditions_nil_iff]
  split_ifs with h
  · have hne : cstr "delete * from Person" ≠ cstr "delete from Person" ++ [] := by decide
    rw [whereText, if_pos h]
    exact iff_of_false hne (not_not.mpr h)
  · exact iff_of_true rfl h

/-- Without a field. -/
theorem not_sameCondition_empty : ¬SameCondition ⟨cstr "delete",[],[],[],[]⟩ := by
  rintro ⟨-,h⟩
  exact absurd h (by decide)

end Condition

end LibeventHttpd.MySql
