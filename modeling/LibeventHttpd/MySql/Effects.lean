import LibeventHttpd.MySql.StatusLine
import LibeventHttpd.Sql.Statement

/-! What `Insert` and `Delete` do to the table, and the listings that `Success` prints of it. -/
namespace LibeventHttpd.MySql
open Sql

/-- The rows of the table, and the result that waits to be stored. -/
structure Session where
  rows : List Row
  pending : Option (List Row)

/-- A value as the client library hands it out. -/
def cell : Value → Option (List CChar)
  | .null => none
  | .text t => some t
  | .int n => some (cstr (toString n))

section Server
variable (d : Table) (now : Value)

/-- A row as it is listed. -/
def shown (r : Row) : List (Option (List CChar)) := d.columns.map fun c => cell (r c)

/-- The client library before a server with one table. -/
def mysql : Client Session where
  connect := fun s => (true,s)
  query := fun q s =>
    match (parse (lex q)).bind (Statement.exec d now s.rows) with
    | some (rows,pending) => (true,⟨rows,pending⟩)
    | none => (false,s)
  store := fun s =>
    (s.pending.map fun rows => ⟨rows.length,d.columns,rows.map (shown d)⟩,⟨s.rows,none⟩)

end Server

/-- The rows printed before the next listing begins, and the listings from there on. -/
def listingsFrom : List Event → List (List (Option (List CChar))) ×
    List (List (List (Option (List CChar))))
  | [] => ([],[])
  | .print (.affected _)::es => ([],(listingsFrom es).1::(listingsFrom es).2)
  | .print (.row cells)::es => (cells::(listingsFrom es).1,(listingsFrom es).2)
  | _::es => listingsFrom es

/-- The rows of each listing that is printed. -/
def listings (es : List Event) : List (List (List (Option (List CChar)))) := (listingsFrom es).2

/-- Digits, with a sign or without. -/
def IsInteger (v : List CChar) : Prop :=
  ∃ ds, Digits ds ∧ ds ≠ [] ∧ (v = ds ∨ v = ch '-'::ds ∨ v = ch '+'::ds)

def integer (v : List CChar) : ℤ :=
  if v.head? = some (ch '-') then -number v.tail
  else if v.head? = some (ch '+') then number v.tail
  else number v

/-- A sign is a token of its own. -/
def integerTokens (v : List CChar) : List Token :=
  if v.head? = some (ch '-') ∨ v.head? = some (ch '+') then
    [.mark (v.headD 0),.number v.tail]
  else [.number v]

/-- Neither a double quote nor a backslash. -/
def Plain (v : List CChar) : Prop := ∀ c ∈ v, ¬Special c

instance : DecidablePred Plain := fun v => inferInstanceAs (Decidable (∀ c ∈ v, ¬Special c))

section Meaning
variable (db : Fields)

/-- The row agrees with the fields that are not empty. -/
def Matches (r : Row) : Prop :=
  (db.name ≠ [] → r (cstr "Name") = .text db.name) ∧
    (db.sex ≠ [] → r (cstr "Sex") = .text (sexCode db.sex)) ∧
    (db.age ≠ [] → r (cstr "Age") = .int (integer db.age)) ∧
    (db.school ≠ [] → r (cstr "School") = .text db.school)

instance : DecidablePred (Matches db) :=
  fun _ => inferInstanceAs (Decidable ((_ → _) ∧ (_ → _) ∧ (_ → _) ∧ (_ → _)))

def insertColumns : List (List CChar) :=
  [cstr "Name",cstr "Sex",cstr "Age",cstr "School",cstr "Registration_time"]

/-- The row that an insertion adds. -/
def inserted (now : Value) (fresh : Row) : Row :=
  newRow fresh insertColumns
    [.text db.name,.text (sexCode db.sex),.int (integer db.age),.text db.school,now]

def Literal.tokens : Literal → List Token
  | .age => integerTokens db.age
  | l => [l.fill db]

def Literal.value : Literal → Value
  | .name => .text db.name
  | .sex lady => .text (sexLetter lady)
  | .age => .int (integer db.age)
  | .school => .text db.school

/-- The comparisons behind `where`. -/
def comparisons : List Comparison :=
  (compared (presence db)).map fun k => ⟨k.1,k.2.value db⟩

/-- The text of the literal is read as its tokens. -/
def Literal.Read (l : Literal) : Prop :=
  ∀ r, Delimited r → lexFrom .blank (l.text db ++ r) = l.tokens db ++ lexFrom .blank r

end Meaning

section Values
variable {v : List CChar} {db : Fields}

theorem Plain.verbatim (h : Plain v) : Verbatim v := by
  induction v with
  | nil => trivial
  | cons c v ih =>
    obtain ⟨hc,hv⟩ := List.forall_mem_cons.mp h
    exact ⟨fun hq => hc (.inl hq),fun hb => absurd (.inr hb) hc,ih hv⟩

theorem lexFrom_digits {ds : List CChar} (h : Digits ds) (n r : List CChar) :
    lexFrom (.number .int n) (ds ++ r) = lexFrom (.number .int (n ++ ds)) r := by
  induction ds generalizing n with
  | nil => rw [List.append_nil, List.nil_append]
  | cons c ds ih =>
    rw [digits_cons] at h
    have hgo : continues .int n c = some (.number .int (n ++ [c])) := if_pos h.1
    rw [List.cons_append, lexFrom_continues hgo, ih h.2, List.append_assoc]
    rfl

/-- A digit string is one number before a delimiter, also behind a sign. -/
theorem lexFrom_digits_append {ds r : List CChar} (h : Digits ds) (hne : ds ≠ [])
    (hr : Delimited r) : lexFrom .blank (ds ++ r) = .number ds::lexFrom .blank r := by
  obtain ⟨c,ds,rfl⟩ := List.exists_cons_of_ne_nil hne
  rw [digits_cons] at h
  have hbegin : lexFrom .blank (c::(ds ++ r)) = lexFrom (.number .int [c]) (ds ++ r) := by
    rw [lexFrom, step, begin_digit h.1]
    rfl
  rw [List.cons_append, hbegin, lexFrom_digits h.2, lexFrom_number_end hr]
  rfl

theorem lexFrom_minus {ds r : List CChar} (h : Digits ds) (hne : ds ≠ []) :
    lexFrom .blank (ch '-'::(ds ++ r)) = .mark (ch '-')::lexFrom .blank (ds ++ r) := by
  obtain ⟨c,ds,rfl⟩ := List.exists_cons_of_ne_nil hne
  rw [digits_cons] at h
  have hc : c ≠ ch '-' := by
    rintro rfl
    exact not_isDigit_minus h.1
  exact lexFrom_next .dash c (if_neg hc)

/-- The three ways to write an integer, with the tokens and the number that belong to each. -/
theorem IsInteger.cases (h : IsInteger v) : ∃ ds, Digits ds ∧ ds ≠ [] ∧
    (v = ds ∧ integerTokens v = [.number ds] ∧ integer v = number ds ∨
      v = ch '-'::ds ∧ integerTokens v = [.mark (ch '-'),.number ds] ∧ integer v = -number ds ∨
      v = ch '+'::ds ∧ integerTokens v = [.mark (ch '+'),.number ds] ∧ integer v = number ds) := by
  have hsigns : ch '+' ≠ ch '-' := by decide
  obtain ⟨ds,hds,hne,hv⟩ := h
  have hhead {c : CChar} (hc : ¬IsDigit c) : ds.head? ≠ some c :=
    fun h => hc (hds c (List.mem_of_mem_head? h))
  refine ⟨ds,hds,hne,?_⟩
  obtain rfl | rfl | rfl := hv
  · left
    simp [integerTokens, integer, hhead not_isDigit_plus, hhead not_isDigit_minus]
  · right
    left
    simp [integerTokens, integer]
  · right
    right
    simp [integerTokens, integer, hsigns]

theorem read_integer {r : List CChar} (h : IsInteger v) (hr : Delimited r) :
    lexFrom .blank (v ++ r) = integerTokens v ++ lexFrom .blank r := by
  obtain ⟨ds,hds,hne,hcases⟩ := h.cases
  have hdigits := lexFrom_digits_append hds hne hr
  obtain ⟨rfl,htokens,-⟩ | ⟨rfl,htokens,-⟩ | ⟨rfl,htokens,-⟩ := hcases
  · rw [htokens, hdigits]
    rfl
  · rw [htokens, List.cons_append, lexFrom_minus hds hne, hdigits]
    rfl
  · have hplus : lexFrom .blank (ch '+'::(ds ++ r)) = .mark (ch '+')::lexFrom .blank (ds ++ r) :=
      rfl
    rw [htokens, List.cons_append, hplus, hdigits]
    rfl

theorem operand_integer (h : IsInteger v) :
    operand (integerTokens v) = some (.int (integer v)) := by
  have hsigns : ch '+' ≠ ch '-' := by decide
  obtain ⟨ds,hds,-,hcases⟩ := h.cases
  have hnatural : natural ds = some (number ds : ℤ) := if_pos hds
  obtain ⟨-,htokens,hvalue⟩ | ⟨-,htokens,hvalue⟩ | ⟨-,htokens,hvalue⟩ := hcases
  · simp [htokens, hvalue, operand, hnatural]
  · simp [htokens, hvalue, operand, hnatural]
  · simp [htokens, hvalue, operand, hnatural, hsigns]

end Values

section Statements
variable {db : Fields}

/-- What the fields of an insertion or a deletion may be here. -/
structure Proper (db : Fields) : Prop where
  name : Plain db.name
  school : Plain db.school
  age : db.age = [] ∨ IsInteger db.age

theorem Proper.read (h : Proper db) {l : Literal} (hage : l = .age → db.age ≠ []) : l.Read db := by
  intro r hr
  cases l with
  | age =>
    have hinteger : IsInteger db.age := h.age.resolve_left (hage rfl)
    exact read_integer hinteger hr
  | name => exact (lexFrom_literal db hr (l := .name) (by simp)).mpr ⟨h.name.verbatim,rfl⟩
  | sex lady => exact (lexFrom_literal db hr (l := .sex lady) (by simp)).mpr ⟨trivial,rfl⟩
  | school => exact (lexFrom_literal db hr (l := .school) (by simp)).mpr ⟨h.school.verbatim,rfl⟩

theorem Proper.operand (h : Proper db) {l : Literal} (hage : l = .age → db.age ≠ []) :
    operand (l.tokens db) = some (l.value db) := by
  cases l with
  | age =>
    have hinteger : IsInteger db.age := h.age.resolve_left (hage rfl)
    exact operand_integer hinteger
  | _ => rfl

/-- The conditions are lexed as the comparisons that they write. -/
theorem lexFrom_comparisons {ks : List (List CChar × Literal)} (hword : ∀ k ∈ ks, IsWord k.1)
    (hread : ∀ k ∈ ks, k.2.Read db) (flag : Bool) :
    lexFrom .blank (conditionText db flag ks) = clauseTokens (Literal.tokens db) flag ks := by
  induction ks generalizing flag with
  | nil => rfl
  | cons k ks ih =>
    rw [List.forall_mem_cons] at hword hread
    simp only [conditionText, List.append_assoc]
    rw [lexFrom_condition hword.1, hread.1 _ (conditionText_delimited db true ks),
      ih hword.2 hread.2]
    rfl

/-- Every literal that is compared belongs to a field that is not empty. -/
theorem age_ne_nil : ∀ k ∈ compared (presence db), k.2 = .age → db.age ≠ [] := by
  rw [forall_compared_iff]
  simp [presence]

theorem parse_conditions (h : Proper db) :
    whereClause (lexFrom .blank (conditionText db false (compared (presence db)))) =
      some (comparisons db) := by
  have hand : ∀ k ∈ compared (presence db), (Token.word k.1).isKeyword "and" = false := by
    have hsex : (Token.word (cstr "Sex")).isKeyword "and" = false := by decide
    rw [forall_compared_iff]
    exact ⟨fun _ => by decide,fun _ _ => hsex,fun _ => by decide,fun _ => by decide⟩
  rw [lexFrom_comparisons (isWord_compared _) fun k hk => h.read (age_ne_nil k hk)]
  exact whereClause_clause _ _ hand fun k hk => h.operand (age_ne_nil k hk)

theorem parse_select (h : Proper db) :
    parse (lex (selectQuery db)) = some (.select (cstr "Person") (comparisons db)) := by
  have hparse (ts : List Token) : parse ([word "select",mark '*',word "from",word "Person"].map
      (Slot.fill db) ++ ts) = (whereClause ts).map (.select (cstr "Person")) := rfl
  rw [selectQuery, conditions_eq, lex_select db (conditionText_delimited db _ _), hparse,
    parse_conditions h]
  rfl

/-- Without a field that is not empty the statement is none of the server's. -/
theorem parse_delete (h : Proper db) : parse (lex (deleteQuery db)) =
    if comparisons db = [] then none
    else some (.delete (cstr "Person") (comparisons db)) := by
  have hparse (ts : List Token) : parse ([word "delete",word "from",word "Person"].map
      (Slot.fill db) ++ ts) = (whereClause ts).map (.delete (cstr "Person")) := rfl
  have hnil : comparisons db = [] ↔ compared (presence db) = [] := List.map_eq_nil_iff
  rw [deleteQuery, conditions_eq]
  by_cases hks : compared (presence db) = []
  · rw [if_pos (hnil.mpr hks), if_neg (by simp [hks])]
    rfl
  · rw [if_neg (mt hnil.mp hks), if_pos (by simp [hks]),
      lex_delete db (conditionText_delimited db _ _), hparse, parse_conditions h]
    rfl

theorem parse_insertHead (vs : List Token) : parse (insertHead.map (Slot.fill db) ++ vs) =
    (valueList vs).bind fun values =>
      if insertColumns.length = values.length then
        some (.insert (cstr "Person") insertColumns values)
      else none := by
  have hparse : parse (insertHead.map (Slot.fill db) ++ vs) = (valueList vs).bind fun values =>
      if (Token.word (cstr "into")).isKeyword "into" ∧ ch '(' = ch '(' ∧
          (Token.word (cstr "values")).isKeyword "values" ∧ ch '(' = ch '(' ∧
          insertColumns.length = values.length then
        some (.insert (cstr "Person") insertColumns values)
      else none := rfl
  have hinto : (Token.word (cstr "into")).isKeyword "into" = true := by decide
  have hvalues : (Token.word (cstr "values")).isKeyword "values" = true := by decide
  simp only [hparse, hinto, hvalues, true_and]

/-- The values of an insertion, up to the parenthesis behind them. -/
def valueTokens (db : Fields) (lady : Bool) : List Token :=
  Literal.name.tokens db ++ .mark (ch ',')::((Literal.sex lady).tokens db ++
    .mark (ch ',')::(Literal.age.tokens db ++ .mark (ch ',')::(Literal.school.tokens db ++
      .mark (ch ',')::[.word (cstr "NOW"),.mark (ch '('),.mark (ch ')')])))

theorem lex_insertQuery (h : Proper db) (hage : db.age ≠ []) {lady : Bool}
    (hlady : sexCode db.sex = sexLetter lady) : lex (insertQuery db) =
      insertHead.map (Slot.fill db) ++ (valueTokens db lady ++ [.mark (ch ')')]) := by
  have hread (l : Literal) (t : List CChar) : lexFrom .blank (l.text db ++ (cstr ", " ++ t)) =
      l.tokens db ++ .mark (ch ',')::lexFrom .blank t :=
    h.read (fun _ => hage) _ (delimited_comma t)
  rw [insertQuery_eq db _ hlady, lex_insert db, hread, hread, hread, hread]
  simp only [valueTokens, List.append_assoc, List.cons_append]
  rfl

theorem parse_insert (h : Proper db) (hmissing : missingField db = none) :
    parse (lex (insertQuery db)) = some (.insert (cstr "Person") insertColumns
      [.value (.text db.name),.value (.text (sexCode db.sex)),.value (.int (integer db.age)),
        .value (.text db.school),.now]) := by
  obtain ⟨-,-,hage,-⟩ := missingField_none db hmissing
  have hoperand (l : Literal) : operand (l.tokens db) = some (l.value db) :=
    h.operand fun _ => hage
  have hexpr (l : Literal) := expr_operand (hoperand l)
  have hcomma (l : Literal) := (operand_tokens (hoperand l)).2
  have hnow : expr [.word (cstr "NOW"),.mark (ch '('),.mark (ch ')')] = some .now := rfl
  rw [lex_insertQuery h hage (sexCode_eq db.sex), parse_insertHead, valueList_append, valueTokens,
    commas_cons (hcomma _), commas_cons (hcomma _), commas_cons (hcomma _), commas_cons (hcomma _),
    commas_single (by decide), sexCode_eq]
  simp only [List.mapM_cons, List.mapM_nil, hexpr, hnow]
  rfl

end Statements

section Rows
variable {db : Fields} {r : Row}

theorem satisfies_iff : Satisfies (comparisons db) r ↔ Matches db r := by
  have hsex : (∀ lady ∈ (presence db).sex, r (cstr "Sex") = .text (sexLetter lady)) ↔
      (db.sex ≠ [] → r (cstr "Sex") = .text (sexCode db.sex)) := by
    by_cases h : db.sex = [] <;> simp [presence, sexCode_eq, h]
  simp only [Satisfies, comparisons, List.forall_mem_map, forall_compared_iff, Literal.value,
    Matches, ← hsex]
  simp [presence]

theorem matches_inserted (now : Value) (fresh : Row) : Matches db (inserted db now fresh) :=
  ⟨fun _ => rfl,fun _ => rfl,fun _ => rfl,fun _ => rfl⟩

theorem satisfies_cleared : Satisfies (comparisons (cleared db)) r :=
  satisfies_iff.mpr ⟨fun h => absurd rfl h,fun h => absurd rfl h,fun h => absurd rfl h,
    fun h => absurd rfl h⟩

end Rows

section Methods
variable {σ : Type*} {c : Client σ} (s : ServerDatabase σ)

theorem insert_true (htrue : (insert c s).1 = true) :
    missingField s.fields = none ∧ (c.query (insertQuery s.fields) s.client).1 = true ∧
      (insert c s).2.1 = { s with client := (c.query (insertQuery s.fields) s.client).2 } := by
  obtain ⟨field,-,h⟩ | ⟨client,-,-,h⟩ | ⟨client,hmissing,hquery,h⟩ := insert_cases c s
  · simp [h] at htrue
  · simp [h] at htrue
  · simp [h, hmissing, hquery]

theorem delete_true (htrue : (delete c s).1 = true) :
    (c.query (deleteQuery s.fields) s.client).1 = true ∧
      (delete c s).2.1 = { s with client := (c.query (deleteQuery s.fields) s.client).2 } := by
  obtain ⟨client,-,h⟩ | ⟨client,hquery,h⟩ := delete_cases c s
  · simp [h] at htrue
  · simp [h, hquery]

/-- A `Select` whose calls succeed prints the result. -/
theorem select_eq {client client' : σ} {r : Result}
    (hquery : c.query (selectQuery s.fields) s.client = (true,client))
    (hstore : c.store client = (some r,client')) :
    (select c s).2 = ({ s with client := client', res := some s.stored, stored := s.stored+1 },
      .query (selectQuery s.fields) true::.store (some s.stored)::
        printResult (some s.stored) r) := by
  simp [select, opFun, storeResult, hquery, hstore]

end Methods

section Listings
variable {d : Table} (now : Value) (s : ServerDatabase Session)

theorem mysql_query {q : List CChar} {st : Statement} (h : parse (lex q) = some st) (s : Session) :
    (mysql d now).query q s = match st.exec d now s.rows with
      | some (rows,pending) => (true,⟨rows,pending⟩)
      | none => (false,s) := by
  simp [mysql, h]

/-- A result is listed with its rows, and with the rows that are printed right behind. -/
theorem listingsFrom_printResult (res : Option ℕ) (r : Result) (es : List Event) :
    listingsFrom (printResult res r ++ es) =
      ([],(r.rows ++ (listingsFrom es).1)::(listingsFrom es).2) := by
  have hrows (rows : List (List (Option (List CChar)))) :
      listingsFrom ((rows.map fun cells => Event.print (.row cells)) ++ es) =
        (rows ++ (listingsFrom es).1,(listingsFrom es).2) := by
    induction rows with
    | nil => rfl
    | cons cells rows ih =>
      rw [List.map_cons, List.cons_append, listingsFrom, ih]
      rfl
  have hhead : listingsFrom (printResult res r ++ es) =
      ([],(listingsFrom ((r.rows.map fun cells => Event.print (.row cells)) ++ es)).1::
        (listingsFrom ((r.rows.map fun cells => Event.print (.row cells)) ++ es)).2) := rfl
  rw [hhead, hrows]

/-- The table is there, with every column that a `Select` compares. -/
def Known (d : Table) (db : Fields) : Prop :=
  d.name = cstr "Person" ∧ ∀ c ∈ comparisons db, c.column ∈ d.columns

/-- A `Select` lists the rows that match the fields. -/
theorem select_listed (h : Proper s.fields) (hknown : Known d s.fields) :
    (select (mysql d now) s).2.1.client.rows = s.client.rows ∧ ∀ es,
      listingsFrom ((select (mysql d now) s).2.2 ++ es) = ([],
        ((s.client.rows.filter (Matches s.fields)).map (shown d) ++ (listingsFrom es).1)::
          (listingsFrom es).2) := by
  have hquery : (mysql d now).query (selectQuery s.fields) s.client =
      (true,⟨s.client.rows,some (s.client.rows.filter (Matches s.fields))⟩) := by
    rw [mysql_query now (parse_select h), ← hknown.1, exec_select hknown.2]
    simp [satisfies_iff]
  rw [select_eq s hquery rfl]
  exact ⟨rfl,fun es => listingsFrom_printResult _ _ es⟩

/-- The two listings behind a change: of what matches the fields, and of the whole table. -/
theorem selectTwice_listed (h : Proper s.fields) (hknown : Known d s.fields) (es : List Event) :
    listingsFrom ((selectTwice (mysql d now) s).2 ++ es) =
      ([],(s.client.rows.filter (Matches s.fields)).map (shown d)::
        (s.client.rows.map (shown d) ++ (listingsFrom es).1)::(listingsFrom es).2) := by
  obtain ⟨hrows,hfirst⟩ := select_listed now s h hknown
  have hproper : Proper (cleared s.fields) := ⟨by simp [cleared, Plain],by simp [cleared, Plain],
    .inl rfl⟩
  have hsecond := (select_listed now
    { (select (mysql d now) s).2.1 with fields := cleared s.fields } hproper
    ⟨hknown.1,fun c hc => by cases hc⟩).2 es
  have hall : (s.client.rows.filter (Matches (cleared s.fields))) = s.client.rows :=
    List.filter_eq_self.mpr fun r _ => decide_eq_true (satisfies_iff.mp satisfies_cleared)
  rw [hrows, hall] at hsecond
  rw [selectTwice_snd, select_fields, List.append_assoc, hfirst, hsecond]
  simp

theorem success_listed {arg : List CChar} (harg : arg = cstr "insert" ∨ arg = cstr "delete")
    (h : Proper s.fields) (hknown : Known d s.fields) :
    listings (success (mysql d now) s arg).2 =
      [(s.client.rows.filter (Matches s.fields)).map (shown d),s.client.rows.map (shown d)] := by
  have htwice := selectTwice_listed now s h hknown [say "</body>\n",say "</html>\n"]
  have hsuccess : listings (success (mysql d now) s arg).2 =
      listings ((selectTwice (mysql d now) s).2 ++ [say "</body>\n",say "</html>\n"]) := by
    obtain rfl | rfl := harg
    · rfl
    · rfl
  have hfooter : listingsFrom [say "</body>\n",say "</html>\n"] = ([],[]) := rfl
  rw [hsuccess, listings, htwice, hfooter, List.append_nil]

end Listings

section Changes
variable {d : Table} {now : Value} (s : ServerDatabase Session)

theorem known_insert {db : Fields} (hname : d.name = cstr "Person")
    (h : ∀ c ∈ insertColumns, c ∈ d.columns) : Known d db := by
  simp only [insertColumns, List.forall_mem_cons] at h
  refine ⟨hname,?_⟩
  rw [comparisons, List.forall_mem_map, forall_compared_iff]
  exact ⟨fun _ => h.1,fun _ _ => h.2.1,fun _ => h.2.2.1,fun _ => h.2.2.2.1⟩

/-- A statement that succeeds has its effect on the rows. -/
theorem query_true {q : List CChar} {st : Statement} (hparse : parse (lex q) = some st)
    {s : Session} (h : ((mysql d now).query q s).1 = true) :
    st.names.1 = d.name ∧ (∀ c ∈ st.names.2, c ∈ d.columns) ∧
      ((mysql d now).query q s).2.rows = (st.effect d now s.rows).1 := by
  rw [mysql_query now hparse] at h ⊢
  cases hexec : st.exec d now s.rows with
  | none => simp [hexec] at h
  | some r =>
    obtain ⟨⟨hname,hcolumns,-⟩,heffect⟩ := exec_eq_some_iff.mp hexec
    exact ⟨hname,hcolumns,by rw [heffect]⟩

/-- An insertion that is carried out adds its row. -/
theorem insert_rows (h : Proper s.fields) (htrue : (insert (mysql d now) s).1 = true) :
    Known d s.fields ∧ (insert (mysql d now) s).2.1.fields = s.fields ∧
      (insert (mysql d now) s).2.1.client.rows =
        s.client.rows ++ [inserted s.fields now (d.fresh s.client.rows)] := by
  obtain ⟨hmissing,hok,hs⟩ := insert_true s htrue
  obtain ⟨hname,hcolumns,hrows⟩ := query_true (parse_insert h hmissing) hok
  simp only [hs, hrows]
  exact ⟨known_insert hname.symm hcolumns,trivial,rfl⟩

/-- A deletion that is carried out leaves the rows that do not match. -/
theorem delete_rows (h : Proper s.fields) (htrue : (delete (mysql d now) s).1 = true) :
    Known d s.fields ∧ (delete (mysql d now) s).2.1.fields = s.fields ∧
      (delete (mysql d now) s).2.1.client.rows =
        s.client.rows.filter fun r => ¬Matches s.fields r := by
  obtain ⟨hok,hs⟩ := delete_true s htrue
  have hparse := parse_delete h
  by_cases hnil : comparisons s.fields = []
  · rw [if_pos hnil] at hparse
    simp [mysql, hparse] at hok
  · rw [if_neg hnil] at hparse
    obtain ⟨hname,hcolumns,hrows⟩ := query_true hparse hok
    rw [hs]
    refine ⟨⟨hname.symm,by simpa [Statement.names] using hcolumns⟩,rfl,hrows.trans ?_⟩
    simp [Statement.effect, satisfies_iff]

/-- The listings behind a change show it: the new row among those that match, and of the old table
nothing that matches and everything else. -/
theorem effects (d : Table) (now : Value) (s : ServerDatabase Session) (h : Proper s.fields) :
    ((insert (mysql d now) s).1 = true →
      (insert (mysql d now) s).2.1.client.rows =
          s.client.rows ++ [inserted s.fields now (d.fresh s.client.rows)] ∧
        ∃ first second,
          listings (success (mysql d now) (insert (mysql d now) s).2.1 (cstr "insert")).2 =
              [first,second] ∧
            shown d (inserted s.fields now (d.fresh s.client.rows)) ∈ first) ∧
    ((delete (mysql d now) s).1 = true →
      listings (success (mysql d now) (delete (mysql d now) s).2.1 (cstr "delete")).2 =
        [[],(s.client.rows.filter fun r => ¬Matches s.fields r).map (shown d)]) := by
  constructor
  · intro htrue
    obtain ⟨hknown,hfields,hrows⟩ := insert_rows s h htrue
    refine ⟨hrows,_,_,success_listed now _ (.inl rfl) (hfields ▸ h) (hfields ▸ hknown),?_⟩
    rw [hrows, hfields]
    apply List.mem_map_of_mem
    simp [matches_inserted]
  · intro htrue
    obtain ⟨hknown,hfields,hrows⟩ := delete_rows s h htrue
    rw [success_listed now _ (.inr rfl) (hfields ▸ h) (hfields ▸ hknown), hrows, hfields,
      List.filter_filter]
    simp

/-- A table with the columns of `Insert`, and two rows. -/
def person : Table := ⟨cstr "Person",insertColumns,fun _ _ => .null,fun _ => true⟩

def people : ServerDatabase Session where
  fields := { baby with name := [], age := [] }
  res := none
  stored := 0
  client := ⟨[inserted baby .null fun _ => .null,
    inserted { baby with school := cstr "XTU" } .null fun _ => .null],none⟩

/-- The second of two rows is left when those of one school are deleted. -/
theorem effects_people :
    listings (success (mysql person .null) (delete (mysql person .null) people).2.1
      (cstr "delete")).2 = [[],[[some (cstr "baby"),some (cstr "F"),some (cstr "25"),
        some (cstr "XTU"),none]]] :=
  ((effects person .null people ⟨by decide,by decide,.inl rfl⟩).2 (by decide)).trans (by decide)

end Changes

end LibeventHttpd.MySql
