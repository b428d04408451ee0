import LibeventHttpd.Sql.Lexer

/-! Some statements of MySQL and what they do to the rows of a table. Text and integers are compared
exactly, and `NULL` is equal to nothing. -/
namespace LibeventHttpd.Sql

inductive Value where
  | null
  | text (t : List CChar)
  | int (n : ℤ)
  deriving DecidableEq

/-- The value in each column. -/
abbrev Row := List CChar → Value

/-- `column=value` -/
structure Comparison where
  column : List CChar
  value : Value
  deriving DecidableEq

inductive Expr where
  | value (v : Value)
  | now
  deriving DecidableEq

inductive Statement where
  | select (table : List CChar) (cs : List Comparison)
  | delete (table : List CChar) (cs : List Comparison)
  | insert (table : List CChar) (columns : List (List CChar)) (values : List Expr)
  deriving DecidableEq

/-- Keywords are read in either case. -/
def Token.isKeyword (k : String) : Token → Bool
  | .word w => strcaseeq w (cstr k)
  | _ => false

/-- A number without point and exponent. -/
def natural (n : List CChar) : Option ℤ := if Digits n then some (number n) else none

def operand : List Token → Option Value
  | [.str v] => some (.text v)
  | [.number n] => (natural n).map .int
  | [.mark c,.number n] =>
    if c = ch '-' then (natural n).map fun i => .int (-i)
    else if c = ch '+' then (natural n).map .int
    else none
  | _ => none

def comparison : List Token → Option Comparison
  | .word column::.mark c::ts =>
    if c = ch '=' then (operand ts).map fun v => ⟨column,v⟩ else none
  | _ => none

/-- What stands behind the table of a `select` or `delete`. -/
def whereClause : List Token → Option (List Comparison)
  | [] => some []
  | t::ts =>
    if t.isKeyword "where" then (ts.splitOnP (Token.isKeyword "and")).mapM comparison else none

def expr : List Token → Option Expr
  | [.word w,.mark a,.mark b] =>
    if strcaseeq w (cstr "now") ∧ a = ch '(' ∧ b = ch ')' then some .now else none
  | ts => (operand ts).map .value

def columnName : List Token → Option (List CChar)
  | [.word w] => some w
  | _ => none

/-- The parts between commas. -/
def commas (ts : List Token) : List (List Token) := ts.splitOn (.mark (ch ','))

/-- The value list behind `values (`, with the parenthesis that closes it. -/
def valueList (ts : List Token) : Option (List Expr) :=
  if ts.getLast? = some (.mark (ch ')')) then (commas ts.dropLast).mapM expr else none

def parseSelect : List Token → Option Statement
  | .mark c::t::.word table::ts =>
    if c = ch '*' ∧ t.isKeyword "from" then (whereClause ts).map (.select table) else none
  | _ => none

def parseDelete : List Token → Option Statement
  | t::.word table::ts =>
    if t.isKeyword "from" then (whereClause ts).map (.delete table) else none
  | _ => none

def parseInsert : List Token → Option Statement
  | t::.word table::.mark c::ts =>
    match ts.span (· ≠ .mark (ch ')')) with
    | (columns,_::k::.mark d::vs) => do
      let columns ← (commas columns).mapM columnName
      let vs ← valueList vs
      if t.isKeyword "into" ∧ c = ch '(' ∧ k.isKeyword "values" ∧ d = ch '(' ∧
          columns.length = vs.length then
        some (.insert table columns vs)
      else none
    | _ => none
  | _ => none

/-- Any other statement is taken for a syntax error. -/
def parse : List Token → Option Statement
  | [] => none
  | t::ts =>
    if t.isKeyword "select" then parseSelect ts
    else if t.isKeyword "delete" then parseDelete ts
    else if t.isKeyword "insert" then parseInsert ts
    else none

/-- A table of the server: its columns as they are listed, the values of columns that an `insert`
leaves out, and whether the server lets the table become so. -/
structure Table where
  name : List CChar
  columns : List (List CChar)
  fresh : List Row → Row
  admits : List Row → Bool

/-- Every comparison holds in the row. -/
def Satisfies (cs : List Comparison) (r : Row) : Prop :=
  ∀ c ∈ cs, r c.column = c.value ∧ c.value ≠ .null

instance (cs : List Comparison) : DecidablePred (Satisfies cs) :=
  fun r => inferInstanceAs (Decidable (∀ c ∈ cs, r c.column = c.value ∧ c.value ≠ .null))

def Expr.eval (now : Value) : Expr → Value
  | .value v => v
  | .now => now

/-- The row that an `insert` adds. -/
def newRow (fresh : Row) (columns : List (List CChar)) (values : List Value) : Row := fun c =>
  ((columns.zip values).lookup c).getD (fresh c)

/-- The table and the columns that a statement names. -/
def Statement.names : Statement → List CChar × List (List CChar)
  | .select table cs => (table,cs.map Comparison.column)
  | .delete table cs => (table,cs.map Comparison.column)
  | .insert table columns _ => (table,columns)

section Execution
variable (d : Table) (now : Value)

/-- The rows afterwards, and the rows that a `select` finds. -/
def Statement.effect (rows : List Row) : Statement → List Row × Option (List Row)
  | .select _ cs => (rows,some (rows.filter (Satisfies cs)))
  | .delete _ cs => (rows.filter fun r => ¬Satisfies cs r,none)
  | .insert _ columns values =>
    (rows ++ [newRow (d.fresh rows) columns (values.map (Expr.eval now))],none)

/-- A statement is refused where it names what the table does not have, or would make the table one
that is not admitted. -/
def Statement.exec (rows : List Row) (s : Statement) : Option (List Row × Option (List Row)) :=
  if s.names.1 = d.name ∧ (∀ c ∈ s.names.2, c ∈ d.columns) ∧
      ((s.effect d now rows).2 = none → d.admits (s.effect d now rows).1) then
    some (s.effect d now rows)
  else none

end Execution

section Parsing
variable {ts us : List Token} {v : Value}

/-- No keyword and no comma stands in an operand. -/
theorem operand_tokens (h : operand ts = some v) :
    (∀ k, ∀ t ∈ ts, t.isKeyword k = false) ∧ .mark (ch ',') ∉ ts := by
  unfold operand at h
  split at h
  · simp [Token.isKeyword]
  · simp [Token.isKeyword]
  · rename_i c n
    refine ⟨by simp [Token.isKeyword],?_⟩
    rintro hc
    obtain rfl : ch ',' = c := by simpa using hc
    cases h
  · cases h

theorem commas_cons (h : .mark (ch ',') ∉ ts) :
    commas (ts ++ .mark (ch ',')::us) = ts::commas us := by
  have hts : ∀ t ∈ ts, (t == .mark (ch ',')) = false := by
    intro t ht
    rw [beq_eq_false_iff_ne]
    rintro rfl
    exact h ht
  exact List.splitOnP_append_cons_of_forall_mem hts _ (beq_self_eq_true _) us

theorem commas_single (h : .mark (ch ',') ∉ ts) : commas ts = [ts] := by
  apply List.splitOnP_eq_singleton
  intro t ht
  rw [beq_eq_false_iff_ne]
  rintro rfl
  exact h ht

theorem valueList_append (ts : List Token) :
    valueList (ts ++ [.mark (ch ')')]) = (commas ts).mapM expr := by simp [valueList]

theorem expr_operand (h : operand ts = some v) : expr ts = some (.value v) := by
  unfold expr
  split
  · cases h
  · rw [h]
    rfl

end Parsing

theorem mapM_some {α β : Type*} {f : α → Option β} {g : α → β} {l : List α}
    (h : ∀ a ∈ l, f a = some (g a)) : l.mapM f = some (l.map g) := by
  induction l with
  | nil => rfl
  | cons a l ih =>
    rw [List.forall_mem_cons] at h
    rw [List.mapM_cons, h.1, ih h.2]
    rfl

section Clauses
variable {α : Type*} (tokens : α → List Token) (value : α → Value)

def comparisonTokens (k : List CChar × α) : List Token :=
  .word k.1::.mark (ch '=')::tokens k.2

/-- Comparisons as a statement gives them. -/
def clauseTokens : Bool → List (List CChar × α) → List Token
  | _,[] => []
  | flag,k::ks =>
    .word (if flag then cstr "and" else cstr "where")::
      (comparisonTokens tokens k ++ clauseTokens true ks)

/-- Where no keyword stands in them, the comparisons are found between the keywords. -/
theorem splitOnP_clause {k : List CChar × α} {ks : List (List CChar × α)}
    (h : ∀ k' ∈ k::ks, ∀ t ∈ comparisonTokens tokens k', t.isKeyword "and" = false) :
    (comparisonTokens tokens k ++ clauseTokens tokens true ks).splitOnP (Token.isKeyword "and") =
      (k::ks).map (comparisonTokens tokens) := by
  induction ks generalizing k with
  | nil =>
    rw [clauseTokens, List.append_nil]
    exact List.splitOnP_eq_singleton (h k (by simp))
  | cons k' ks ih =>
    rw [List.forall_mem_cons] at h
    rw [clauseTokens, List.splitOnP_append_cons_of_forall_mem h.1 _ rfl, ih h.2]
    rfl

/-- Comparisons with operands are read back. -/
theorem whereClause_clause {ks : List (List CChar × α)}
    (hcolumn : ∀ k ∈ ks, (Token.word k.1).isKeyword "and" = false)
    (hvalue : ∀ k ∈ ks, operand (tokens k.2) = some (value k.2)) :
    whereClause (clauseTokens tokens false ks) = some (ks.map fun k => ⟨k.1,value k.2⟩) := by
  cases ks with
  | nil => rfl
  | cons k ks =>
    have hand : ∀ k' ∈ k::ks, ∀ t ∈ comparisonTokens tokens k', t.isKeyword "and" = false := by
      intro k' hk' t ht
      simp only [comparisonTokens, List.mem_cons] at ht
      rcases ht with rfl | rfl | ht
      · exact hcolumn k' hk'
      · rfl
      · exact (operand_tokens (hvalue k' hk')).1 "and" t ht
    have hread : ∀ k' ∈ k::ks, comparison (comparisonTokens tokens k') =
        some ⟨k'.1,value k'.2⟩ := by
      intro k' hk'
      simp [comparison, comparisonTokens, hvalue k' hk']
    have hwhere : whereClause (clauseTokens tokens false (k::ks)) =
        ((comparisonTokens tokens k ++ clauseTokens tokens true ks).splitOnP
          (Token.isKeyword "and")).mapM comparison := rfl
    rw [hwhere, splitOnP_clause tokens hand, List.mapM_map]
    exact mapM_some hread

end Clauses

section Execution
variable {d : Table} {now : Value} {rows : List Row} {s : Statement}
  {r : List Row × Option (List Row)}

theorem exec_eq_some_iff : s.exec d now rows = some r ↔
    (s.names.1 = d.name ∧ (∀ c ∈ s.names.2, c ∈ d.columns) ∧
      ((s.effect d now rows).2 = none → d.admits (s.effect d now rows).1)) ∧
        s.effect d now rows = r := by
  rw [Statement.exec, Option.ite_none_right_eq_some, Option.some.injEq]

/-- A `select` that names only columns of the table finds the rows that satisfy it. -/
theorem exec_select {cs : List Comparison} (h : ∀ c ∈ cs, c.column ∈ d.columns) :
    (Statement.select d.name cs).exec d now rows = some (rows,some (rows.filter (Satisfies cs))) :=
  exec_eq_some_iff.mpr ⟨⟨rfl,by simpa [Statement.names] using h,by simp [Statement.effect]⟩,rfl⟩

end Execution

end LibeventHttpd.Sql
