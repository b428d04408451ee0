import LibeventHttpd.MySql.Statements

/-! The class `server_database` and `handle_data`: what they print and which functions of the
client library they call, in program order. -/
namespace LibeventHttpd.MySql

/-- A result set: the number of rows, the names of the columns, and the rows, where a cell may be
`NULL`. -/
structure Result where
  affected : ℕ
  names : List (List CChar)
  rows : List (List (Option (List CChar)))

/-- The client library and the server behind it: whether `mysql_real_connect` and `mysql_query`
succeed, and what `mysql_store_result` gives. -/
structure Client (σ : Type*) where
  connect : σ → Bool × σ
  query : List CChar → σ → Bool × σ
  store : σ → Option Result × σ

/-- What is printed. Status lines are kept apart from other text. -/
inductive Piece where
  | status (line : List CChar)
  | text (t : List CChar)
  | affected (n : ℕ)
  | names (ns : List (List CChar))
  | row (cells : List (Option (List CChar)))
  | file (path : List CChar)
  deriving DecidableEq

/-- Result sets are numbered in the order they are stored; `none` is `NULL`. -/
inductive Event where
  | print (p : Piece)
  | init
  | connect (ok : Bool)
  | query (q : List CChar) (ok : Bool)
  | store (res : Option ℕ)
  | affectedRows
  | fetch (res : Option ℕ)
  | free (res : Option ℕ)
  | close
  deriving DecidableEq

/-- The object: its fields, `_res`, how many result sets have been stored, and the state of the
client library. -/
structure ServerDatabase (σ : Type*) where
  fields : Fields
  res : Option ℕ
  stored : ℕ
  client : σ

def okLine : List CChar := cstr "HTTP/1.1 200 OK\r\n\r\n"

def say (s : String) : Event := .print (.text (cstr s))

def picture : List CChar := cstr "/home/lounuo/HTTP/htdocs/yeyuanxinzhizhu.jpg"

/-- The arguments of `Error` that are answered with 400. -/
def fieldMessages : List (String × String) :=
  [("op","Operation can not be NULL, please return back to input again......\n"),
    ("name","Name can not be NULL, please return back to input again......\n"),
    ("sex","Sex can not be NULL, please return back to input again......\n"),
    ("age","Age can not be NULL, please return back to input again......\n"),
    ("school","School can not be NULL, please return back to input again......\n")]

/-- The arguments of `Error` that are answered with 500. -/
def serverMessages : List (String × String) :=
  [("op error","Operation error, please return back to choose again......\n"),
    ("select error","server select information error, please return back to try again......\n"),
    ("insert error","server insert information error, please return back to try again......\n"),
    ("delete error","server delete information error, please return back to try again......\n"),
    ("connect error","server connect databases error, please return back to try again......\n")]

/-- `if(strcmp(arg, …) == 0)` for every message of a table. -/
def sayMessage (messages : List (String × String)) (arg : List CChar) : List Event :=
  (messages.filter fun m => cstr m.1 = arg).map fun m => say m.2

def error (arg : List CChar) : List Event :=
  if arg.length < 7 then
    [.print (.status (cstr "HTTP/1.1 400 Bad Request\r\n\r\n")),say "<html>\n",say "<head>\n",
      say "ERROR INFORMATION!\n",say "</head>\n",say "<body>\n"] ++ sayMessage fieldMessages arg ++
      [.print (.file picture),say "</body>\n",say "</html>\n"]
  else
    [.print (.status (cstr "HTTP/1.1 500 Internal Server Error\r\n\r\n")),say "<html>\n",
      say "<head>\n",say "SERVER ERROR!\n",say "</head>\n",say "<body>\n"] ++
      sayMessage serverMessages arg ++ [.print (.file picture),say "</body>\n",say "</html>\n"]

section Methods
variable {σ : Type*} (c : Client σ) (s : ServerDatabase σ)

def connectDatabase : Bool × ServerDatabase σ × List Event :=
  let (ok,client) := c.connect s.client
  (ok,{ s with client := client },[.init,.connect ok])

def opFun (q : List CChar) : Bool × ServerDatabase σ × List Event :=
  let (ok,client) := c.query q s.client
  (ok,{ s with client := client },[.query q ok])

/-- `_res = mysql_store_result(&_mysql)` -/
def storeResult : Option Result × ServerDatabase σ × List Event :=
  match c.store s.client with
  | (none,client) => (none,{ s with client := client, res := none },[.store none])
  | (some r,client) =>
    (some r,{ s with client := client, res := some s.stored, stored := s.stored+1 },
      [.store (some s.stored)])

/-- What `Select` prints of a result. -/
def printResult (res : Option ℕ) (r : Result) : List Event :=
  [.affectedRows,.print (.affected r.affected),.fetch res,.print (.names r.names),.fetch res] ++
    r.rows.map fun cells => .print (.row cells)

def select : Bool × ServerDatabase σ × List Event :=
  let (ok,s,es) := opFun c s (selectQuery s.fields)
  if ok then
    match storeResult c s with
    | (none,s,es') => (false,s,es ++ es' ++ error (cstr "select error"))
    | (some r,s,es') => (true,s,es ++ es' ++ printResult s.res r)
  else (false,s,es ++ error (cstr "select error"))

def insert : Bool × ServerDatabase σ × List Event :=
  match missingField s.fields with
  | some field => (false,s,error field)
  | none =>
    let (ok,s,es) := opFun c s (insertQuery s.fields)
    if ok then (true,s,es) else (false,s,es ++ error (cstr "insert error"))

def delete : Bool × ServerDatabase σ × List Event :=
  let (ok,s,es) := opFun c s (deleteQuery s.fields)
  if ok then (true,s,es) else (false,s,es ++ error (cstr "delete error"))

def modify : Bool × ServerDatabase σ × List Event := (true,s,[])

/-- `_name = _sex = _age = _school = ""` -/
def cleared (fields : Fields) : Fields := ⟨fields.op,[],[],[],[]⟩

/-- The two `Select`s of `Success` after a change. -/
def selectTwice : ServerDatabase σ × List Event :=
  let (_,s,es) := select c s
  let (_,s,es') := select c { s with fields := cleared s.fields }
  (s,es ++ es')

def success (arg : List CChar) : ServerDatabase σ × List Event :=
  let header := [.print (.status okLine),say "<html>\n",say "<head>\n"]
  let footer := [say "</body>\n",say "</html>\n"]
  if arg = cstr "select" then
    let (_,s,es) := select c s
    (s,header ++ [say "</head>\n",say "<body>\n"] ++ es ++ footer)
  else if arg = cstr "insert" then
    let (s,es) := selectTwice c s
    (s,header ++ [say "\t<h1>Insert Success......</h1>\n",say "</head>\n",say "<body>\n"] ++ es ++
      footer)
  else if arg = cstr "delete" then
    let (s,es) := selectTwice c s
    (s,header ++ [say "\t<h1>Delete Success......</h1>\n",say "</head>\n",say "<body>\n"] ++ es ++
      footer)
  else (s,header ++ footer)

/-- `if(…) ser_db.Success(arg)` -/
def thenSuccess (arg : List CChar) (r : Bool × ServerDatabase σ × List Event) :
    ServerDatabase σ × List Event :=
  let (ok,s,es) := r
  if ok then
    let (s,es') := success c s arg
    (s,es ++ es')
  else (s,es)

/-- The switch on the first character of the operation. -/
def operate : ServerDatabase σ × List Event :=
  let op := s.fields.op.headD 0
  if op = ch 'i' then thenSuccess c (cstr "insert") (insert c s)
  else if op = ch 'd' then thenSuccess c (cstr "delete") (delete c s)
  else if op = ch 's' then success c s (cstr "select")
  else if op = ch 'm' then thenSuccess c (cstr "modify") (modify s)
  else (s,error (cstr "op error"))

/-- `~server_database` -/
def destroy : List Event := [.free s.res,.close]

end Methods

section Cases
variable {σ : Type*} (c : Client σ) (s : ServerDatabase σ)

/-- The three ways a `Select` can go. -/
theorem select_cases :
    (∃ client, c.query (selectQuery s.fields) s.client = (false,client) ∧
      select c s = (false,{ s with client := client },
        .query (selectQuery s.fields) false::error (cstr "select error"))) ∨
    (∃ client client', c.query (selectQuery s.fields) s.client = (true,client) ∧
      c.store client = (none,client') ∧
      select c s = (false,{ s with client := client', res := none },
        .query (selectQuery s.fields) true::.store none::error (cstr "select error"))) ∨
    ∃ client client' r, c.query (selectQuery s.fields) s.client = (true,client) ∧
      c.store client = (some r,client') ∧
      select c s = (true,{ s with client := client', res := some s.stored, stored := s.stored+1 },
        .query (selectQuery s.fields) true::.store (some s.stored)::
          printResult (some s.stored) r) := by
  cases hquery : c.query (selectQuery s.fields) s.client with
  | mk ok client =>
    cases ok with
    | false =>
      left
      exact ⟨client,rfl,by simp [select, opFun, hquery]⟩
    | true =>
      right
      cases hstore : c.store client with
      | mk r client' =>
        cases r with
        | none =>
          left
          exact ⟨client,client',rfl,hstore,by simp [select, opFun, storeResult, hquery, hstore]⟩
        | some r =>
          right
          exact ⟨client,client',r,rfl,hstore,by simp [select, opFun, storeResult, hquery, hstore]⟩

/-- The three ways an `Insert` can go. -/
theorem insert_cases :
    (∃ field, missingField s.fields = some field ∧ insert c s = (false,s,error field)) ∨
    (∃ client, missingField s.fields = none ∧
      c.query (insertQuery s.fields) s.client = (false,client) ∧
      insert c s = (false,{ s with client := client },
        .query (insertQuery s.fields) false::error (cstr "insert error"))) ∨
    ∃ client, missingField s.fields = none ∧
      c.query (insertQuery s.fields) s.client = (true,client) ∧
      insert c s = (true,{ s with client := client },[.query (insertQuery s.fields) true]) := by
  cases hmissing : missingField s.fields with
  | some field =>
    left
    exact ⟨field,rfl,by simp [insert, hmissing]⟩
  | none =>
    right
    cases hquery : c.query (insertQuery s.fields) s.client with
    | mk ok client =>
      cases ok with
      | false =>
        left
        exact ⟨client,rfl,rfl,by simp [insert, opFun, hmissing, hquery]⟩
      | true =>
        right
        exact ⟨client,rfl,rfl,by simp [insert, opFun, hmissing, hquery]⟩

/-- The two ways a `Delete` can go. -/
theorem delete_cases :
    (∃ client, c.query (deleteQuery s.fields) s.client = (false,client) ∧
      delete c s = (false,{ s with client := client },
        .query (deleteQuery s.fields) false::error (cstr "delete error"))) ∨
    ∃ client, c.query (deleteQuery s.fields) s.client = (true,client) ∧
      delete c s = (true,{ s with client := client },[.query (deleteQuery s.fields) true]) := by
  cases hquery : c.query (deleteQuery s.fields) s.client with
  | mk ok client =>
    cases ok with
    | false =>
      left
      exact ⟨client,rfl,by simp [delete, opFun, hquery]⟩
    | true =>
      right
      exact ⟨client,rfl,by simp [delete, opFun, hquery]⟩

end Cases

section HandleData
variable {σ : Type*} (c : Client σ) (client : σ)

def construct : ServerDatabase σ := ⟨⟨[],[],[],[],[]⟩,none,0,client⟩

/-- The events from the construction of the object to its destruction; without five fields the
vector of pointers is read outside its bounds. -/
def handleData (query : List CChar) : Option (List Event) :=
  if query = [] then some []
  else if query.head? ≠ some (ch 'o') then
    some (error (cstr "op") ++ destroy (construct client))
  else do
    let fields ← splitQuery query
    let s := { construct client with fields := fields }
    let (ok,s,es) := connectDatabase c s
    let es := if ok then es else es ++ error (cstr "connect error")
    let (s,es') := operate c s
    return es ++ es' ++ destroy s

/-- The object after the call of `Connect_database`. -/
def connected (fields : Fields) : ServerDatabase σ := ⟨fields,none,0,(c.connect client).2⟩

theorem handleData_operate {query : List CChar} {fields : Fields}
    (ho : query.head? = some (ch 'o')) (hfields : splitQuery query = some fields) :
    handleData c client query = some ([.init,.connect (c.connect client).1] ++
      (if (c.connect client).1 then [] else error (cstr "connect error")) ++
      (operate c (connected c client fields)).2 ++
      destroy (operate c (connected c client fields)).1) := by
  have hne : query ≠ [] := by
    rintro rfl
    cases ho
  rw [handleData, if_neg hne, if_neg (not_not.mpr ho), hfields]
  cases hconnect : c.connect client with
  | mk ok client' =>
    cases ok <;> simp [connectDatabase, construct, connected, hconnect]

end HandleData

/-- A library whose calls all succeed, and a table without rows. -/
def working : Client Unit where
  connect := fun u => (true,u)
  query := fun _ u => (true,u)
  store := fun u => (some ⟨0,[],[]⟩,u)

/-- The same without a server to connect to. -/
def unreachable : Client Unit := { working with connect := fun u => (false,u) }

/-- Whatever the library answers, `v_query` is read only where entries were pushed exactly if the
query is answered before it is split, or has the five entries. -/
theorem handleData_isSome_iff {σ : Type*} (c : Client σ) (client : σ) (query : List CChar) :
    (handleData c client query).isSome ↔ query.head? ≠ some (ch 'o') ∨
      5 ≤ query.count (ch '=') ∨ (query.count (ch '=') = 4 ∧ MissesSex 2 query) := by
  by_cases ho : query.head? = some (ch 'o')
  · rw [or_iff_right (not_not.mpr ho), ← splitQuery_isSome_iff]
    cases hfields : splitQuery query with
    | some fields =>
      rw [handleData_operate c client ho hfields]
      exact iff_of_true rfl rfl
    | none =>
      have hne : query ≠ [] := by
        rintro rfl
        cases ho
      rw [handleData, if_neg hne, if_neg (not_not.mpr ho), hfields]
      exact Iff.rfl
  · rw [or_iff_left_of_imp fun _ => ho, handleData, if_pos ho]
    apply iff_of_true
    · split_ifs <;> rfl
    · exact ho

/-- A query with one parameter, and one where the parameter left out is not the third. -/
theorem handleData_out_of_bounds : handleData working () (cstr "operation=select") = none ∧
    handleData working () (cstr "operation=delete&name=baby&sex=lady&age=25") = none := by
  decide

end LibeventHttpd.MySql
