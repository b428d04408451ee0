import LibeventHttpd.Library.Collection
import LibeventHttpd.MySql.Effects
import LibeventHttpd.MySql.Output

/-! The table as a collection of rows: the change that a form makes, and the page for it. -/
namespace LibeventHttpd.MySql
open Sql Collection Stdio
open MathCgi (numeral toInt)

/-- No field is filled in. -/
def Blank (db : Fields) : Prop := db.name = [] ∧ db.sex = [] ∧ db.age = [] ∧ db.school = []

instance (db : Fields) : Decidable (Blank db) := inferInstanceAs (Decidable (_ ∧ _ ∧ _ ∧ _))

/-- The change that a form asks for. -/
def demand (d : Table) (now : Value) (db : Fields) (rows : List Row) : Option (Change Row) :=
  if db.op.headD 0 = ch 'i' then
    if missingField db = none then some (.add (inserted db now (d.fresh rows))) else none
  else if db.op.headD 0 = ch 'd' then
    if Blank db then none else some (.remove fun r => Matches db r)
  else none

/-- The change that is made: the table that it leads to is admitted. -/
def change (d : Table) (now : Value) (db : Fields) (rows : List Row) : Option (Change Row) :=
  (demand d now db rows).filter fun c => d.admits (c.apply rows)

/-- The rows that a form leaves. -/
def changed (d : Table) (now : Value) (db : Fields) (rows : List Row) : List Row :=
  replay rows (change d now db rows).toList

inductive Page where
  | refused (arg : List CChar)
  | tables (title : List String) (ts : List (List Row))
  | empty

/-- The page for a form. After a change it shows the rows that match, and all of them. -/
def answer (d : Table) (now : Value) (db : Fields) (rows : List Row) : Page :=
  let rows' := changed d now db rows
  if db.op.headD 0 = ch 'i' then
    if (change d now db rows).isSome then
      .tables ["\t<h1>Insert Success......</h1>\n"] [rows'.filter (Matches db),rows']
    else .refused ((missingField db).getD (cstr "insert error"))
  else if db.op.headD 0 = ch 'd' then
    if (change d now db rows).isSome then
      .tables ["\t<h1>Delete Success......</h1>\n"] [rows'.filter (Matches db),rows']
    else .refused (cstr "delete error")
  else if db.op.headD 0 = ch 's' then .tables [] [rows.filter (Matches db)]
  else if db.op.headD 0 = ch 'm' then .empty
  else .refused (cstr "op error")

section Text
variable (d : Table)

def rowText (r : Row) : List CChar :=
  ((shown d r).map fun cell => cell.getD (cstr "(null)") ++ cstr "\t").flatten ++ cstr "<br/>"

def tableText (rows : List Row) : List CChar :=
  cstr "\t<h2>number of dataline returned: " ++ numeral (toInt rows.length) ++ cstr "</h2>\n" ++
    ((d.columns.map (· ++ cstr "\t")).flatten ++ cstr "<br/>" ++ (rows.map (rowText d)).flatten)

def topText : List CChar := okLine ++ cstr "<html>\n" ++ cstr "<head>\n"

def bottomText : List CChar := cstr "</body>\n" ++ cstr "</html>\n"

/-- The bytes of a page as they arrive: a page of `Error` comes behind its picture. -/
def Page.bytes (picture : List CChar) : Page → List CChar
  | .refused arg => picture ++ errorPage [] arg
  | .tables title ts => topText ++ (title.map cstr).flatten ++ cstr "</head>\n" ++
      cstr "<body>\n" ++ (ts.map (tableText d)).flatten ++ bottomText
  | .empty => topText ++ bottomText

end Text

/-- The table that the program expects. -/
def Expected (d : Table) : Prop := d.name = cstr "Person" ∧ ∀ c ∈ insertColumns, c ∈ d.columns

instance (d : Table) : Decidable (Expected d) := inferInstanceAs (Decidable (_ ∧ _))

/-- The text that events print, and no file. -/
structure Prints (es : List Event) (t : List CChar) : Prop where
  buffered : .direct ∉ outputs es
  text : ordered [] (outputs es) = t

section Prints
variable {es es' : List Event} {t t' : List CChar}

theorem outputs_append (es es' : List Event) : outputs (es ++ es') = outputs es ++ outputs es' :=
  List.filterMap_append

theorem Prints.append (h : Prints es t) (h' : Prints es' t') : Prints (es ++ es') (t ++ t') where
  buffered := by
    rw [outputs_append, List.mem_append, not_or]
    exact ⟨h.buffered,h'.buffered⟩
  text := by rw [ordered_append, h.text, h'.text]

theorem prints_nil : Prints [] [] := ⟨by simp [outputs],rfl⟩

/-- An event that prints nothing. -/
theorem Prints.cons {e : Event} (he : e.output = none) (h : Prints es t) : Prints (e::es) t := by
  have houtputs : outputs (e::es) = outputs es := List.filterMap_cons_none he
  exact ⟨houtputs ▸ h.buffered,houtputs ▸ h.text⟩

theorem prints_print {p : Piece} (hp : output p = .print t) : Prints [.print p] t := by
  have houtputs : outputs [.print p] = [.print t] := congrArg (fun o => [o]) hp
  constructor
  · simp [houtputs]
  · rw [houtputs]
    exact List.append_nil t

theorem Prints.print {p : Piece} (hp : output p = .print t) (h : Prints es t') :
    Prints (.print p::es) (t ++ t') := (prints_print hp).append h

/-- Without direct writes the buffer changes nothing. -/
theorem Prints.received (h : Prints es t) (cap : ℕ) (file : List CChar) :
    received cap file (outputs es) = t := by
  have hcommutes : Commutes cap file ⟨[],[]⟩ (outputs es) := by
    intro before after hsplit
    exact absurd (hsplit ▸ by simp) h.buffered
  have hbytes : ∀ o ∈ outputs es, o.bytes file = o.bytes [] := by
    intro o ho
    cases o with
    | print bytes => rfl
    | direct => exact absurd ho h.buffered
  rw [(received_iff _).mpr hcommutes, ← h.text, ordered, ordered, List.map_congr_left hbytes]

end Prints

section Demands
variable {d : Table} {now : Value} {db : Fields} {rows : List Row}

theorem not_insert_of_delete {c : CChar} (h : c = ch 'd') : c ≠ ch 'i' := by
  rw [h]
  decide

theorem comparisons_nil_iff : comparisons db = [] ↔ Blank db := by
  rw [comparisons, List.map_eq_nil_iff, compared_nil_iff, fieldConditions_nil_iff]
  rfl

/-- The change that is asked for is made if the table may become so. -/
theorem change_of_demand {c : Change Row}
    (h : demand d now db rows = some c) : change d now db rows =
      if d.admits (c.apply rows) then some c else none := by
  rw [change, h, Option.filter_some]

theorem changed_some {c : Change Row}
    (h : change d now db rows = some c) : changed d now db rows = c.apply rows := by
  rw [changed, h]
  rfl

theorem demand_insert (d : Table) (now : Value) (rows : List Row)
    (hop : db.op.headD 0 = ch 'i') :
    demand d now db rows = if missingField db = none then
      some (.add (inserted db now (d.fresh rows))) else none := if_pos hop

theorem demand_delete (d : Table) (now : Value) (rows : List Row)
    (hop : db.op.headD 0 = ch 'd') :
    demand d now db rows = if Blank db then none
      else some (.remove fun r => Matches db r) := by
  rw [demand, if_neg (not_insert_of_delete hop), if_pos hop]

theorem answer_insert (d : Table) (now : Value) (rows : List Row)
    (hop : db.op.headD 0 = ch 'i') :
    answer d now db rows = if (change d now db rows).isSome then
      .tables ["\t<h1>Insert Success......</h1>\n"]
        [(changed d now db rows).filter (Matches db),changed d now db rows]
      else .refused ((missingField db).getD (cstr "insert error")) := if_pos hop

theorem answer_delete (d : Table) (now : Value) (rows : List Row)
    (hop : db.op.headD 0 = ch 'd') :
    answer d now db rows = if (change d now db rows).isSome then
      .tables ["\t<h1>Delete Success......</h1>\n"]
        [(changed d now db rows).filter (Matches db),changed d now db rows]
      else .refused (cstr "delete error") := by
  rw [answer, if_neg (not_insert_of_delete hop), if_pos hop]

end Demands

section Queries
variable {d : Table} {now : Value} {db : Fields} (s : Session)

/-- What the server makes of a statement that comes to a change, or to none. -/
def carry (s : Session) : Option (Change Row) → Bool × Session
  | some c => (true,⟨c.apply s.rows,none⟩)
  | none => (false,s)

/-- A statement that changes the table is carried out if the table may become so. -/
theorem query_change {q : List CChar} {st : Statement} {c : Change Row}
    (hparse : parse (lex q) = some st) (hname : st.names.1 = d.name)
    (hcolumns : ∀ c ∈ st.names.2, c ∈ d.columns)
    (heffect : st.effect d now s.rows = (c.apply s.rows,none))
    (hdemand : demand d now db s.rows = some c) :
    (mysql d now).query q s = carry s (change d now db s.rows) := by
  rw [mysql_query now hparse, Statement.exec, heffect, change_of_demand hdemand]
  by_cases hadmits : d.admits (c.apply s.rows) = true
  · rw [if_pos ⟨hname,hcolumns,fun _ => hadmits⟩, if_pos hadmits]
    rfl
  · rw [if_neg fun h => hadmits (h.2.2 rfl), if_neg hadmits]
    rfl

theorem query_insert (hd : Expected d) (h : Proper db) (hop : db.op.headD 0 = ch 'i')
    (hmissing : missingField db = none) :
    (mysql d now).query (insertQuery db) s = carry s (change d now db s.rows) := by
  have hdemand := demand_insert d now s.rows hop
  rw [if_pos hmissing] at hdemand
  exact query_change s (parse_insert h hmissing) hd.1.symm hd.2 rfl hdemand

/-- Without a field that is not empty a deletion is refused. -/
theorem query_delete (hd : Expected d) (h : Proper db) (hop : db.op.headD 0 = ch 'd') :
    (mysql d now).query (deleteQuery db) s = carry s (change d now db s.rows) := by
  have hdemand := demand_delete d now s.rows hop
  have hparse := parse_delete h
  by_cases hblank : Blank db
  · rw [if_pos hblank] at hdemand
    rw [if_pos (comparisons_nil_iff.mpr hblank)] at hparse
    rw [change, hdemand]
    simp [mysql, hparse, carry]
  · rw [if_neg hblank] at hdemand
    rw [if_neg (mt comparisons_nil_iff.mp hblank)] at hparse
    have hknown : Known d db := known_insert hd.1 hd.2
    refine query_change s hparse hd.1.symm (by simpa [Statement.names] using hknown.2) ?_ hdemand
    simp [Statement.effect, Change.apply, satisfies_iff]

end Queries

section Pages
variable {d : Table} (now : Value) (s : ServerDatabase Session)

theorem prints_row (r : Row) : Prints [.print (.row (shown d r))] (rowText d r) :=
  prints_print rfl

theorem prints_rows (rows : List Row) :
    Prints ((rows.map (shown d)).map fun cells => .print (.row cells))
      (rows.map (rowText d)).flatten := by
  induction rows with
  | nil => exact prints_nil
  | cons r rows ih => exact (prints_row r).append ih

theorem prints_printResult (res : Option ℕ) (rows : List Row) :
    Prints (printResult res ⟨rows.length,d.columns,rows.map (shown d)⟩) (tableText d rows) := by
  have hfetch := (prints_rows (d := d) rows).cons (e := .fetch res) rfl
  have hnames := (hfetch.print (p := .names d.columns) rfl).cons (e := .fetch res) rfl
  exact (hnames.print (p := .affected rows.length) rfl).cons (e := .affectedRows) rfl

/-- A `Select` prints the rows that match the fields. -/
theorem select_prints (h : Proper s.fields) (hknown : Known d s.fields) :
    (select (mysql d now) s).2.1.client.rows = s.client.rows ∧
      Prints (select (mysql d now) s).2.2
        (tableText d (s.client.rows.filter (Matches s.fields))) := by
  have hquery : (mysql d now).query (selectQuery s.fields) s.client =
      (true,⟨s.client.rows,some (s.client.rows.filter (Matches s.fields))⟩) := by
    rw [mysql_query now (parse_select h), ← hknown.1, exec_select hknown.2]
    simp [satisfies_iff]
  rw [select_eq s hquery rfl]
  exact ⟨rfl,((prints_printResult _ _).cons rfl).cons rfl⟩

theorem proper_cleared (db : Fields) : Proper (cleared db) :=
  ⟨by simp [cleared, Plain],by simp [cleared, Plain],.inl rfl⟩

theorem matches_cleared (db : Fields) (r : Row) : Matches (cleared db) r :=
  satisfies_iff.mp satisfies_cleared

theorem selectTwice_prints (h : Proper s.fields) (hknown : Known d s.fields) :
    (selectTwice (mysql d now) s).1.client.rows = s.client.rows ∧
      Prints (selectTwice (mysql d now) s).2
        (tableText d (s.client.rows.filter (Matches s.fields)) ++ tableText d s.client.rows) := by
  obtain ⟨hrows,hfirst⟩ := select_prints now s h hknown
  obtain ⟨hrows',hsecond⟩ := select_prints now
    { (select (mysql d now) s).2.1 with fields := cleared s.fields } (proper_cleared _)
    ⟨hknown.1,fun c hc => by cases hc⟩
  have hall : (s.client.rows.filter (Matches (cleared s.fields))) = s.client.rows :=
    List.filter_eq_self.mpr fun r _ => decide_eq_true (matches_cleared _ r)
  rw [hrows] at hrows'
  rw [hrows, hall] at hsecond
  rw [selectTwice_fst, selectTwice_snd, select_fields]
  exact ⟨hrows',hfirst.append hsecond⟩

theorem prints_texts (ts : List String) : Prints (ts.map say) (ts.map cstr).flatten := by
  induction ts with
  | nil => exact prints_nil
  | cons t ts ih => exact ih.print (p := .text (cstr t)) rfl

/-- What `Success` prints around its `Select`s. -/
theorem prints_page {es : List Event} {ts : List (List Row)} (title : List String)
    (h : Prints es (ts.map (tableText d)).flatten) :
    Prints (.print (.status okLine)::(["<html>\n","<head>\n"] ++ title ++
        ["</head>\n","<body>\n"]).map say ++ es ++ ["</body>\n","</html>\n"].map say)
      ((Page.tables title ts).bytes d []) := by
  have htop := (prints_texts (["<html>\n","<head>\n"] ++ title ++
    ["</head>\n","<body>\n"])).print (p := .status okLine) rfl
  have hpage := (htop.append h).append (prints_texts ["</body>\n","</html>\n"])
  simpa [Page.bytes, topText, bottomText] using hpage

/-- The page after a change. -/
theorem success_prints (h : Proper s.fields) (hknown : Known d s.fields) {arg : List CChar}
    {title : String} (harg : arg = cstr "insert" ∧ title = "\t<h1>Insert Success......</h1>\n" ∨
      arg = cstr "delete" ∧ title = "\t<h1>Delete Success......</h1>\n") :
    (success (mysql d now) s arg).1.client.rows = s.client.rows ∧
      Prints (success (mysql d now) s arg).2 ((Page.tables [title]
        [s.client.rows.filter (Matches s.fields),s.client.rows]).bytes d []) := by
  obtain ⟨hrows,htables⟩ := selectTwice_prints now s h hknown
  rw [← List.append_nil (tableText d s.client.rows)] at htables
  obtain ⟨rfl,rfl⟩ | ⟨rfl,rfl⟩ := harg
  · exact ⟨hrows,prints_page ["\t<h1>Insert Success......</h1>\n"] htables⟩
  · exact ⟨hrows,prints_page ["\t<h1>Delete Success......</h1>\n"] htables⟩

theorem success_select_prints (h : Proper s.fields) (hknown : Known d s.fields) :
    (success (mysql d now) s (cstr "select")).1.client.rows = s.client.rows ∧
      Prints (success (mysql d now) s (cstr "select")).2
        ((Page.tables [] [s.client.rows.filter (Matches s.fields)]).bytes d []) := by
  obtain ⟨hrows,htable⟩ := select_prints now s h hknown
  rw [← List.append_nil (tableText d _)] at htable
  exact ⟨hrows,prints_page [] htable⟩

theorem success_modify_prints (d : Table) :
    Prints (success (mysql d now) s (cstr "modify")).2 (Page.empty.bytes d []) := by
  have hpage : Prints (success (mysql d now) s (cstr "modify")).2 _ :=
    (prints_texts ["<html>\n","<head>\n","</body>\n","</html>\n"]).print
      (p := .status okLine) rfl
  simpa [Page.bytes, topText, bottomText] using hpage

end Pages

section Refusals
variable (picture : List CChar)

theorem length_messageText_le (messages : List (String × String)) (arg : List CChar) :
    (messageText messages arg).length ≤ ((messages.map fun m => cstr m.2).flatten).length :=
  ((List.filter_sublist.map _).flatten).length_le

/-- The text of an error page without its message. -/
theorem length_errorPage_le (arg : List CChar) :
    (errorPage [] arg).length ≤ (errorMessage arg).length+112 := by
  have hframe : (errorStatus arg ++ (cstr "<html>\n" ++ cstr "<head>\n" ++
      (if arg.length < 7 then cstr "ERROR INFORMATION!\n" else cstr "SERVER ERROR!\n") ++
      cstr "</head>\n") ++ cstr "<body>\n" ++ cstr "</body>\n" ++ cstr "</html>\n").length ≤
        112 := by
    unfold errorStatus
    split_ifs
    · decide
    · decide
  simp only [errorPage, List.length_append, List.length_nil] at hframe ⊢
  omega

/-- An error page is shorter than any buffer on its way, whatever its argument. -/
theorem length_errorPage_lt (arg : List CChar) : (errorPage [] arg).length < 1112 := by
  have hpage := length_errorPage_le arg
  have hfield := length_messageText_le fieldMessages arg
  have hserver := length_messageText_le serverMessages arg
  have hfields : ((fieldMessages.map fun m => cstr m.2).flatten).length < 1000 := by decide +kernel
  have hservers : ((serverMessages.map fun m => cstr m.2).flatten).length < 1000 := by
    decide +kernel
  have hmessage : (errorMessage arg).length < 1000 := by
    unfold errorMessage
    split_ifs
    · exact hfield.trans_lt hfields
    · exact hserver.trans_lt hservers
  omega

theorem copies_append (es es' : List Event) : copies picture (outputs (es ++ es')) =
    copies picture (outputs es) ++ copies picture (outputs es') := by
  simp [copies, outputs]

theorem copies_sayMessage (messages : List (String × String)) (arg : List CChar) :
    copies picture (outputs (sayMessage messages arg)) = [] := by
  rw [sayMessage]
  induction messages.filter fun m => cstr m.1 = arg with
  | nil => rfl
  | cons m ms ih => exact ih

theorem copies_error (arg : List CChar) : copies picture (outputs (error arg)) = picture := by
  unfold error
  split_ifs
  · rw [copies_append, copies_append, copies_sayMessage]
    exact List.append_nil picture
  · rw [copies_append, copies_append, copies_sayMessage]
    exact List.append_nil picture

/-- The picture arrives before the text around it. -/
theorem received_error (arg : List CChar) :
    received 4096 picture (outputs (error arg)) = picture ++ errorPage [] arg := by
  have hshort : (ordered [] (outputs (error arg))).length < 4096 := by
    rw [ordered_error]
    exact (length_errorPage_lt arg).trans (by decide)
  rw [received_short hshort, ordered_error, copies_error]

end Refusals

/-- The rows that are left and the bytes that arrive are those of the answer. -/
structure Meets (d : Table) (now : Value) (picture : List CChar) (s : ServerDatabase Session)
    (t : ServerDatabase Session × List Event) : Prop where
  rows : t.1.client.rows = changed d now s.fields s.client.rows
  page : received 4096 picture (outputs t.2) =
    (answer d now s.fields s.client.rows).bytes d picture

section Operations
variable {d : Table} {now : Value} {picture : List CChar} {s s' : ServerDatabase Session}
  {es : List Event}

theorem meets_refused {arg : List CChar} (hchange : change d now s.fields s.client.rows = none)
    (hanswer : answer d now s.fields s.client.rows = .refused arg)
    (hrows : s'.client.rows = s.client.rows) (hes : outputs es = outputs (error arg)) :
    Meets d now picture s (s',es) where
  rows := by
    rw [changed, hchange]
    exact hrows
  page := by rw [hes, received_error, hanswer, Page.bytes]

theorem Prints.meets (h : Prints es ((answer d now s.fields s.client.rows).bytes d picture))
    (hrows : s'.client.rows = changed d now s.fields s.client.rows) :
    Meets d now picture s (s',es) := ⟨hrows,h.received _ _⟩

/-- The page of a change that is made. -/
theorem meets_changed (hd : Expected d) (h : Proper s.fields) {c : Change Row}
    (hchange : change d now s.fields s.client.rows = some c) {q arg : List CChar} {title : String}
    (harg : arg = cstr "insert" ∧ title = "\t<h1>Insert Success......</h1>\n" ∨
      arg = cstr "delete" ∧ title = "\t<h1>Delete Success......</h1>\n")
    (hanswer : answer d now s.fields s.client.rows = .tables [title]
      [(changed d now s.fields s.client.rows).filter (Matches s.fields),
        changed d now s.fields s.client.rows]) :
    Meets d now picture s (thenSuccess (mysql d now) arg
      (true,{ s with client := ⟨c.apply s.client.rows,none⟩ },[.query q true])) := by
  obtain ⟨hrows,hpage⟩ := success_prints now
    { s with client := ⟨c.apply s.client.rows,none⟩ } h (known_insert hd.1 hd.2) harg
  rw [changed_some hchange] at hanswer
  constructor
  case rows => rw [changed_some hchange]; exact hrows
  case page =>
    rw [hanswer]
    exact (hpage.cons (e := .query q true) rfl).received _ _

theorem operate_insert (hd : Expected d) (h : Proper s.fields)
    (hop : s.fields.op.headD 0 = ch 'i') :
    Meets d now picture s (operate (mysql d now) s) := by
  have hoperate : operate (mysql d now) s =
      thenSuccess (mysql d now) (cstr "insert") (insert (mysql d now) s) := if_pos hop
  have hanswer := answer_insert d now s.client.rows hop
  rw [hoperate, insert]
  cases hmissing : missingField s.fields with
  | some field =>
    have hdemand := demand_insert d now s.client.rows hop
    rw [if_neg (by simp [hmissing])] at hdemand
    have hchange : change d now s.fields s.client.rows = none := by
      rw [change, hdemand]
      rfl
    rw [hchange, hmissing] at hanswer
    exact meets_refused hchange hanswer rfl rfl
  | none =>
    simp only [opFun, query_insert s.client hd h hop hmissing]
    cases hchange : change d now s.fields s.client.rows with
    | none =>
      rw [hchange, hmissing] at hanswer
      exact meets_refused hchange hanswer rfl rfl
    | some c =>
      rw [hchange] at hanswer
      exact meets_changed hd h hchange (.inl ⟨rfl,rfl⟩) hanswer

theorem operate_delete (hd : Expected d) (h : Proper s.fields)
    (hop : s.fields.op.headD 0 = ch 'd') :
    Meets d now picture s (operate (mysql d now) s) := by
  have hoperate : operate (mysql d now) s =
      thenSuccess (mysql d now) (cstr "delete") (delete (mysql d now) s) := by
    rw [operate, if_neg (not_insert_of_delete hop), if_pos hop]
  have hanswer := answer_delete d now s.client.rows hop
  rw [hoperate, delete]
  simp only [opFun, query_delete s.client hd h hop]
  cases hchange : change d now s.fields s.client.rows with
  | none =>
    rw [hchange] at hanswer
    exact meets_refused hchange hanswer rfl rfl
  | some c =>
    rw [hchange] at hanswer
    exact meets_changed hd h hchange (.inr ⟨rfl,rfl⟩) hanswer

/-- Whatever the operation, the table becomes what it should, and the page shows it. -/
theorem operate_meets (hd : Expected d) (h : Proper s.fields) :
    Meets d now picture s (operate (mysql d now) s) := by
  by_cases hi : s.fields.op.headD 0 = ch 'i'
  · exact operate_insert hd h hi
  by_cases hdel : s.fields.op.headD 0 = ch 'd'
  · exact operate_delete hd h hdel
  have hchange : change d now s.fields s.client.rows = none := by
    rw [change, demand, if_neg hi, if_neg hdel]
    rfl
  have hchanged : changed d now s.fields s.client.rows = s.client.rows := by
    rw [changed, hchange]
    rfl
  have hanswer : answer d now s.fields s.client.rows = _ := (if_neg hi).trans (if_neg hdel)
  rw [operate, if_neg hi, if_neg hdel]
  by_cases hs : s.fields.op.headD 0 = ch 's'
  · obtain ⟨hrows,hpage⟩ := success_select_prints now s h (known_insert hd.1 hd.2)
    rw [if_pos hs] at hanswer ⊢
    refine ⟨hrows.trans hchanged.symm,?_⟩
    rw [hanswer]
    exact hpage.received _ _
  rw [if_neg hs] at hanswer ⊢
  by_cases hm : s.fields.op.headD 0 = ch 'm'
  · rw [if_pos hm] at hanswer ⊢
    refine ⟨hchanged.symm,?_⟩
    rw [hanswer]
    exact (success_modify_prints now s d).received _ _
  · rw [if_neg hm] at hanswer ⊢
    exact meets_refused hchange hanswer rfl rfl

end Operations
end LibeventHttpd.MySql
