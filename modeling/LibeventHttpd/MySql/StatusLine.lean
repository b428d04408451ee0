import LibeventHttpd.MySql.ServerDatabase

/-! The status lines that the database program prints, against the calls that failed. -/
namespace LibeventHttpd.MySql

def Event.piece : Event → Option Piece
  | .print p => some p
  | _ => none

def Piece.statusLine : Piece → Option (List CChar)
  | .status line => some line
  | _ => none

def printed (es : List Event) : List Piece := es.filterMap Event.piece

def statusLines (es : List Event) : List (List CChar) := (printed es).filterMap Piece.statusLine

/-- A database call that did not succeed. -/
def Event.Failed : Event → Prop
  | .connect ok => ok = false
  | .query _ ok => ok = false
  | .store res => res = none
  | _ => False

/-- One status line is printed, before anything else, and says 200 only if all calls succeeded. -/
def Answered (es : List Event) : Prop :=
  ∃ line, (printed es).head? = some (.status line) ∧ statusLines es = [line] ∧
    (line = okLine → ∀ e ∈ es, ¬e.Failed)

section Selects
variable {σ : Type*} (c : Client σ)

/-- The query of a `Select` and the call for its result succeed. -/
def SelectOk (fields : Fields) (client : σ) : Prop :=
  (c.query (selectQuery fields) client).1 = true ∧
    (c.store (c.query (selectQuery fields) client).2).1.isSome

def afterSelect (fields : Fields) (client : σ) : σ :=
  if (c.query (selectQuery fields) client).1 then
    (c.store (c.query (selectQuery fields) client).2).2
  else (c.query (selectQuery fields) client).2

/-- Both `Select`s behind a change succeed. -/
def SelectsOk (fields : Fields) (client : σ) : Prop :=
  SelectOk c fields client ∧ SelectOk c (cleared fields) (afterSelect c fields client)

/-- Where the operation is carried out, the `Select`s that follow it succeed. -/
def ListingOk (fields : Fields) (client : σ) : Prop :=
  let op := fields.op.headD 0
  if op = ch 'i' then
    missingField fields = none → (c.query (insertQuery fields) client).1 = true →
      SelectsOk c fields (c.query (insertQuery fields) client).2
  else if op = ch 'd' then
    (c.query (deleteQuery fields) client).1 = true →
      SelectsOk c fields (c.query (deleteQuery fields) client).2
  else if op = ch 's' then SelectOk c fields client
  else True

end Selects

section Lists
variable {es es' : List Event}

@[simp] theorem printed_append : printed (es ++ es') = printed es ++ printed es' :=
  List.filterMap_append

@[simp] theorem statusLines_append :
    statusLines (es ++ es') = statusLines es ++ statusLines es' := by simp [statusLines]

@[simp] theorem statusLines_nil : statusLines [] = [] := rfl

/-- Events that print nothing and do not fail. -/
def Quiet (es : List Event) : Prop := printed es = [] ∧ ∀ e ∈ es, ¬e.Failed

theorem Quiet.statusLines (h : Quiet es) : statusLines es = [] := by
  rw [MySql.statusLines, h.1]
  rfl

theorem Quiet.answered_append (h : Quiet es) : Answered (es ++ es') ↔ Answered es' := by
  have hfailed : (∀ e ∈ es ++ es', ¬e.Failed) ↔ ∀ e ∈ es', ¬e.Failed := by
    rw [List.forall_mem_append, and_iff_right h.2]
  simp only [Answered, printed_append, h.1, statusLines_append, h.statusLines, List.nil_append,
    hfailed]

theorem Quiet.append_answered (h : Quiet es') : Answered (es ++ es') ↔ Answered es := by
  have hfailed : (∀ e ∈ es ++ es', ¬e.Failed) ↔ ∀ e ∈ es, ¬e.Failed := by
    rw [List.forall_mem_append, and_iff_left h.2]
  simp only [Answered, printed_append, h.1, statusLines_append, h.statusLines, List.append_nil,
    hfailed]

/-- The status line of `Error`. -/
def errorLine (arg : List CChar) : List CChar :=
  if arg.length < 7 then cstr "HTTP/1.1 400 Bad Request\r\n\r\n"
  else cstr "HTTP/1.1 500 Internal Server Error\r\n\r\n"

theorem errorLine_ne (arg : List CChar) : errorLine arg ≠ okLine := by
  unfold errorLine
  split_ifs <;> decide

/-- Text or a file that is printed. -/
def Event.Body (e : Event) : Prop := ∃ p, e = .print p ∧ p.statusLine = none

theorem Event.Body.not_failed {e : Event} (h : e.Body) : ¬e.Failed := by
  obtain ⟨p,rfl,-⟩ := h
  exact id

theorem statusLines_body (h : ∀ e ∈ es, e.Body) : statusLines es = [] := by
  rw [statusLines, printed, List.filterMap_filterMap, List.filterMap_eq_nil_iff]
  intro e he
  obtain ⟨p,rfl,hp⟩ := h e he
  exact hp

theorem body_say (t : String) : (say t).Body := ⟨_,rfl,rfl⟩

theorem body_sayMessage (messages : List (String × String)) (arg : List CChar) :
    ∀ e ∈ sayMessage messages arg, e.Body := by
  intro e he
  obtain ⟨m,-,rfl⟩ := List.mem_map.mp he
  exact body_say m.2

/-- `Error` prints its status line and then no other. -/
theorem error_eq (arg : List CChar) :
    ∃ rest, error arg = .print (.status (errorLine arg))::rest ∧ ∀ e ∈ rest, e.Body := by
  have hfile : (Event.print (.file picture)).Body := ⟨_,rfl,rfl⟩
  unfold error errorLine
  split_ifs
  · refine ⟨_,rfl,?_⟩
    simp only [List.append_eq, List.forall_mem_append, List.forall_mem_cons, List.not_mem_nil,
      false_imp_iff, implies_true, and_true, body_say, hfile, true_and]
    exact body_sayMessage _ _
  · refine ⟨_,rfl,?_⟩
    simp only [List.append_eq, List.forall_mem_append, List.forall_mem_cons, List.not_mem_nil,
      false_imp_iff, implies_true, and_true, body_say, hfile, true_and]
    exact body_sayMessage _ _

theorem statusLines_cons (e : Event) :
    statusLines (e::es) = (e.piece.bind Piece.statusLine).toList ++ statusLines es := by
  cases e with
  | print p => cases p <;> rfl
  | _ => rfl

theorem statusLines_status (line : List CChar) :
    statusLines (.print (.status line)::es) = line::statusLines es := rfl

theorem statusLines_error (arg : List CChar) : statusLines (error arg) = [errorLine arg] := by
  obtain ⟨rest,he,hrest⟩ := error_eq arg
  rw [he, statusLines_status, statusLines_body hrest]

theorem answered_error (arg : List CChar) : Answered (error arg) := by
  obtain ⟨rest,he,-⟩ := error_eq arg
  refine ⟨errorLine arg,?_,statusLines_error arg,fun h => absurd h (errorLine_ne arg)⟩
  rw [he]
  rfl

end Lists

section Methods
variable {σ : Type*} {c : Client σ} (s : ServerDatabase σ)

theorem select_fields : (select c s).2.1.fields = s.fields := by
  obtain ⟨client,-,h⟩ | ⟨client,client',-,-,h⟩ | ⟨client,client',r,-,-,h⟩ := select_cases c s
  · rw [h]
  · rw [h]
  · rw [h]

theorem select_client : (select c s).2.1.client = afterSelect c s.fields s.client := by
  unfold afterSelect
  obtain ⟨client,hquery,h⟩ | ⟨client,client',hquery,hstore,h⟩ |
    ⟨client,client',r,hquery,hstore,h⟩ := select_cases c s
  · simp [h, hquery]
  · simp [h, hquery, hstore]
  · simp [h, hquery, hstore]

/-- What `Select` prints of a result is no status line, and no call fails there. -/
theorem printResult_quiet (res : Option ℕ) (r : Result) :
    statusLines (printResult res r) = [] ∧ ∀ e ∈ printResult res r, ¬e.Failed := by
  have hrows : ∀ e ∈ r.rows.map fun cells => Event.print (.row cells), e.Body := by
    intro e he
    obtain ⟨cells,-,rfl⟩ := List.mem_map.mp he
    exact ⟨_,rfl,rfl⟩
  constructor
  · rw [printResult, statusLines_append, statusLines_body hrows]
    rfl
  · rw [printResult, List.forall_mem_append]
    refine ⟨?_,fun e he => (hrows e he).not_failed⟩
    simp [Event.Failed]

/-- A `Select` prints a status line exactly if one of its calls fails. -/
theorem select_events :
    (statusLines (select c s).2.2 = [] ↔ SelectOk c s.fields s.client) ∧
      (SelectOk c s.fields s.client → ∀ e ∈ (select c s).2.2, ¬e.Failed) := by
  unfold SelectOk
  obtain ⟨client,hquery,h⟩ | ⟨client,client',hquery,hstore,h⟩ |
    ⟨client,client',r,hquery,hstore,h⟩ := select_cases c s
  · simp [h, hquery, statusLines_cons, Event.piece, statusLines_error]
  · simp [h, hquery, hstore, statusLines_cons, Event.piece, statusLines_error]
  · obtain ⟨hlines,hfailed⟩ := printResult_quiet (some s.stored) r
    simpa [h, hquery, hstore, statusLines_cons, Event.piece, hlines, Event.Failed] using hfailed

theorem selectTwice_snd : (selectTwice c s).2 = (select c s).2.2 ++
    (select c { (select c s).2.1 with fields := cleared (select c s).2.1.fields }).2.2 := rfl

theorem selectTwice_fst : (selectTwice c s).1 =
    (select c { (select c s).2.1 with fields := cleared (select c s).2.1.fields }).2.1 := rfl

theorem selectTwice_events :
    (statusLines (selectTwice c s).2 = [] ↔ SelectsOk c s.fields s.client) ∧
      (SelectsOk c s.fields s.client → ∀ e ∈ (selectTwice c s).2, ¬e.Failed) := by
  have hfirst := select_events (c := c) s
  have hsecond := select_events (c := c)
    { (select c s).2.1 with fields := cleared (select c s).2.1.fields }
  rw [select_client, select_fields] at hsecond
  rw [selectTwice_snd, select_fields, statusLines_append, List.append_eq_nil_iff, hfirst.1,
    hsecond.1]
  refine ⟨Iff.rfl,fun h => ?_⟩
  rw [List.forall_mem_append]
  exact ⟨hfirst.2 h.1,hsecond.2 h.2⟩

/-- With the line 200 in front, the answer is right exactly if no other line follows; then no call
may have failed. -/
theorem answered_ok_iff {before es after : List Event} {P : Prop}
    (hbefore : ∀ e ∈ before, e.Body) (hafter : ∀ e ∈ after, e.Body)
    (hes : (statusLines es = [] ↔ P) ∧ (P → ∀ e ∈ es, ¬e.Failed)) :
    Answered (.print (.status okLine)::(before ++ es ++ after)) ↔ P := by
  have hlines : statusLines (.print (.status okLine)::(before ++ es ++ after)) =
      okLine::statusLines es := by
    rw [statusLines_status, statusLines_append, statusLines_append, statusLines_body hbefore,
      statusLines_body hafter, List.nil_append, List.append_nil]
  constructor
  · rintro ⟨line,-,h,-⟩
    rw [hlines] at h
    exact hes.1.mp (List.cons.inj h).2
  · intro hP
    refine ⟨okLine,rfl,?_,fun _ => ?_⟩
    · rw [hlines, hes.1.mpr hP]
    · rw [List.forall_mem_cons, List.forall_mem_append, List.forall_mem_append]
      exact ⟨id,⟨fun e he => (hbefore e he).not_failed,hes.2 hP⟩,
        fun e he => (hafter e he).not_failed⟩

theorem body_texts (ts : List String) : ∀ e ∈ ts.map say, e.Body := by
  intro e he
  obtain ⟨t,-,rfl⟩ := List.mem_map.mp he
  exact body_say t

/-- The `Select`s of `Success`. -/
def selects (c : Client σ) (arg : List CChar) : ServerDatabase σ × List Event :=
  if arg = cstr "select" then (select c s).2
  else if arg = cstr "insert" then selectTwice c s
  else if arg = cstr "delete" then selectTwice c s
  else (s,[])

/-- `Success` prints its status line, and text around its `Select`s. -/
theorem success_eq (arg : List CChar) : ∃ before after,
    (∀ e ∈ before, e.Body) ∧ (∀ e ∈ after, e.Body) ∧
      success c s arg = ((selects s c arg).1,
        .print (.status okLine)::(before ++ (selects s c arg).2 ++ after)) := by
  have hafter := body_texts ["</body>\n","</html>\n"]
  unfold success selects
  split_ifs
  · exact ⟨_,_,body_texts ["<html>\n","<head>\n","</head>\n","<body>\n"],hafter,rfl⟩
  · exact ⟨_,_,body_texts ["<html>\n","<head>\n","\t<h1>Insert Success......</h1>\n","</head>\n",
      "<body>\n"],hafter,rfl⟩
  · exact ⟨_,_,body_texts ["<html>\n","<head>\n","\t<h1>Delete Success......</h1>\n","</head>\n",
      "<body>\n"],hafter,rfl⟩
  · exact ⟨_,_,body_texts ["<html>\n","<head>\n"],hafter,rfl⟩

theorem success_answered {arg : List CChar} {P : Prop}
    (h : (statusLines (selects s c arg).2 = [] ↔ P) ∧ (P → ∀ e ∈ (selects s c arg).2, ¬e.Failed)) :
    Answered (success c s arg).2 ↔ P := by
  obtain ⟨before,after,hbefore,hafter,he⟩ := success_eq (c := c) s arg
  rw [he]
  exact answered_ok_iff hbefore hafter h

theorem success_select :
    Answered (success c s (cstr "select")).2 ↔ SelectOk c s.fields s.client :=
  success_answered s (select_events s)

theorem success_insert :
    Answered (success c s (cstr "insert")).2 ↔ SelectsOk c s.fields s.client :=
  success_answered s (selectTwice_events s)

theorem success_delete :
    Answered (success c s (cstr "delete")).2 ↔ SelectsOk c s.fields s.client :=
  success_answered s (selectTwice_events s)

theorem success_modify : Answered (success c s (cstr "modify")).2 :=
  (success_answered s (P := True) ⟨iff_of_true rfl trivial,fun _ e he => by cases he⟩).mpr trivial

theorem quiet_query (q : List CChar) : Quiet [.query q true] :=
  ⟨rfl,by simp [Event.Failed]⟩

/-- A statement that fails is answered by `Error` alone. -/
theorem answered_query_error (q arg : List CChar) : Answered ([.query q false] ++ error arg) := by
  obtain ⟨line,hhead,hlines,hok⟩ := answered_error arg
  refine ⟨line,hhead,?_,?_⟩
  · rw [statusLines_append, hlines]
    rfl
  · rintro rfl
    rw [statusLines_error] at hlines
    exact absurd (List.cons.inj hlines).1 (errorLine_ne arg)

/-- The operation is answered as it should be exactly if the `Select`s behind it succeed. -/
theorem operate_answered : Answered (operate c s).2 ↔ ListingOk c s.fields s.client := by
  unfold operate ListingOk
  simp only
  split_ifs with hi hd hs hm
  · obtain ⟨field,hmissing,h⟩ | ⟨client,-,hquery,h⟩ | ⟨client,hmissing,hquery,h⟩ :=
      insert_cases c s
    · simpa [h, hmissing, thenSuccess] using answered_error field
    · simpa [h, hquery, thenSuccess] using answered_query_error _ _
    · have hsuccess := success_insert (c := c) { s with client := client }
      rw [← (quiet_query (insertQuery s.fields)).answered_append] at hsuccess
      simpa [h, hmissing, hquery, thenSuccess] using hsuccess
  · obtain ⟨client,hquery,h⟩ | ⟨client,hquery,h⟩ := delete_cases c s
    · simpa [h, hquery, thenSuccess] using answered_query_error _ _
    · have hsuccess := success_delete (c := c) { s with client := client }
      rw [← (quiet_query (deleteQuery s.fields)).answered_append] at hsuccess
      simpa [h, hquery, thenSuccess] using hsuccess
  · exact success_select s
  · exact iff_of_true (success_modify (c := c) s) trivial
  · exact iff_of_true (answered_error (cstr "op error")) trivial

theorem success_lines (arg : List CChar) : statusLines (success c s arg).2 ≠ [] := by
  unfold success
  split_ifs <;> simp [statusLines_cons, Event.piece, Piece.statusLine]

theorem thenSuccess_lines {arg : List CChar} {r : Bool × ServerDatabase σ × List Event}
    (h : r.1 = false → statusLines r.2.2 ≠ []) : statusLines (thenSuccess c arg r).2 ≠ [] := by
  obtain ⟨ok,s,es⟩ := r
  cases ok with
  | false => exact h rfl
  | true =>
    have hsuccess := success_lines (c := c) s arg
    simp [thenSuccess, hsuccess]

/-- Some answer is given whatever happens. -/
theorem operate_lines : statusLines (operate c s).2 ≠ [] := by
  unfold operate
  simp only
  split_ifs
  · apply thenSuccess_lines
    obtain ⟨field,-,h⟩ | ⟨client,-,-,h⟩ | ⟨client,-,-,h⟩ := insert_cases c s
    · simp [h, statusLines_error]
    · simp [h, statusLines_cons, statusLines_error]
    · simp [h]
  · apply thenSuccess_lines
    obtain ⟨client,-,h⟩ | ⟨client,-,h⟩ := delete_cases c s
    · simp [h, statusLines_cons, statusLines_error]
    · simp [h]
  · exact success_lines s _
  · apply thenSuccess_lines
    intro h
    cases h
  · rw [statusLines_error]
    exact List.cons_ne_nil _ _

end Methods

section HandleData
variable {σ : Type*} (c : Client σ) (client : σ) {query : List CChar} {fields : Fields}

/-- The program answers a query with its five fields as it should exactly if the query does not
begin with `o`, or connecting succeeds and so do the `Select`s behind the operation. -/
theorem answered_iff (hfields : splitQuery query = some fields) :
    (∃ es, handleData c client query = some es ∧ Answered es) ↔
      query.head? ≠ some (ch 'o') ∨
        (c.connect client).1 = true ∧ ListingOk c fields (c.connect client).2 := by
  have hdestroy (s : ServerDatabase σ) : Quiet (destroy s) := ⟨rfl,by simp [destroy, Event.Failed]⟩
  by_cases ho : query.head? = some (ch 'o')
  · have hop := operate_answered (c := c) (connected c client fields)
    have hlines := operate_lines (c := c) (connected c client fields)
    simp only [handleData_operate c client ho hfields, Option.some.injEq, exists_eq_left',
      (hdestroy _).append_answered, ho, ne_eq, not_true, false_or]
    cases hok : (c.connect client).1 with
    | true =>
      have hquiet : Quiet [.init,.connect true] := ⟨rfl,by simp [Event.Failed]⟩
      simp only [if_true, List.append_nil, hquiet.answered_append, hop, true_and]
      rfl
    | false =>
      refine iff_of_false ?_ (by simp)
      -- the answer to the failed call comes before that to the operation
      rintro ⟨line,-,h,-⟩
      rw [statusLines_append, statusLines_append] at h
      simp [statusLines_cons, statusLines_error, Event.piece, hlines] at h
  · have hne : query ≠ [] := by
      rintro rfl
      cases hfields
    rw [handleData, if_neg hne, if_pos ho]
    refine iff_of_true ⟨_,rfl,?_⟩ (.inl ho)
    rw [(hdestroy _).append_answered]
    exact answered_error _

end HandleData

theorem answered_select : ∃ es,
    handleData working () (formQueryNoSex (cstr "select") [] [] []) = some es ∧ Answered es :=
  (@answered_iff _ working () _ ⟨cstr "select",[],[],[],[]⟩ rfl).mpr
    (.inr ⟨rfl,⟨rfl,rfl⟩⟩)

/-- Two answers where connecting fails: 500, and 200 for the listing. -/
theorem not_answered_unreachable : ¬∃ es,
    handleData unreachable () (formQueryNoSex (cstr "select") [] [] []) = some es ∧
      Answered es := by
  rintro ⟨es,hes,line,-,hlines,-⟩
  have htwo : (handleData unreachable () (formQueryNoSex (cstr "select") [] [] [])).map
      (fun es => (statusLines es).length) = some 2 := by decide
  rw [hes, Option.map_some, hlines] at htwo
  cases htwo

end LibeventHttpd.MySql
