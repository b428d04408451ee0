import LibeventHttpd.MySql.StatusLine

/-! The order in which the functions of the client library are called on one object. -/
namespace LibeventHttpd.MySql

/-- A call that takes the handle, other than `mysql_init`. -/
def Event.OnHandle : Event → Prop
  | .connect _ => True
  | .query _ _ => True
  | .store _ => True
  | .affectedRows => True
  | .close => True
  | _ => False

/-- `first` comes before every event of the kind. -/
def Precedes (first : Event) (kind : Event → Prop) (es : List Event) : Prop :=
  ∀ before e after, es = before ++ e::after → kind e → first ∈ before

def Event.Queries : Event → Prop
  | .query _ _ => True
  | _ => False

/-- The protocol of a handle, from the construction of the object to its destruction. -/
structure Protocol (es : List Event) : Prop where
  initFirst : Precedes .init Event.OnHandle es
  queryConnected : Precedes (.connect true) Event.Queries es
  released : ∀ n, .store (some n) ∈ es → es.count (.free (some n)) = 1
  closed : es.count .close = 1

/-- What the methods do between connecting and the destructor. -/
def Event.Inner : Event → Prop
  | .print _ => True
  | .query _ _ => True
  | .store _ => True
  | .affectedRows => True
  | .fetch _ => True
  | _ => False

section Conditions
variable {σ : Type*} (c : Client σ)

/-- The operation comes to no call of `mysql_query`. -/
def IssuesNone (fields : Fields) : Prop :=
  let op := fields.op.headD 0
  if op = ch 'i' then missingField fields ≠ none
  else op ≠ ch 'd' ∧ op ≠ ch 's'

/-- A result of the first `Select` is not overwritten by the second. -/
def ResultKept (fields : Fields) (client : σ) : Prop :=
  ¬(SelectOk c fields client ∧
    (c.query (selectQuery (cleared fields)) (afterSelect c fields client)).1 = true)

/-- Where the operation is carried out, its results are kept. -/
def ResultsKept (fields : Fields) (client : σ) : Prop :=
  let op := fields.op.headD 0
  if op = ch 'i' then
    missingField fields = none → (c.query (insertQuery fields) client).1 = true →
      ResultKept c fields (c.query (insertQuery fields) client).2
  else if op = ch 'd' then
    (c.query (deleteQuery fields) client).1 = true →
      ResultKept c fields (c.query (deleteQuery fields) client).2
  else True

end Conditions

section Methods
variable {σ : Type*} {c : Client σ} (s : ServerDatabase σ)

theorem Event.Body.inner {e : Event} (h : e.Body) : e.Inner := by
  obtain ⟨p,rfl,-⟩ := h
  trivial

theorem error_inner (arg : List CChar) : ∀ e ∈ error arg, e.Inner := by
  obtain ⟨rest,he,hrest⟩ := error_eq arg
  rw [he, List.forall_mem_cons]
  exact ⟨trivial,fun e h => (hrest e h).inner⟩

theorem printResult_inner (res : Option ℕ) (r : Result) : ∀ e ∈ printResult res r, e.Inner := by
  rw [printResult, List.forall_mem_append]
  constructor
  · simp [Event.Inner]
  · intro e he
    obtain ⟨cells,-,rfl⟩ := List.mem_map.mp he
    trivial

theorem select_inner : ∀ e ∈ (select c s).2.2, e.Inner := by
  have herror := error_inner (cstr "select error")
  obtain ⟨client,-,h⟩ | ⟨client,client',-,-,h⟩ | ⟨client,client',r,-,-,h⟩ := select_cases c s
  · simpa [h, Event.Inner] using herror
  · simpa [h, Event.Inner] using herror
  · simpa [h, Event.Inner] using printResult_inner (some s.stored) r

/-- The result sets that a list of events obtains are all the one that `_res` points to then. -/
def Kept (t : ServerDatabase σ × List Event) : Prop :=
  ∀ n, .store (some n) ∈ t.2 → t.1.res = some n

theorem store_notMem_error (n : Option ℕ) (arg : List CChar) : .store n ∉ error arg := by
  obtain ⟨rest,he,hrest⟩ := error_eq arg
  rw [he, List.mem_cons, not_or]
  refine ⟨by simp,fun h => ?_⟩
  obtain ⟨p,hp,-⟩ := hrest _ h
  cases hp

theorem store_notMem_printResult (n : Option ℕ) (res : Option ℕ) (r : Result) :
    .store n ∉ printResult res r := by simp [printResult]

/-- What a `Select` does with result sets. -/
theorem select_store (n : ℕ) :
    (.store (some n) ∈ (select c s).2.2 ↔ SelectOk c s.fields s.client ∧ n = s.stored) ∧
      (SelectOk c s.fields s.client →
        (select c s).2.1.res = some s.stored ∧ (select c s).2.1.stored = s.stored+1) ∧
      ((c.query (selectQuery s.fields) s.client).1 = false → (select c s).2.1.res = s.res) ∧
      (¬SelectOk c s.fields s.client → (select c s).2.1.stored = s.stored ∧
        ((c.query (selectQuery s.fields) s.client).1 = true → (select c s).2.1.res = none)) := by
  have herror := store_notMem_error (some n) (cstr "select error")
  unfold SelectOk
  obtain ⟨client,hquery,h⟩ | ⟨client,client',hquery,hstore,h⟩ |
    ⟨client,client',r,hquery,hstore,h⟩ := select_cases c s
  · simp [h, hquery, herror]
  · simp [h, hquery, hstore, herror]
  · simp [h, hquery, hstore, store_notMem_printResult]

theorem selectTwice_inner : ∀ e ∈ (selectTwice c s).2, e.Inner := by
  rw [selectTwice_snd, List.forall_mem_append]
  exact ⟨select_inner s,select_inner _⟩

/-- The two `Select`s keep their results exactly if the second does not get as far as storing one
over the first. -/
theorem selectTwice_kept : Kept (selectTwice c s) ↔ ResultKept c s.fields s.client := by
  have hclient := select_client (c := c) s
  have hfields := select_fields (c := c) s
  have hfirst (n : ℕ) := select_store (c := c) s n
  have hsecond (n : ℕ) := select_store (c := c)
    { (select c s).2.1 with fields := cleared (select c s).2.1.fields } n
  rw [hclient, hfields] at hsecond
  simp only [Kept, selectTwice_snd, selectTwice_fst, List.mem_append, hfields, (hfirst _).1,
    (hsecond _).1, ResultKept]
  obtain ⟨-,hset,-,-⟩ := hfirst 0
  obtain ⟨-,hset',hleft',hunset'⟩ := hsecond 0
  by_cases hok : SelectOk c s.fields s.client
  · obtain ⟨hres,hstored⟩ := hset hok
    cases hquery :
        (c.query (selectQuery (cleared s.fields)) (afterSelect c s.fields s.client)).1 with
    | true =>
      -- `_res` is `NULL` or another result set now
      refine iff_of_false (fun h => ?_) (by simp [hok])
      have hfinal := h s.stored (.inl ⟨hok,rfl⟩)
      by_cases hok' : SelectOk c (cleared s.fields) (afterSelect c s.fields s.client)
      · rw [(hset' hok').1, hstored] at hfinal
        simp at hfinal
      · rw [(hunset' hok').2 hquery] at hfinal
        cases hfinal
    | false =>
      refine iff_of_true ?_ (by simp)
      rintro n (⟨-,rfl⟩ | ⟨hok',-⟩)
      · exact (hleft' hquery).trans hres
      · exact absurd (hok'.1.symm.trans hquery) (by simp)
  · refine iff_of_true ?_ fun h => hok h.1
    rintro n (⟨hok',-⟩ | ⟨hok',rfl⟩)
    · exact absurd hok' hok
    · exact (hset' hok').1

theorem select_kept : Kept (select c s).2 := by
  intro n hn
  obtain ⟨hok,rfl⟩ := (select_store s n).1.mp hn
  exact ((select_store s 0).2.1 hok).1

theorem kept_none {es : List Event} (h : ∀ n, .store n ∉ es) : Kept (s,es) :=
  fun _ hn => absurd hn (h _)

theorem store_notMem_body {es : List Event} (h : ∀ e ∈ es, e.Body) (n : Option ℕ) :
    .store n ∉ es := by
  intro hn
  obtain ⟨p,hp,-⟩ := h _ hn
  cases hp

theorem success_kept (arg : List CChar) :
    Kept (success c s arg) ↔ Kept (selects s c arg) := by
  obtain ⟨before,after,hbefore,hafter,he⟩ := success_eq (c := c) s arg
  rw [he]
  simp [Kept, store_notMem_body hbefore, store_notMem_body hafter]

theorem success_inner (arg : List CChar) : ∀ e ∈ (success c s arg).2, e.Inner := by
  have hselects : ∀ e ∈ (selects s c arg).2, e.Inner := by
    unfold selects
    split_ifs
    · exact select_inner s
    · exact selectTwice_inner s
    · exact selectTwice_inner s
    · exact fun e he => by cases he
  obtain ⟨before,after,hbefore,hafter,he⟩ := success_eq (c := c) s arg
  rw [he]
  simp only [List.forall_mem_cons, List.forall_mem_append]
  exact ⟨trivial,⟨fun e he => (hbefore e he).inner,hselects⟩,fun e he => (hafter e he).inner⟩

theorem operate_kept : Kept (operate c s) ↔ ResultsKept c s.fields s.client := by
  have hquery (q : List CChar) (t : ServerDatabase σ × List Event) :
      Kept (t.1,.query q true::t.2) ↔ Kept t := by
    simp [Kept]
  have herror (s : ServerDatabase σ) (q arg : List CChar) :
      Kept (s,.query q false::error arg) := by
    refine kept_none s fun n => ?_
    rw [List.mem_cons, not_or]
    exact ⟨by simp,store_notMem_error n arg⟩
  unfold operate ResultsKept
  simp only
  split_ifs with hi hd hs hm
  · obtain ⟨field,hmissing,h⟩ | ⟨client,-,hq,h⟩ | ⟨client,hmissing,hq,h⟩ := insert_cases c s
    · have hkept := kept_none s (fun n => store_notMem_error n field)
      simpa [h, hmissing, thenSuccess] using hkept
    · simpa [h, hq, thenSuccess] using herror _ _ _
    · have hkept := (success_kept { s with client := client } (cstr "insert")).trans
        (selectTwice_kept (c := c) { s with client := client })
      rw [← hquery (insertQuery s.fields)] at hkept
      simpa [h, hmissing, hq, thenSuccess] using hkept
  · obtain ⟨client,hq,h⟩ | ⟨client,hq,h⟩ := delete_cases c s
    · simpa [h, hq, thenSuccess] using herror _ _ _
    · have hkept := (success_kept { s with client := client } (cstr "delete")).trans
        (selectTwice_kept (c := c) { s with client := client })
      rw [← hquery (deleteQuery s.fields)] at hkept
      simpa [h, hq, thenSuccess] using hkept
  · exact iff_of_true ((success_kept s _).mpr (select_kept s)) trivial
  · have h := (success_kept (c := c) s (cstr "modify")).mpr (kept_none s fun n => by simp)
    exact iff_of_true h trivial
  · exact iff_of_true (kept_none s fun n => store_notMem_error n (cstr "op error")) trivial

theorem insert_inner : ∀ e ∈ (insert c s).2.2, e.Inner := by
  have herror := error_inner (cstr "insert error")
  obtain ⟨field,-,h⟩ | ⟨client,-,-,h⟩ | ⟨client,-,-,h⟩ := insert_cases c s
  · rw [h]
    exact error_inner field
  · simpa [h, Event.Inner] using herror
  · simp [h, Event.Inner]

theorem delete_inner : ∀ e ∈ (delete c s).2.2, e.Inner := by
  have herror := error_inner (cstr "delete error")
  obtain ⟨client,-,h⟩ | ⟨client,-,h⟩ := delete_cases c s
  · simpa [h, Event.Inner] using herror
  · simp [h, Event.Inner]

theorem thenSuccess_inner {arg : List CChar} {r : Bool × ServerDatabase σ × List Event}
    (h : ∀ e ∈ r.2.2, e.Inner) : ∀ e ∈ (thenSuccess c arg r).2, e.Inner := by
  obtain ⟨ok,t,es⟩ := r
  cases ok with
  | false => exact h
  | true =>
    change ∀ e ∈ es ++ (success c t arg).2, e.Inner
    rw [List.forall_mem_append]
    exact ⟨h,success_inner t arg⟩

theorem operate_inner : ∀ e ∈ (operate c s).2, e.Inner := by
  unfold operate
  simp only
  split_ifs
  · exact thenSuccess_inner (insert_inner s)
  · exact thenSuccess_inner (delete_inner s)
  · exact success_inner s _
  · exact thenSuccess_inner (by simp [modify])
  · exact error_inner (cstr "op error")

theorem error_not_queries (arg : List CChar) : ∀ e ∈ error arg, ¬e.Queries := by
  obtain ⟨rest,he,hrest⟩ := error_eq arg
  rw [he, List.forall_mem_cons]
  refine ⟨id,fun e h => ?_⟩
  obtain ⟨p,rfl,-⟩ := hrest e h
  exact id

theorem exists_thenSuccess {q : List CChar} {r : Bool × ServerDatabase σ × List Event}
    (h : ∃ ok, .query q ok ∈ r.2.2) (arg : List CChar) :
    ∃ ok, .query q ok ∈ (thenSuccess c arg r).2 := by
  obtain ⟨done,t,es⟩ := r
  obtain ⟨ok,he⟩ := h
  cases done with
  | false => exact ⟨ok,he⟩
  | true => exact ⟨ok,List.mem_append_left _ he⟩

theorem select_query : ∃ ok, .query (selectQuery s.fields) ok ∈ (select c s).2.2 := by
  obtain ⟨client,-,h⟩ | ⟨client,client',-,-,h⟩ | ⟨client,client',r,-,-,h⟩ := select_cases c s
  · exact ⟨false,by simp [h]⟩
  · exact ⟨true,by simp [h]⟩
  · exact ⟨true,by simp [h]⟩

theorem insert_query (hmissing : missingField s.fields = none) :
    ∃ ok, .query (insertQuery s.fields) ok ∈ (insert c s).2.2 := by
  obtain ⟨field,hfield,-⟩ | ⟨client,-,-,h⟩ | ⟨client,-,-,h⟩ := insert_cases c s
  · rw [hmissing] at hfield
    cases hfield
  · exact ⟨false,by simp [h]⟩
  · exact ⟨true,by simp [h]⟩

theorem delete_query : ∃ ok, .query (deleteQuery s.fields) ok ∈ (delete c s).2.2 := by
  obtain ⟨client,-,h⟩ | ⟨client,-,h⟩ := delete_cases c s
  · exact ⟨false,by simp [h]⟩
  · exact ⟨true,by simp [h]⟩

/-- No query is issued for an operation exactly if it comes to none. -/
theorem operate_queries : (∀ e ∈ (operate c s).2, ¬e.Queries) ↔ IssuesNone s.fields := by
  have hsome {es : List Event} {q : List CChar} (h : ∃ ok, .query q ok ∈ es) :
      ¬∀ e ∈ es, ¬e.Queries := by
    obtain ⟨ok,he⟩ := h
    exact fun hno => hno _ he trivial
  unfold operate IssuesNone
  simp only
  split_ifs with hi hd hs hm
  · cases hmissing : missingField s.fields with
    | some field =>
      refine iff_of_true ?_ (by simp)
      simpa [insert, hmissing, thenSuccess] using error_not_queries field
    | none =>
      have h := exists_thenSuccess (c := c) (insert_query (c := c) s hmissing)
      exact iff_of_false (hsome (h (cstr "insert"))) (by simp)
  · have h := exists_thenSuccess (c := c) (delete_query (c := c) s)
    exact iff_of_false (hsome (h (cstr "delete"))) fun h => h.1 hd
  · obtain ⟨ok,he⟩ := select_query (c := c) s
    refine iff_of_false (hsome (q := selectQuery s.fields) ⟨ok,?_⟩) fun h => h.2 hs
    obtain ⟨before,after,-,-,hs⟩ := success_eq (c := c) s (cstr "select")
    rw [hs]
    exact List.mem_cons_of_mem _ (List.mem_append_left _ (List.mem_append_right _ he))
  · refine iff_of_true ?_ ⟨hd,hs⟩
    obtain ⟨before,after,hbefore,hafter,hs⟩ := success_eq (c := c) s (cstr "modify")
    have hbody {es : List Event} (h : ∀ e ∈ es, e.Body) : ∀ e ∈ es, ¬e.Queries := by
      intro e he
      obtain ⟨p,rfl,-⟩ := h e he
      exact id
    change ∀ e ∈ (success c s (cstr "modify")).2, ¬e.Queries
    rw [hs]
    simp only [List.forall_mem_cons, List.forall_mem_append]
    exact ⟨id,⟨hbody hbefore,fun e he => by cases he⟩,hbody hafter⟩
  · exact iff_of_true (error_not_queries (cstr "op error")) ⟨hd,hs⟩

end Methods

section Runs
variable {σ : Type*} {c : Client σ} {client : σ} {query : List CChar} {es : List Event}

theorem precedes_head {first : Event} {kind : Event → Prop} (h : ¬kind first) (es : List Event) :
    Precedes first kind (first::es) := by
  intro before e after he hkind
  cases before with
  | nil =>
    obtain rfl := (List.cons.inj he).1
    exact absurd hkind h
  | cons b before =>
    obtain rfl := (List.cons.inj he).1
    exact List.mem_cons_self

theorem precedes_iff_of_notMem {first : Event} {kind : Event → Prop} (h : first ∉ es) :
    Precedes first kind es ↔ ∀ e ∈ es, ¬kind e := by
  constructor
  · intro hp e he hkind
    obtain ⟨before,after,rfl⟩ := List.append_of_mem he
    exact h (List.mem_append_left _ (hp before e after rfl hkind))
  · rintro hno before e after rfl hkind
    exact absurd hkind (hno e (by simp))

theorem precedes_cons {first e : Event} {kind : Event → Prop} (h : ¬kind e)
    (hp : Precedes first kind es) : Precedes first kind (e::es) := by
  intro before e' after he hkind
  cases before with
  | nil =>
    obtain rfl := (List.cons.inj he).1
    exact absurd hkind h
  | cons b before => exact List.mem_cons_of_mem _ (hp before e' after (List.cons.inj he).2 hkind)

/-- Between connecting and the destructor the protocol asks for a connection before any query, and
that `_res` is the one result set obtained. -/
theorem protocol_iff {inner : List Event} (hinner : ∀ e ∈ inner, e.Inner) (ok : Bool)
    (res : Option ℕ) :
    Protocol ([.init,.connect ok] ++ inner ++ [.free res,.close]) ↔
      (ok = true ∨ ∀ e ∈ inner, ¬e.Queries) ∧ ∀ n, .store (some n) ∈ inner → res = some n := by
  have hno {e : Event} (h : ¬e.Inner) : e ∉ inner := fun he => h (hinner e he)
  have hquery : Precedes (.connect true) Event.Queries
      ([.init,.connect ok] ++ inner ++ [.free res,.close]) ↔
        ok = true ∨ ∀ e ∈ inner, ¬e.Queries := by
    cases ok with
    | true => exact iff_of_true (precedes_cons id (precedes_head id _)) (.inl rfl)
    | false =>
      have hconnect := hno (e := .connect true) id
      rw [precedes_iff_of_notMem (by simp [hconnect])]
      simp [or_imp, forall_and, Event.Queries]
  have hcount (n : ℕ) : List.count (.free (some n))
      ([.init,.connect ok] ++ inner ++ [.free res,.close]) = 1 ↔ res = some n := by
    have hzero := List.count_eq_zero.mpr (hno (e := .free (some n)) id)
    simp [List.count_append, List.count_cons, hzero]
  have hclose : List.count .close
      ([.init,.connect ok] ++ inner ++ [.free res,.close]) = 1 := by
    have hzero := List.count_eq_zero.mpr (hno (e := .close) id)
    simp [List.count_append, hzero]
  constructor
  · intro h
    refine ⟨hquery.mp h.queryConnected,fun n hn => ?_⟩
    exact (hcount n).mp (h.released n (by simp [hn]))
  · rintro ⟨hq,hkept⟩
    refine ⟨precedes_head id _,hquery.mpr hq,fun n hn => ?_,hclose⟩
    exact (hcount n).mpr (hkept n (by simpa using hn))

/-- An object that has tried to connect. `answer` is what is printed if that fails. -/
theorem protocol_operate_iff {answer : List Event} (s : ServerDatabase σ) (ok : Bool)
    (hinner : ∀ e ∈ answer, e.Inner) (hqueries : ∀ e ∈ answer, ¬e.Queries)
    (hstore : ∀ n, .store n ∉ answer) :
    Protocol ([.init,.connect ok] ++ answer ++ (operate c s).2 ++ destroy (operate c s).1) ↔
      (ok = true ∨ IssuesNone s.fields) ∧ ResultsKept c s.fields s.client := by
  rw [List.append_assoc [Event.init,.connect ok], destroy,
    protocol_iff (List.forall_mem_append.mpr ⟨hinner,operate_inner s⟩)]
  apply and_congr
  · rw [List.forall_mem_append, and_iff_right hqueries, operate_queries]
  · rw [← operate_kept, Kept]
    refine forall_congr' fun n => imp_congr_left ?_
    rw [List.mem_append, or_iff_right (hstore _)]

/-- Without a query there is no object. -/
def Obeys (es : List Event) : Prop := es = [] ∨ Protocol es

theorem obeys_destroy (es : List Event) (s : ServerDatabase σ) :
    Obeys (es ++ destroy s) ↔ Protocol (es ++ destroy s) := or_iff_right (by simp [destroy])

/-- An object that answers at once is destroyed without a call of `mysql_init`. -/
theorem not_protocol_error (arg : List CChar) :
    ¬Protocol (error arg ++ destroy (construct client)) := by
  intro h
  have hinit := h.initFirst (error arg ++ [.free none]) .close [] (by simp [destroy, construct])
    trivial
  rw [List.mem_append, List.mem_singleton] at hinit
  cases hinit with
  | inl hinit => exact error_inner arg _ hinit
  | inr hinit => cases hinit

/-- The protocol is obeyed exactly without an object, or if the five fields are there, it connects
or issues no query, and no result is overwritten. -/
theorem obeys_iff (c : Client σ) (client : σ) (query : List CChar) :
    (∃ es, handleData c client query = some es ∧ Obeys es) ↔
      query = [] ∨ query.head? = some (ch 'o') ∧
        ∃ fields, splitQuery query = some fields ∧
          ((c.connect client).1 = true ∨ IssuesNone fields) ∧
          ResultsKept c fields (c.connect client).2 := by
  by_cases hne : query = []
  · exact iff_of_true ⟨[],if_pos hne,.inl rfl⟩ (.inl hne)
  by_cases ho : query.head? = some (ch 'o')
  · simp only [hne, ho, true_and, false_or]
    cases hfields : splitQuery query with
    | none => simp [handleData, hne, ho, hfields]
    | some fields =>
      simp only [handleData_operate c client ho hfields, Option.some.injEq, exists_eq_left',
        obeys_destroy]
      cases hok : (c.connect client).1 with
      | true =>
        exact protocol_operate_iff (connected c client fields) true (by simp) (by simp) (by simp)
      | false =>
        exact protocol_operate_iff (connected c client fields) false
          (error_inner (cstr "connect error")) (error_not_queries (cstr "connect error"))
          fun n => store_notMem_error n (cstr "connect error")
  · simp only [hne, ho, false_and, or_false, iff_false]
    rintro ⟨es,hes,hobeys⟩
    rw [handleData, if_neg hne, if_pos ho, Option.some.injEq] at hes
    subst hes
    exact not_protocol_error (cstr "op") ((obeys_destroy _ _).mp hobeys)

end Runs

/-- The first result set of an insertion that succeeds is never released. -/
theorem not_obeys_insert : ¬∃ es,
    handleData working () (formQuery (cstr "insert") (cstr "baby") (cstr "lady") (cstr "25")
      (cstr "XPU")) = some es ∧ Obeys es := by
  rintro ⟨es,hes,hobeys⟩
  have hrun : (handleData working () (formQuery (cstr "insert") (cstr "baby") (cstr "lady")
      (cstr "25") (cstr "XPU"))).map (fun es => (es.contains (.store (some 0)),
        es.count (.free (some 0)))) = some (true,0) := by decide
  rw [hes, Option.map_some, Option.some.injEq, Prod.mk.injEq, List.contains_iff_mem] at hrun
  cases hobeys with
  | inl h =>
    subst h
    cases hrun.1
  | inr h =>
    have hfree := h.released 0 hrun.1
    rw [hrun.2] at hfree
    cases hfree

end LibeventHttpd.MySql
