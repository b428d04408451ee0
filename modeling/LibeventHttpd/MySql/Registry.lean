import LibeventHttpd.MySql.PersonTable
import LibeventHttpd.Programs
import LibeventHttpd.Submission

/-! The server with the database program and its table behind it: requests of any kind one after the
other, and what the forms among them leave in the table. -/
namespace LibeventHttpd.MySql
open Sql Collection Transition Turns
open Stdio (received)

/-- The fields of a query that begins as that of a form. -/
def formOf (query : List CChar) : Option Fields :=
  if query.head? = some (ch 'o') then splitQuery query else none

/-- The client library when `handle_data` has returned. -/
def afterData {σ : Type*} (c : Client σ) (client : σ) (query : List CChar) : σ :=
  (formOf query).elim client fun fields => (operate c (connected c client fields)).1.client

/-- What is behind the server: files and other programs, the path of the database program, its
table, and the picture of its error pages. -/
structure Backend where
  site : Site
  path : List CChar
  table : Table
  picture : List CChar

section Backend
variable (b : Backend)

/-- What a run of the program prints, and the rows it leaves. -/
def Backend.program (now : Value) (rows : List Row) (child : Child) :
    Option (List CChar × List Row) := do
  let query ← MySql.main child.env child.stdin
  let es ← handleData (mysql b.table now) ⟨rows,none⟩ query
  return (received 4096 b.picture (outputs es),
    (afterData (mysql b.table now) ⟨rows,none⟩ query).rows)

/-- The server sees the program as any other. No other program changes the rows. -/
def Backend.programs : Programs (List Row) Value where
  stat := b.site.stat
  file := b.site.file
  run := fun rows now child =>
    if child.path = b.path then b.program now rows child else some (b.site.cgi child,rows)

/-- The form that a request brings to the program, if it does. -/
def Backend.form (w : World (List Row)) (v : Visit Value) : Option Fields := do
  let a ← acceptRequest b.site.stat (b.programs.at w.state v.now).cgi w.env v.fd v.sock
  let child ← a.child
  if child.path = b.path then (MySql.main child.env child.stdin).bind formOf else none

/-- The request brings the form to the program, whole. -/
structure Backend.Asks (m : Message) (db : Fields) : Prop where
  query : ∃ query, m.Submits b.site.stat b.path query ∧ 0 ∉ query ∧ formOf query = some db
  fits : m.Fits b.site.stat
  proper : Proper db

end Backend

section Program
variable {b : Backend} {child : Child} {query : List CChar} {db : Fields} {now : Value}
  {rows : List Row}

/-- A form is answered with its page, and leaves its change. -/
theorem program_form (hd : Expected b.table) (hmain : MySql.main child.env child.stdin = some query)
    (hform : formOf query = some db) (h : Proper db) : b.program now rows child =
      some ((answer b.table now db rows).bytes b.table b.picture,changed b.table now db rows) := by
  have hafter : afterData (mysql b.table now) ⟨rows,none⟩ query =
      (operate (mysql b.table now) (connected (mysql b.table now) ⟨rows,none⟩ db)).1.client := by
    rw [afterData, hform]
    rfl
  unfold formOf at hform
  split_ifs at hform with ho
  have hmeets : Meets b.table now b.picture (connected (mysql b.table now) ⟨rows,none⟩ db) _ :=
    operate_meets hd h
  have hdestroy (s : ServerDatabase Session) : outputs (destroy s) = [] := rfl
  have hpage := hmeets.page
  have hrows := hmeets.rows
  rw [Backend.program, hmain, Option.bind_eq_bind, Option.bind_some,
    handleData_operate (mysql b.table now) ⟨rows,none⟩ ho hform, Option.bind_eq_bind,
    Option.bind_some, hafter, hrows, outputs_append, hdestroy, List.append_nil, outputs_append]
  exact congrArg (fun page => some (page,_)) hpage

end Program

section Pages
variable {b : Backend} {m : Message} {query : List CChar} {db : Fields}

/-- A form is answered with its page, byte for byte, and leaves its change. -/
theorem serve_of_asks (hd : Expected b.table) (h : b.Asks m db) (w : World (List Row)) (fd : ℕ)
    (now : Value) : ∃ env unread child, b.programs.serve w ⟨fd,now,m.stream⟩ =
      (relayed ((answer b.table now db w.state).bytes b.table b.picture)).map fun sent =>
        (⟨env,changed b.table now db w.state⟩,⟨sent,unread,env,some child⟩) := by
  obtain ⟨⟨query,hsub,h0,hform⟩,hfits,hproper⟩ := h
  have hsite : m.Submits (b.programs.at w.state now).stat b.path query := hsub
  obtain ⟨child,hpath,hmain,hx⟩ : ∃ child, _ ∧ _ ∧ outcome _ w.env fd m.stream = _ :=
    outcome_of_submits hsite h0 hfits fd
  have hrun : b.programs.run w.state now child =
      some ((answer b.table now db w.state).bytes b.table b.picture,
        changed b.table now db w.state) :=
    (if_pos hpath).trans (program_form hd hmain hform hproper)
  have hprint : (b.programs.at w.state now).cgi child =
      (answer b.table now db w.state).bytes b.table b.picture := by
    simp only [Programs.at, hrun, Option.elim_some]
  rw [hprint] at hx
  refine ⟨child.env,m.body.drop child.stdin.length,child,?_⟩
  rw [Programs.serve, hx]
  cases relayed ((answer b.table now db w.state).bytes b.table b.picture) with
  | none => rfl
  | some sent =>
    simp only [Option.map_some, Option.bind_eq_bind, Option.bind_some, Programs.after, hrun]
    rfl

end Pages

section Runs
variable {b : Backend} {w w' : World (List Row)} {v : Visit Value} {vs : List (Visit Value)}

end Runs

section Clients
variable {b : Backend} {w₀ w : World (List Row)} {turns : List (ℕ × Visit Value)}

end Clients

section Refused
variable {b : Backend} {m : Message} {db : Fields}

theorem changed_of_refused {d : Table} {now : Value} {rows : List Row} {arg : List CChar}
    (h : answer d now db rows = .refused arg) : changed d now db rows = rows := by
  cases hchange : change d now db rows with
  | none =>
    rw [changed, hchange]
    rfl
  | some c =>
    unfold answer at h
    rw [hchange] at h
    simp only [Option.isSome_some, if_true] at h
    split_ifs at h with hi hd hs hm
    rw [change, demand, if_neg hi, if_neg hd] at hchange
    cases hchange

/-- Whoever is refused gets the first bytes of the picture and neither the status line nor the
message, where the picture has a NUL. The table stays as it is. -/
theorem serve_refused (hd : Expected b.table) (h : b.Asks m db) {w : World (List Row)}
    {now : Value} {arg : List CChar} (hanswer : answer b.table now db w.state = .refused arg)
    (hnul : 0 ∈ b.picture) (hroom : b.picture.length ≤ 19368) (fd : ℕ) :
    ∃ env unread child, b.programs.serve w ⟨fd,now,m.stream⟩ =
      some (⟨env,w.state⟩,⟨text b.picture,unread,env,child⟩) := by
  obtain ⟨env,unread,child,hserve⟩ := serve_of_asks hd h w fd now
  have hlen := length_errorPage_lt arg
  have htotal : (b.picture ++ errorPage [] arg).length < 20480 := by
    rw [List.length_append]
    omega
  have hpage : relayed (b.picture ++ errorPage [] arg) = some (text b.picture) := by
    rw [relayed, if_pos (.inl htotal), text_append_of_mem hnul]
  refine ⟨env,unread,some child,?_⟩
  rw [hserve, changed_of_refused hanswer, hanswer, Page.bytes, hpage, Option.map_some]

/-- The program where the form of the site looks for it, and a picture with a NUL. -/
def registry : Backend where
  site := ⟨fun _ => some 0o100755,id,fun _ => []⟩
  path := root ++ cstr "/cgi_bin/MySql/my_sql"
  table := person
  picture := [-1,-40,-1,-32,0,16]

def blankMessage : Message where
  line := cstr "GET /cgi_bin/MySql/my_sql?operation=delete&name=&age=&school= HTTP/1.1"
  headers := [cstr "Host: a"]
  body := []
  line_plain := by decide
  line_fits := by decide
  header_line := by decide

/-- A deletion without any field filled in. -/
theorem serve_refused_blank : ∃ env unread child, registry.programs.serve
    ⟨⟨none,none,none⟩,[]⟩ ⟨5,.null,blankMessage.stream⟩ =
      some (⟨env,[]⟩,⟨[-1,-40,-1,-32],unread,env,child⟩) := by
  have hd : Expected registry.table := by decide
  have hreq : requestOf blankMessage.line = some ⟨cstr "GET",cstr "/cgi_bin/MySql/my_sql",
      cstr "operation=delete&name=&age=&school=",true⟩ := rfl
  have hsub : blankMessage.Submits registry.site.stat registry.path _ :=
    .get hreq (by decide) rfl rfl
  have hform : formOf (cstr "operation=delete&name=&age=&school=") =
      some ⟨cstr "delete",[],[],[],[]⟩ := rfl
  have hasks : registry.Asks blankMessage ⟨cstr "delete",[],[],[],[]⟩ :=
    ⟨⟨_,hsub,by decide,hform⟩,by decide,by decide,by decide,.inl rfl⟩
  exact serve_refused hd hasks rfl (by decide) (by decide) 5

end Refused

end LibeventHttpd.MySql
