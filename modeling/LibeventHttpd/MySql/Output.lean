import LibeventHttpd.Library.Stdio
import LibeventHttpd.MathCgi.Mul
import LibeventHttpd.MySql.ServerDatabase

/-! The bytes of the database program on their way into the server's pipe: `printf` goes through
the buffer of standard output, `sendfile` past it. -/
namespace LibeventHttpd.MySql
open MathCgi (numeral toInt)
open Stdio

/-- A piece as it is put out. The only file is the picture. -/
def output : Piece → Output CChar
  | .status line => .print line
  | .text t => .print t
  | .affected n => .print (cstr "\t<h2>number of dataline returned: " ++ numeral (toInt n) ++
      cstr "</h2>\n")
  | .names ns => .print ((ns.map (· ++ cstr "\t")).flatten ++ cstr "<br/>")
  | .row cells => .print ((cells.map fun cell => cell.getD (cstr "(null)") ++ cstr "\t").flatten ++
      cstr "<br/>")
  | .file _ => .direct

def Event.output : Event → Option (Output CChar)
  | .print p => some (MySql.output p)
  | _ => none

def outputs (es : List Event) : List (Output CChar) := es.filterMap Event.output

/-- `printf` of the messages of a table. -/
def messageText (messages : List (String × String)) (arg : List CChar) : List CChar :=
  ((messages.filter fun m => cstr m.1 = arg).map fun m => cstr m.2).flatten

def errorStatus (arg : List CChar) : List CChar :=
  if arg.length < 7 then cstr "HTTP/1.1 400 Bad Request\r\n\r\n"
  else cstr "HTTP/1.1 500 Internal Server Error\r\n\r\n"

def errorMessage (arg : List CChar) : List CChar :=
  if arg.length < 7 then messageText fieldMessages arg else messageText serverMessages arg

/-- An error page as it is meant: the status line first, the picture in the body. -/
def errorPage (file arg : List CChar) : List CChar :=
  errorStatus arg ++ (cstr "<html>\n" ++ cstr "<head>\n" ++
    (if arg.length < 7 then cstr "ERROR INFORMATION!\n" else cstr "SERVER ERROR!\n") ++
    cstr "</head>\n") ++ (cstr "<body>\n" ++ errorMessage arg ++ file ++ cstr "</body>\n") ++
    cstr "</html>\n"

/-- What arrives is what was put out, in program order; the error pages are whole. -/
def ArrivesInOrder (cap : ℕ) (file : List CChar) (es : List Event) : Prop :=
  received cap file (outputs es) = ordered file (outputs es) ∧
    ∀ before arg after, es = before ++ error arg ++ after →
      received cap file (outputs es) = ordered file (outputs before) ++ errorPage file arg ++
        ordered file (outputs after)

theorem ordered_append (file : List CChar) (es es' : List Event) :
    ordered file (outputs (es ++ es')) =
      ordered file (outputs es) ++ ordered file (outputs es') := by
  simp [ordered, outputs]

theorem ordered_sayMessage (file : List CChar) (messages : List (String × String))
    (arg : List CChar) :
    ordered file (outputs (sayMessage messages arg)) = messageText messages arg := by
  rw [sayMessage, messageText]
  induction messages.filter fun m => cstr m.1 = arg with
  | nil => rfl
  | cons m ms ih =>
    rw [List.map_cons, List.map_cons, List.flatten_cons, ← ih]
    rfl

/-- In program order an error page is what it is meant to be. -/
theorem ordered_error (file arg : List CChar) :
    ordered file (outputs (error arg)) = errorPage file arg := by
  unfold error errorPage errorStatus errorMessage
  split_ifs
  · rw [ordered_append, ordered_append, ordered_sayMessage]
    simp [ordered, outputs, Event.output, output, say, Output.bytes]
  · rw [ordered_append, ordered_append, ordered_sayMessage]
    simp [ordered, outputs, Event.output, output, say, Output.bytes]

/-- The bytes arrive in program order exactly if at every `sendfile` it makes no difference whether
the waiting bytes come before the picture or after it. -/
theorem arrivesInOrder_iff (cap : ℕ) (file : List CChar) (es : List Event) :
    ArrivesInOrder cap file es ↔ Commutes cap file ⟨[],[]⟩ (outputs es) := by
  rw [← received_iff]
  constructor
  · rintro ⟨h,-⟩
    exact h
  · intro h
    refine ⟨h,fun before arg after hsplit => ?_⟩
    rw [h, hsplit, ordered_append, ordered_append, ordered_error]

/-- A query that is no form: the picture arrives before the status line. -/
theorem not_arrivesInOrder_x : ∃ es, handleData working () (cstr "x") = some es ∧
    ¬ArrivesInOrder 4096 (cstr "JPG") es := by
  refine ⟨error (cstr "op") ++ destroy (construct ()),rfl,?_⟩
  rintro ⟨h,-⟩
  have hordered (file : List CChar) :
      ordered file (outputs (error (cstr "op") ++ destroy (construct ()))) =
        errorPage file (cstr "op") := by
    rw [ordered_append, ordered_error]
    exact List.append_nil _
  have harrived : received 4096 (cstr "JPG")
      (outputs (error (cstr "op") ++ destroy (construct ()))) =
        cstr "JPG" ++ errorPage [] (cstr "op") := by
    rw [received_short, hordered]
    · rfl
    · rw [hordered]
      decide +kernel
  rw [h, hordered] at harrived
  exact absurd (congrArg List.head? harrived) (by decide)

end LibeventHttpd.MySql
