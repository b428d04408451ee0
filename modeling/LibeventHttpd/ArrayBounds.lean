import LibeventHttpd.RequestTarget
import LibeventHttpd.LineBuffer

/-! The strings that `accept_request`, `GetContentLength` and `exec_response` store in arrays of a
fixed size. -/
namespace LibeventHttpd

/-- The arrays, by function; `data` are the fields of the record. -/
inductive CArray where
  | method | url | queryString | path
  | tmp | contentLength
  | queryStr | execMethod
  | dataMethod | dataPath | dataQueryString | dataBuf
  deriving DecidableEq

def CArray.cells : CArray → ℕ
  | .method | .url | .path | .tmp | .contentLength | .execMethod => size/2
  | .queryString | .queryStr | .dataMethod | .dataPath | .dataQueryString => size
  | .dataBuf => 2*size

/-- A string as it stands in an array after a copy loop, `strcpy`, `strcat` or `sprintf`. -/
structure Store where
  array : CArray
  value : List CChar

/-- The array has room for the string and its NUL. -/
def Store.Fits (s : Store) : Prop := s.value.length < s.array.cells

/-- The copies out of the request line. -/
def lineStores (line : List CChar) : List Store :=
  let method := line.takeWhile (fun c => ¬IsSpace c)
  let rest := (line.drop method.length).dropWhile (fun c => IsSpace c)
  ⟨.method,method⟩::
    if strcaseeq method (cstr "POST") then [⟨.url,rest.takeWhile (fun c => ¬IsSpace c)⟩]
    else if strcaseeq method (cstr "GET") then
      let req := getTarget method rest
      if rest = [] then []
      else if req.cgi then [⟨.queryString,req.queryString⟩,⟨.url,req.url⟩]
      else [⟨.url,req.url⟩]
    else []

/-- `strcpy` to the three fields. -/
def copyStores (req : Request) (path : List CChar) : List Store :=
  [⟨.dataMethod,req.method⟩,⟨.dataPath,path⟩,⟨.dataQueryString,req.queryString⟩]

/-- The path is put together, perhaps completed by the default page, and copied. -/
def pathStores (stat : Stat) (req : Request) : List Store :=
  let path := rootPath req.url
  ⟨.path,path⟩::
    match stat path with
    | none => []
    | some mode =>
      if isDir mode then ⟨.path,path ++ dfPath⟩::copyStores req (path ++ dfPath)
      else copyStores req path

/-- The turns of `GetContentLength` up to the header it looks for. -/
def lengthStoresFrom : ℕ → Stream → List Store
  | 0,_ => []
  | fuel+1,sock =>
    let (buf,sock) := getLine size sock
    if buf.length > 0 then
      if strncmp 15 (text buf) (cstr "Content-Length:") = 0 then
        let tmp := (text buf).drop 15
        [⟨.tmp,tmp⟩,⟨.contentLength,cstr "CONTENT_LENGTH=" ++ tmp⟩]
      else lengthStoresFrom fuel sock
    else []

def lengthStores (method : List CChar) (sock : Stream) : List Store :=
  if strcaseeq method (cstr "POST") then lengthStoresFrom (sock.length+1) sock else []

/-- `exec_response`, where `output` is what the program writes. -/
def execStores (req : Request) (output : List CChar) : List Store :=
  [⟨.queryStr,cstr "QUERY_STRING=" ++ req.queryString⟩,⟨.execMethod,cstr "METHOD=" ++ req.method⟩,
    ⟨.dataBuf,output⟩]

/-- The stores made for a request that is understood, where `sock` is what follows its line. -/
def requestStores (stat : Stat) (output : List CChar) (sock : Stream) (req : Request) :
    List Store :=
  pathStores stat req ++
    match locate stat req with
    | some (some (_,true)) => lengthStores req.method sock ++ execStores req output
    | _ => []

/-- All stores of `accept_request`, up to the function that makes one outside its array. -/
def stores (stat : Stat) (output : List CChar) (sock : Stream) : List Store :=
  let (requestLine,sock) := getLine size sock
  if requestLine.length = 0 then []
  else
    lineStores (text requestLine) ++
      match parseRequest (text requestLine) with
      | some (some req) => requestStores stat output sock req
      | _ => []

/-- The lines that calls of `get_line` with a buffer of `_SIZE_` cells deliver, as C strings. -/
def deliveredFrom : ℕ → Stream → List (List CChar)
  | 0,_ => []
  | fuel+1,sock =>
    let (buf,sock) := getLine size sock
    if buf.length > 0 then text buf::deliveredFrom fuel sock else []

def delivered (sock : Stream) : List (List CChar) := deliveredFrom (sock.length+1) sock

/-- A program is run for the request. -/
def RunsProgram (stat : Stat) (req : Request) : Prop :=
  ∃ mode, stat (rootPath req.url) = some mode ∧
    (req.cgi = true ∨ isDir mode = false ∧ isExec mode = true)

/-- The first line that names a length is shorter than its arrays. -/
def LengthFits (method : List CChar) (sock : Stream) : Prop :=
  strcaseeq method (cstr "POST") = true →
    ∀ l ∈ (delivered sock).find? (fun l => lengthName <+: l), l.length < size/2

/-- The bounds that nothing in the code guards. -/
def Bounded (stat : Stat) (output : List CChar) (sock : Stream) : Prop :=
  let (requestLine,sock) := getLine size sock
  (word (text requestLine)).length < size/2 ∧
    ∀ req ∈ requestOf (text requestLine),
      req.url.length < size/2 ∧ (rootPath req.url).length < size/2 ∧
        (∀ mode ∈ stat (rootPath req.url), isDir mode = true →
          (rootPath req.url ++ dfPath).length < size/2) ∧
        (RunsProgram stat req → LengthFits req.method sock ∧
          (cstr "QUERY_STRING=" ++ req.queryString).length < size ∧ output.length < 2*size)

section Fits
variable {line : List CChar}

/-- A piece of a list is not longer than the list. -/
theorem word_length_le (line : List CChar) : (word line).length ≤ line.length :=
  (List.takeWhile_sublist _).length_le

theorem afterMethod_length_le (line : List CChar) : (afterMethod line).length ≤ line.length :=
  ((List.dropWhile_sublist _).trans (List.drop_sublist _ _)).length_le

theorem queryPart_length_le (t : List CChar) : (pathPart (queryPart t)).length ≤ t.length :=
  ((List.takeWhile_sublist _).trans
    ((List.tail_sublist _).trans (List.dropWhile_sublist _))).length_le

theorem targetOf_length_le (line : List CChar) : (targetOf line).length ≤ line.length :=
  (word_length_le _).trans (afterMethod_length_le line)

/-- Method and query are no longer than the line they come from. -/
theorem requestOf_length_le {req : Request} (h : requestOf line = some req) :
    req.method.length ≤ 4 ∧ req.queryString.length ≤ line.length := by
  rcases requestOf_cases h with ⟨hpost,rfl⟩ | ⟨hget,rfl⟩
  · refine ⟨?_,Nat.zero_le _⟩
    rw [strcaseeq_length hpost]
    decide
  · refine ⟨?_,(queryPart_length_le _).trans (targetOf_length_le line)⟩
    rw [strcaseeq_length hget]
    decide

/-- Out of the line, only method and url can be too long. -/
theorem lineStores_fit_iff (h0 : 0 ∉ line) (hlen : line.length < size) :
    (∀ s ∈ lineStores line, s.Fits) ↔
      (word line).length < size/2 ∧ ∀ req ∈ requestOf line, req.url.length < size/2 := by
  have hafter : 0 ∉ afterMethod line :=
    fun h => h0 (List.mem_of_mem_drop ((List.dropWhile_sublist _).subset h))
  have hquery : (pathPart (queryPart (targetOf line))).length < size :=
    ((queryPart_length_le _).trans (targetOf_length_le line)).trans_lt hlen
  have hstores : lineStores line = ⟨.method,word line⟩::
      if strcaseeq (word line) (cstr "POST") then [⟨.url,targetOf line⟩]
      else if strcaseeq (word line) (cstr "GET") then
        let req := getTarget (word line) (afterMethod line)
        if afterMethod line = [] then []
        else if req.cgi then [⟨.queryString,req.queryString⟩,⟨.url,req.url⟩]
        else [⟨.url,req.url⟩]
      else [] := rfl
  rw [hstores, List.forall_mem_cons]
  refine and_congr Iff.rfl ?_
  cases hpost : strcaseeq (word line) (cstr "POST") with
  | true =>
    rw [requestOf_post hpost]
    simp [Store.Fits, CArray.cells]
  | false =>
    cases hget : strcaseeq (word line) (cstr "GET") with
    | true =>
      have hreq : getTarget (word line) (afterMethod line) = ⟨word line,pathPart (targetOf line),
          pathPart (queryPart (targetOf line)),ch '?' ∈ targetOf line⟩ := getTarget_eq hafter _
      rw [requestOf_get hget]
      simp only [hreq, Bool.false_eq_true, if_false, if_true, Option.mem_some_iff, forall_eq']
      split_ifs with hnil hmark
      · -- behind the method there is nothing, and `url` stays empty
        have htarget : targetOf line = [] := by
          rw [targetOf, hnil]
          rfl
        simp [htarget, pathPart, size]
      · simp [Store.Fits, CArray.cells, hquery]
      · simp [Store.Fits, CArray.cells]
    | false =>
      simp [requestOf, hpost, hget]

/-- Of the copies to `data` none can be too long. -/
theorem copyStores_fit {req : Request} {path : List CChar} (hmethod : req.method.length ≤ 4)
    (hquery : req.queryString.length < size) (hpath : path.length < size/2) :
    ∀ s ∈ copyStores req path, s.Fits := by
  simp only [copyStores, List.forall_mem_cons, Store.Fits, CArray.cells, size] at *
  exact ⟨by omega,by omega,by omega,by simp⟩

theorem pathStores_fit_iff (stat : Stat) {req : Request} (hmethod : req.method.length ≤ 4)
    (hquery : req.queryString.length < size) :
    (∀ s ∈ pathStores stat req, s.Fits) ↔ (rootPath req.url).length < size/2 ∧
      ∀ mode ∈ stat (rootPath req.url), isDir mode = true →
        (rootPath req.url ++ dfPath).length < size/2 := by
  rw [pathStores, List.forall_mem_cons]
  refine and_congr_right fun hpath => ?_
  change (rootPath req.url).length < size/2 at hpath
  cases stat (rootPath req.url) with
  | none => simp
  | some mode =>
    simp only [Option.mem_some_iff, forall_eq']
    cases hdir : isDir mode with
    | true =>
      simp only [if_true, List.forall_mem_cons, forall_const]
      constructor
      · exact fun h => h.1
      · exact fun h => ⟨h,copyStores_fit hmethod hquery h⟩
    | false =>
      simp only [Bool.false_eq_true, if_false, false_implies, iff_true]
      exact copyStores_fit hmethod hquery hpath

/-- The name and the variable's name have the same length. -/
theorem lengthStoresFrom_fit_iff (fuel : ℕ) (sock : Stream) :
    (∀ s ∈ lengthStoresFrom fuel sock, s.Fits) ↔
      ∀ l ∈ (deliveredFrom fuel sock).find? (fun l => lengthName <+: l), l.length < size/2 := by
  induction fuel generalizing sock with
  | zero => simp [lengthStoresFrom, deliveredFrom]
  | succ fuel ih =>
    rw [lengthStoresFrom, deliveredFrom]
    obtain ⟨buf,rest⟩ := getLine size sock
    simp only
    have hprefix := strncmp_lengthName (text_notMem buf)
    split_ifs with hpos hname
    · have hyes : lengthName <+: text buf := hprefix.mp hname
      have hle : 15 ≤ (text buf).length := hyes.length_le
      have hvariable : (cstr "CONTENT_LENGTH=").length = 15 := rfl
      have hfind : (text buf::deliveredFrom fuel rest).find? (fun l => lengthName <+: l) =
          some (text buf) := List.find?_cons_of_pos (by simpa using hyes)
      rw [hfind]
      simp only [List.forall_mem_cons, Store.Fits, CArray.cells, List.length_append,
        List.length_drop, hvariable, Option.mem_some_iff, forall_eq']
      constructor
      · rintro ⟨-,hfit,-⟩
        omega
      · exact fun hfit => ⟨by omega,by omega,by simp⟩
    · have hno : ¬lengthName <+: text buf := mt hprefix.mpr hname
      rw [List.find?_cons_of_neg (by simpa using hno)]
      exact ih rest
    · simp

theorem lengthStores_fit_iff (method : List CChar) (sock : Stream) :
    (∀ s ∈ lengthStores method sock, s.Fits) ↔ LengthFits method sock := by
  rw [lengthStores, LengthFits]
  split_ifs with hpost
  · rw [forall_prop_of_true hpost]
    exact lengthStoresFrom_fit_iff _ sock
  · simp [hpost]

theorem execMethod_fits {method : List CChar} (hmethod : method.length ≤ 4) :
    (cstr "METHOD=" ++ method).length < size/2 := by
  have hname : (cstr "METHOD=").length = 7 := rfl
  rw [List.length_append, hname, size]
  omega

/-- `METHOD=` leaves room for the methods that are known. -/
theorem execStores_fit_iff {req : Request} (hmethod : req.method.length ≤ 4)
    (output : List CChar) :
    (∀ s ∈ execStores req output, s.Fits) ↔
      (cstr "QUERY_STRING=" ++ req.queryString).length < size ∧ output.length < 2*size := by
  simp only [execStores, List.forall_mem_cons, Store.Fits, CArray.cells]
  constructor
  · exact fun h => ⟨h.1,h.2.2.1⟩
  · exact fun h => ⟨h.1,execMethod_fits hmethod,h.2,by simp⟩

/-- Where the path fits, with the default page if it is needed. -/
theorem locate_runs_iff {stat : Stat} {req : Request} (hpath : (rootPath req.url).length < size/2)
    (hpage : ∀ mode ∈ stat (rootPath req.url), isDir mode = true →
      (rootPath req.url ++ dfPath).length < size/2) :
    (∃ path, locate stat req = some (some (path,true))) ↔ RunsProgram stat req := by
  constructor
  · rintro ⟨path,h⟩
    obtain ⟨-,mode,hmode,h⟩ := locate_iff.mp h
    refine ⟨mode,hmode,?_⟩
    rcases h with ⟨-,-,-,hcgi⟩ | ⟨hdir,-,hcgi⟩
    · exact .inl hcgi.symm
    · rcases Bool.or_eq_true_iff.mp hcgi.symm with h | h
      · exact .inl h
      · exact .inr ⟨hdir,h⟩
  · rintro ⟨mode,hmode,h⟩
    cases hdir : isDir mode with
    | true =>
      have hcgi : req.cgi = true := h.resolve_right fun h => by simp [hdir] at h
      exact ⟨_,locate_iff.mpr ⟨hpath,mode,hmode,.inl ⟨hdir,hpage mode hmode hdir,rfl,hcgi.symm⟩⟩⟩
    | false =>
      have hcgi : (req.cgi || isExec mode) = true :=
        Bool.or_eq_true_iff.mpr (h.imp_right fun h => h.2)
      exact ⟨_,locate_iff.mpr ⟨hpath,mode,hmode,.inr ⟨hdir,rfl,hcgi.symm⟩⟩⟩

end Fits

section Bounds
variable (stat : Stat) (output : List CChar) (sock : Stream)

theorem requestStores_fit_iff {req : Request} (hmethod : req.method.length ≤ 4)
    (hquery : req.queryString.length < size) :
    (∀ s ∈ requestStores stat output sock req, s.Fits) ↔
      (rootPath req.url).length < size/2 ∧
        (∀ mode ∈ stat (rootPath req.url), isDir mode = true →
          (rootPath req.url ++ dfPath).length < size/2) ∧
        (RunsProgram stat req → LengthFits req.method sock ∧
          (cstr "QUERY_STRING=" ++ req.queryString).length < size ∧ output.length < 2*size) := by
  rw [requestStores, List.forall_mem_append, pathStores_fit_iff stat hmethod hquery, and_assoc]
  refine and_congr_right fun hpath => and_congr_right fun hpage => ?_
  rw [← locate_runs_iff hpath hpage, ← lengthStores_fit_iff, ← execStores_fit_iff hmethod,
    ← List.forall_mem_append]
  rcases locate stat req with _ | _ | ⟨path,_ | _⟩ <;> simp

/-- Every string has room in its array exactly if the request and the output of the program keep
the bounds. -/
theorem stores_fit_iff : (∀ s ∈ stores stat output sock, s.Fits) ↔ Bounded stat output sock := by
  have hsize : (getLine size sock).1.length < size :=
    (lineFrom_length_le (size-1) sock).trans_lt (by decide)
  rw [stores, Bounded]
  generalize getLine size sock = received at hsize ⊢
  obtain ⟨requestLine,rest⟩ := received
  by_cases hnil : requestLine = []
  · subst hnil
    refine iff_of_true (by simp) ⟨by decide,?_⟩
    intro req hreq
    cases hreq
  · have hlen : ¬requestLine.length = 0 := mt List.length_eq_zero_iff.mp hnil
    have htext : (text requestLine).length < size :=
      ((List.takeWhile_sublist _).length_le).trans_lt hsize
    have h0 := text_notMem requestLine
    simp only [hlen, if_false, List.forall_mem_append]
    generalize text requestLine = line at htext h0 ⊢
    rw [lineStores_fit_iff h0 htext, parseRequest_eq h0]
    constructor
    · rintro ⟨hline,hrest⟩
      refine ⟨hline.1,fun req hreq => ⟨hline.2 req hreq,?_⟩⟩
      obtain ⟨hmethod,hquery⟩ := requestOf_length_le hreq
      rw [if_pos hline, hreq] at hrest
      exact (requestStores_fit_iff stat output rest hmethod (hquery.trans_lt htext)).mp hrest
    · rintro ⟨hword,h⟩
      have hline : (word line).length < size/2 ∧ ∀ req ∈ requestOf line, req.url.length < size/2 :=
        ⟨hword,fun req hreq => (h req hreq).1⟩
      refine ⟨hline,?_⟩
      rw [if_pos hline]
      cases hreq : requestOf line with
      | none => simp
      | some req =>
        obtain ⟨hmethod,hquery⟩ := requestOf_length_le hreq
        exact (requestStores_fit_iff stat output rest hmethod (hquery.trans_lt htext)).mpr
          (h req hreq).2

/-- A word that fills a line, stored as the method. -/
theorem not_fit_of_word {w : List CChar} (hw : ∀ c ∈ w, Plain c ∧ ¬IsSpace c ∧ c ≠ 0)
    (hlong : size/2 ≤ w.length) (hshort : w.length < size-1) :
    ¬∀ s ∈ stores stat output (w ++ (crlf ++ sock)), s.Fits := by
  intro h
  have hline : getLine size (w ++ (crlf ++ sock)) = (w ++ [ch '\n'],sock) :=
    lineFrom_short (fun c hc => (hw c hc).1) hshort sock
  have htext : text (w ++ [ch '\n']) = w ++ [ch '\n'] := by
    rw [text_append fun h0 => (hw 0 h0).2.2 rfl]
    rfl
  have hword : word (w ++ [ch '\n']) = w := by
    refine takeWhile_append_stop (fun c hc => decide_eq_true (hw c hc).2.1) ?_
    intro c hc
    obtain rfl : ch '\n' = c := Option.some.inj hc
    decide
  have hlen : ¬(w ++ [ch '\n']).length = 0 := by simp
  rw [stores, hline] at h
  simp only [hlen, if_false, htext] at h
  have hmethod : (⟨.method,word (w ++ [ch '\n'])⟩ : Store) ∈ lineStores (w ++ [ch '\n']) :=
    List.mem_cons_self
  rw [hword] at hmethod
  exact absurd (h _ (List.mem_append_left _ hmethod)) (not_lt.mpr hlong)

end Bounds

/-- A line that is one word of 6000 letters. -/
theorem not_fit_6000 :
    ¬∀ s ∈ stores (fun _ => none) [] (List.replicate 6000 (ch 'a') ++ (crlf ++ crlf)), s.Fits := by
  apply not_fit_of_word
  · intro c hc
    rw [List.eq_of_mem_replicate hc]
    decide
  · rw [List.length_replicate]
    decide
  · rw [List.length_replicate]
    decide

section Model
variable {stat : Stat} {output : List CChar} {sock : Stream} {req : Request}

/-- `tmp` is shorter than what is built from it. -/
theorem getContentLengthFrom_isSome_iff (fuel : ℕ) (sock : Stream) :
    (getContentLengthFrom fuel sock).isSome ↔ ∀ s ∈ lengthStoresFrom fuel sock, s.Fits := by
  induction fuel generalizing sock with
  | zero => simp [getContentLengthFrom, lengthStoresFrom]
  | succ fuel ih =>
    rw [getContentLengthFrom, lengthStoresFrom, size]
    obtain ⟨buf,rest⟩ := getLine 10240 sock
    simp only
    split_ifs with hpos hname hfit
    · refine iff_of_true rfl ?_
      have htmp : ((text buf).drop 15).length < 10240/2 := by
        rw [List.length_append] at hfit
        omega
      rw [List.forall_mem_cons]
      exact ⟨htmp,List.forall_mem_singleton.mpr hfit⟩
    · refine iff_of_false (by simp) fun h => hfit ?_
      exact h ⟨.contentLength,_⟩ (by simp)
    · exact ih rest
    · simp

theorem bodyLength_isSome_iff (method : List CChar) (sock : Stream) :
    (bodyLength method sock).isSome ↔ ∀ s ∈ lengthStores method sock, s.Fits := by
  rw [bodyLength, lengthStores]
  split_ifs with hpost
  · exact getContentLengthFrom_isSome_iff _ sock
  · simp

theorem locate_isSome (hpath : (rootPath req.url).length < size/2)
    (hpage : ∀ mode ∈ stat (rootPath req.url), isDir mode = true →
      (rootPath req.url ++ dfPath).length < size/2) : (locate stat req).isSome := by
  rw [locate]
  simp only [hpath, if_true]
  cases hmode : stat (rootPath req.url) with
  | none => rfl
  | some mode =>
    cases hdir : isDir mode with
    | true =>
      have hlong := hpage mode hmode hdir
      simp only [hdir, if_true, hlong]
      rfl
    | false =>
      simp only [hdir, Bool.false_eq_true, if_false]
      rfl

theorem execResponse_isSome {queryString method : List CChar} (hargs : ArgsFit method queryString)
    (houtput : output.length < 2*size) (env : Env) (path : List CChar) (contentLength : ℤ)
    (sock : Stream) :
    (execResponse (fun _ => output) env path method queryString contentLength sock).isSome := by
  have hle : output.length ≤ 20480 := houtput.le
  rw [execResponse, if_pos hargs]
  simp only [relay_eq, hle, if_true]
  rfl

/-- Where the bounds are kept, `accept_request` does not meet a store outside an array. -/
theorem acceptRequest_isSome (h : Bounded stat output sock) (env : Env) (fd : ℕ) :
    (acceptRequest stat (fun _ => output) env fd sock).isSome := by
  rw [Bounded] at h
  rw [acceptRequest, dispatch]
  generalize getLine size sock = received at h ⊢
  obtain ⟨requestLine,rest⟩ := received
  obtain ⟨hword,hpieces⟩ := h
  by_cases hnil : requestLine = []
  · subst hnil
    rfl
  · have hlen : ¬requestLine.length = 0 := mt List.length_eq_zero_iff.mp hnil
    have hparse : parseRequest (text requestLine) = some (requestOf (text requestLine)) := by
      rw [parseRequest_eq (text_notMem requestLine)]
      exact if_pos ⟨hword,fun req hreq => (hpieces req hreq).1⟩
    simp only [hlen, if_false, hparse, Option.bind_eq_bind, Option.bind_some]
    cases hreq : requestOf (text requestLine) with
    | none => rfl
    | some req =>
      obtain ⟨-,hpath,hpage,hrun⟩ := hpieces req hreq
      obtain ⟨found,hfound⟩ := Option.isSome_iff_exists.mp (locate_isSome hpath hpage)
      simp only [hfound, Option.bind_some]
      rcases found with _ | ⟨path,_ | _⟩
      · rfl
      · rfl
      · obtain ⟨hlength,hquery,houtput⟩ := hrun ((locate_runs_iff hpath hpage).mp ⟨path,hfound⟩)
        obtain ⟨len,hbody⟩ := Option.isSome_iff_exists.mp ((bodyLength_isSome_iff _ _).mpr
          ((lengthStores_fit_iff req.method rest).mpr hlength))
        have hargs : ArgsFit req.method req.queryString :=
          ⟨hquery,execMethod_fits (requestOf_length_le hreq).1⟩
        obtain ⟨e,he⟩ := Option.isSome_iff_exists.mp (execResponse_isSome hargs houtput
          { env with contentLength := len.env.orElse fun _ => env.contentLength } path len.contLen
          len.sock)
        simp only [hbody, Option.pure_def, Option.bind_some, he]
        rfl

end Model
end LibeventHttpd
