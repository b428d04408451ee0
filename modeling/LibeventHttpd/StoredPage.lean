import LibeventHttpd.Descriptors
import LibeventHttpd.RequestTarget

/-! The file a request without a program leaves in its record, when the write callback looks for it
again. -/
namespace LibeventHttpd

/-- `stat` reports something that is no directory. -/
def FileAt (stat : Stat) (path : List CChar) : Prop :=
  ∃ mode, stat path = some mode ∧ mode &&& 0o170000 ≠ 0o040000

/-- When `accept_request` returns 0 with the flag 0, the record has the path of a file, and the
write callback, which asks `stat` again, gets to closing the connection. -/
def StoresFile (stat : Stat) (cgi : Child → List CChar) (env : Env) (fd : ℕ) (sock : Stream) :
    Prop :=
  ∀ a, acceptRequest stat cgi env fd sock = some a → a.data.errNum = 0 → a.data.cgi = false →
    ∃ path, a.data.path = some path ∧ FileAt stat path ∧
      ∀ c : Descriptors.Calls, c.stat = (stat path).isSome →
        .closed .client ∈ Descriptors.writeFc c 0 false

/-- Where a `GET` without a query names a directory, there is a file whose name is that of the
directory with the default page right behind it. -/
def PageThere (stat : Stat) (line : List CChar) : Prop :=
  strcaseeq (word line) (cstr "GET") = true → ch '?' ∉ targetOf line →
    (targetOf line).length < size/2 →
      ∀ mode, stat (rootPath (targetOf line)) = some mode → isDir mode = true →
        (rootPath (targetOf line) ++ dfPath).length < size/2 →
          FileAt stat (rootPath (targetOf line) ++ dfPath)

section Record
variable {stat : Stat} {cgi : Child → List CChar} {env : Env} {fd : ℕ} {sock : Stream}

/-- A record without the flag has the path of the file that was located. -/
theorem located_of_record {a : Accepted} (ha : acceptRequest stat cgi env fd sock = some a)
    (herr : a.data.errNum = 0) (hcgi : a.data.cgi = false) :
    ∃ req path, parseRequest (text (getLine size sock).1) = some (some req) ∧
      locate stat req = some (some (path,false)) ∧ a.data.path = some path := by
  obtain ⟨d,hd,h⟩ := Option.bind_eq_some_iff.mp ha
  cases d with
  | done data rest =>
    obtain rfl := Option.some.inj h
    obtain ⟨-,rfl⟩ | ⟨-,⟨-,rfl⟩ | ⟨req,hparse,⟨-,rfl⟩ | ⟨path,hloc,rfl⟩⟩⟩ := dispatch_done hd
    · cases herr
    · cases herr
    · cases herr
    · exact ⟨req,path,hparse,hloc,rfl⟩
  | exec call =>
    obtain ⟨e,-,h⟩ := Option.bind_eq_some_iff.mp h
    obtain rfl := Option.some.inj h
    cases hcgi

theorem record_of_located {req : Request} {path : List CChar}
    (hparse : parseRequest (text (getLine size sock).1) = some (some req))
    (hloc : locate stat req = some (some (path,false))) :
    acceptRequest stat cgi env fd sock = some ⟨.filled fd req.method path req.queryString,env,
      clearHead (getLine size sock).2,none⟩ := by
  have hdispatch : dispatch stat env fd sock =
      some (.done (.filled fd req.method path req.queryString)
        (clearHead (getLine size sock).2)) := by
    unfold dispatch
    generalize getLine size sock = line at hparse ⊢
    obtain ⟨requestLine,sock⟩ := line
    have hne : requestLine ≠ [] := by
      rintro rfl
      cases hparse
    have hpos : requestLine.length ≠ 0 := by simpa using hne
    simp [hpos, hparse, hloc]
  simp [acceptRequest, hdispatch]

/-- A file that is located without the flag is there, unless the default page is missing. -/
theorem locate_file_iff {req : Request} :
    (∀ path, locate stat req = some (some (path,false)) → FileAt stat path) ↔
      (req.cgi = false → ∀ mode, stat (rootPath req.url) = some mode → isDir mode = true →
        (rootPath req.url ++ dfPath).length < size/2 →
          FileAt stat (rootPath req.url ++ dfPath)) := by
  constructor
  · intro h hcgi mode hs hd hlong
    have hfit : (rootPath req.url).length < size/2 :=
      (List.prefix_append _ _).length_le.trans_lt hlong
    exact h _ (locate_iff.mpr ⟨hfit,mode,hs,.inl ⟨hd,hlong,rfl,hcgi.symm⟩⟩)
  · intro h path hloc
    obtain ⟨-,mode,hs,⟨hd,hlong,rfl,hcgi⟩ | ⟨hd,rfl,-⟩⟩ := locate_iff.mp hloc
    · exact h hcgi.symm mode hs hd hlong
    · exact ⟨mode,hs,mask_of_not_isDir hd⟩

/-- The file in the record is there exactly if the default page is, where a directory is named. -/
theorem storesFile_iff (stat : Stat) (cgi : Child → List CChar) (env : Env) (fd : ℕ)
    (sock : Stream) :
    StoresFile stat cgi env fd sock ↔ PageThere stat (text (getLine size sock).1) := by
  have hfile : StoresFile stat cgi env fd sock ↔ ∀ req,
      parseRequest (text (getLine size sock).1) = some (some req) →
        ∀ path, locate stat req = some (some (path,false)) → FileAt stat path := by
    constructor
    · intro h req hparse path hloc
      obtain ⟨path',hpath,hfile,-⟩ := h _ (record_of_located hparse hloc) rfl rfl
      obtain rfl : path = path' := Option.some.inj hpath
      exact hfile
    · intro h a ha herr hcgi
      obtain ⟨req,path,hparse,hloc,hpath⟩ := located_of_record ha herr hcgi
      obtain ⟨mode,hs,hmask⟩ := h req hparse path hloc
      refine ⟨path,hpath,⟨mode,hs,hmask⟩,fun c hc => ?_⟩
      rw [hs, Option.isSome_some] at hc
      simp [Descriptors.writeFc, hc]
  rw [hfile]
  simp only [locate_file_iff]
  rw [parseRequest_eq (text_notMem _), PageThere]
  generalize text (getLine size sock).1 = line
  constructor
  · intro h hget hmark hfit mode hs hd hlong
    have hword : (word line).length < size/2 := by
      rw [strcaseeq_length hget]
      decide
    have hself : pathPart (targetOf line) = targetOf line := pathPart_eq_self_iff.mpr hmark
    have hreq : requestOf line = some ⟨word line,targetOf line,[],false⟩ := by
      rw [requestOf_get hget, hself, queryPart_of_notMem hmark, decide_eq_false hmark]
      rfl
    rw [hreq, if_pos ⟨hword,fun r hr => Option.some.inj hr ▸ hfit⟩] at h
    exact h _ rfl rfl mode hs hd hlong
  · intro h req hreq hcgi
    split_ifs at hreq with hfit
    obtain ⟨-,rfl⟩ | ⟨hget,rfl⟩ := requestOf_cases (Option.some.inj hreq)
    · cases hcgi
    · have hmark : ch '?' ∉ targetOf line := by simpa using hcgi
      have hurl := hfit.2 _ (requestOf_get hget)
      simp only [pathPart_eq_self_iff.mpr hmark] at hurl ⊢
      exact h hget hmark hurl

end Record

/-- A site with the default page in its place. -/
def siteStat : Stat := fun path =>
  if path = root ∨ path = cstr "/home/lounuo/HTTP/htdocs" then some 0o040755
  else if path = cstr "/home/lounuo/HTTP/htdocs/mysql_response.html" then some 0o100644
  else none

/-- The name of a directory runs into that of the page. -/
theorem not_storesFile_htdocs : ¬StoresFile siteStat (fun _ => []) ⟨none,none,none⟩ 5
    (cstr "GET /htdocs HTTP/1.0\r\n\r\n") := by
  intro h
  obtain ⟨path,hpath,⟨mode,hs,-⟩,-⟩ := h ⟨.filled 5 (cstr "GET")
    (cstr "/home/lounuo/HTTP/htdocshtdocs/mysql_response.html") [],⟨none,none,none⟩,[],none⟩ rfl rfl
    rfl
  obtain rfl := Option.some.inj hpath
  have hnone : siteStat (cstr "/home/lounuo/HTTP/htdocshtdocs/mysql_response.html") = none := by
    decide
  rw [hnone] at hs
  cases hs

end LibeventHttpd
